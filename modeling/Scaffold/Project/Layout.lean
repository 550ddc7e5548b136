import Scaffold.Name.Basic
import Scaffold.Path.Relative
import Scaffold.Project.Settings
import Scaffold.Tree.Basic

namespace Scaffold

structure Layout where
  root : Path
  settings : Settings

structure Overrides where
  routes : Option Path
  schemas : Option Path
  shard : Option Path
deriving DecidableEq, Repr

inductive ConfigError where
  | unreadable (path : Path) (cause : FileError)
  | invalid (origin : Option Path) (cause : SettingsError)
deriving DecidableEq, Repr

namespace ConfigError

def originText : Option Path → Text
  | none => "project config"
  | some path => "project config " ++ path.text

def cause : ConfigError → Text
  | unreadable _ cause => cause.message
  | invalid _ cause => cause.reason

def message (e : ConfigError) : Text :=
  match e with
  | unreadable path _ =>
    "cannot read project config " ++ path.text ++ " to locate collaborator files: " ++ e.cause
  | invalid origin (.unusable _) =>
    originText origin ++ " describes an unusable project layout: " ++ e.cause
  | invalid origin _ => originText origin ++ " is not valid TOML: " ++ e.cause

end ConfigError

namespace Settings

def ofText (document : Text) : Except ConfigError Settings :=
  (parse document).mapError (.invalid none)

def load (t : Tree) (file : Path) : Except ConfigError Settings :=
  match t.readText file with
  | .error e => .error (.unreadable file e)
  | .ok document => (parse document).mapError (.invalid (some file))

end Settings

namespace Layout

def default (root : Path) : Layout := ⟨root, .default⟩

def fileName : Path := ⟨"stackgen.toml"⟩

def load (t : Tree) (root : Path) (file : Option Path) : Except ConfigError Layout :=
  match file with
  | some file => (Settings.load t file).map (Layout.mk root)
  | none =>
    let file := root.join fileName
    if t.isFile file then (Settings.load t file).map (Layout.mk root) else .ok (default root)

variable (l : Layout)

def override (o : Overrides) : Layout :=
  let given : PathField → Option Path
    | .routes => o.routes
    | .schemas => o.schemas
    | .shard => o.shard
    | _ => none
  { l with
    settings := { l.settings with
      paths := fun f => ((given f).map Path.text).getD (l.settings.paths f) } }

def path (f : PathField) : Path := l.root.join ⟨l.settings.paths f⟩

variable (n : Name)

def pageDir : Path := (l.path .clientDir).join ⟨n.kebab⟩

def apiModule : Path := (l.path .apiDir).join ⟨n.kebab ++ ".ts"⟩

def webhookModule : Path := (l.path .webhooksDir).join ⟨n.kebab ++ ".ts"⟩

/-- A page's entry file as the bundle config names it: the way from the config's directory. -/
def entryPath : Text :=
  Path.wayFrom (l.path .bundle).directory ((l.pageDir n).join ⟨"index.html"⟩)

end Layout

end Scaffold
