import Scaffold.Insertion.Apply
import Scaffold.Project.Layout
import Scaffold.Template.Basic

namespace Scaffold

inductive EmitError where
  | collision (path : Path)
  | io (path : Path) (cause : FileError)
deriving DecidableEq, Repr

namespace EmitError

def message : EmitError → Text
  | collision path => path.text ++ " already exists; refusing to overwrite"
  | io path cause => "failed to write " ++ path.text ++ ": " ++ cause.message

def causes : EmitError → List Text
  | collision _ => []
  | io _ cause => [cause.message]

end EmitError

inductive RunError where
  | name (e : NameError)
  | emit (e : EmitError)
  | patch (e : PatchError)
  | template (e : TemplateError)
deriving DecidableEq, Repr

namespace RunError

def message : RunError → Text
  | name e => "invalid name: " ++ e.message
  | emit e => e.message
  | patch e => e.message
  | template e => e.message

def causes : RunError → List Text
  | name e => [e.message]
  | emit e => e.causes
  | patch e => e.causes
  | template _ => []

end RunError

structure Emission where
  path : Path
  contents : Text
deriving DecidableEq, Repr

/-- An insertion for a file. Where the file calls `resolve`, the fragment in that style is taken
instead, if there is one. -/
structure Wire where
  file : Path
  insertion : Insertion
  resolved : Option Text
deriving DecidableEq, Repr

structure Recipe where
  guards : List Path
  files : List Emission
  wires : List Wire
  followUps : List Text
deriving DecidableEq, Repr

structure Report where
  dryRun : Bool
  files : List Emission
  outcomes : List Outcome
  nextSteps : List Text
deriving DecidableEq, Repr

def Report.hasWarnings (r : Report) : Bool := r.outcomes.any fun o => o.warning?.isSome

namespace Emission

def guard (p : Path) : Disk EmitError Unit :=
  Disk.look fun t => if t.has p then .error (.collision p) else .ok ()

def write (e : Emission) : Disk EmitError Unit := do
  EStateM.adaptExcept (EmitError.io e.path.directory) (Disk.makeRoom e.path)
  Disk.change fun t => (t.write e.path (.text e.contents)).mapError (EmitError.io e.path)

def emit (dry : Bool) (e : Emission) : Disk EmitError Unit := unless dry do e.write

end Emission

namespace Wire

def styled (w : Wire) (t : Tree) : Insertion :=
  match w.resolved, t.readText w.file with
  | some fragment, .ok contents =>
    if Text.contains "resolve(" contents then { w.insertion with fragment } else w.insertion
  | _, _ => w.insertion

/-- What the user is told to do by hand after an outcome: the whole insertion where it was not made,
and a look at the file where it was made with a warning. -/
def manualStep? (i : Insertion) : Outcome → Option Text
  | .skipped file w fragment =>
    let imports := i.imports.flatMap (·.statement '\'')
    some (w.message ++ ". Add this to " ++ file.text ++ " by hand:\n" ++ imports ++
      (if i.imports.isEmpty then "" else "\n") ++ Text.dropFinalNewlines fragment)
  | .applied file _ _ (some w) => some ("Review " ++ file.text ++ ": " ++ w.message)
  | _ => none

def run (dry : Bool) (w : Wire) : Disk PatchError (Outcome × Option Text) := do
  let i := w.styled (← get)
  let o ← i.apply w.file dry
  return (o, manualStep? i o)

end Wire

namespace Recipe

/-- Carries a recipe out, or in a dry run only tells what it would do. A run stops at the first
error, and what was written before stays. -/
def run (r : Recipe) (dry : Bool) : Disk RunError Report := do
  EStateM.adaptExcept RunError.emit do
    r.guards.forM Emission.guard
    r.files.forM (Emission.emit dry)
  let done ← EStateM.adaptExcept RunError.patch (r.wires.mapM (Wire.run dry))
  return {
    dryRun := dry
    files := r.files
    outcomes := done.map Prod.fst
    nextSteps := done.filterMap Prod.snd ++ r.followUps }

end Recipe

namespace Layout

variable (l : Layout) (n : Name)

def bindings : Bindings :=
  ((Bindings.ofName n).set .shardClass (l.settings.shard .className)).set .shardBinding
    (l.settings.shard .binding)

def bindingsFor (file : Path) : Bindings :=
  ((l.bindings n).set .schemasModule (Path.moduleSpecifier file (l.path .schemas))).set .shardModule
    (Path.moduleSpecifier file (l.path .shard))

def emission (file : Path) (t : Template) : Except RunError Emission :=
  match t.render (l.bindingsFor n file) with
  | .error e => .error (.template e)
  | .ok contents => .ok ⟨file, contents⟩

def fragment (t : Template) (b : Bindings) : Except RunError Text :=
  (t.render b).mapError .template

def schemaWire (t : Template) (constant : Text) : Except RunError Wire := do
  let fragment ← fragment t (l.bindings n)
  return {
    file := l.path .schemas
    insertion := {
      kind := .schemas
      markers := ["const " ++ constant ++ " "]
      imports := [⟨"zod", ["z"], false⟩]
      fragment }
    resolved := none }

/-- The shard methods that a template gives, under a comment line that is also their mark. It has
brackets, so that no name is found in a longer one. -/
def shardWire (t : Template) (generator : Text) (types : List Text) : Except RunError Wire := do
  let marker := "// stackgen[" ++ generator ++ ":" ++ n.kebab ++ "]"
  let fragment ← fragment t ((l.bindings n).set .marker marker)
  return {
    file := l.path .shard
    insertion := {
      kind := .shard
      markers := [marker]
      imports := [⟨Path.moduleSpecifier (l.path .shard) (l.path .schemas), types, true⟩]
      fragment }
    resolved := none }

def routesWire (t : Template) (route : Text) (module : Path) (handlers : List Text) :
    Except RunError Wire := do
  let fragment ← fragment t (l.bindings n)
  return {
    file := l.path .routes
    insertion := {
      kind := .routes
      markers := ["'" ++ route ++ "'"]
      imports := [⟨Path.moduleSpecifier (l.path .routes) module, handlers, false⟩]
      fragment }
    resolved := none }

end Layout

end Scaffold
