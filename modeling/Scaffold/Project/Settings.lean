import Scaffold.Path.Basic
import Scaffold.Toml.Decode
import Scaffold.Toml.Document

namespace Scaffold

inductive PathField where
  | bundle | routes | schemas | shard | clientDir | apiDir | webhooksDir
deriving DecidableEq, Repr

inductive ShardField where
  | className | binding
deriving DecidableEq, Repr

namespace PathField

def all : List PathField := [bundle, routes, schemas, shard, clientDir, apiDir, webhooksDir]

def key : PathField → Text
  | bundle => "vite_config"
  | routes => "routes"
  | schemas => "schemas"
  | shard => "user_shard"
  | clientDir => "client_dir"
  | apiDir => "api_dir"
  | webhooksDir => "webhooks_dir"

def default : PathField → Text
  | bundle => "vite.config.ts"
  | routes => "src/server/index.ts"
  | schemas => "src/shared/schemas.ts"
  | shard => "src/server/durable/user-shard.ts"
  | clientDir => "src/client"
  | apiDir => "src/server/api"
  | webhooksDir => "src/server/webhooks"

def record : Toml.RecordShape PathField := ⟨all, key, "path string", "struct PathSettings"⟩

end PathField

namespace ShardField

def all : List ShardField := [className, binding]

def key : ShardField → Text
  | className => "class_name"
  | binding => "binding"

def default : ShardField → Text
  | className => "UserShard"
  | binding => "USER_SHARD"

def record : Toml.RecordShape ShardField := ⟨all, key, "a string", "struct ShardSettings"⟩

end ShardField

structure Settings where
  paths : PathField → Text
  shard : ShardField → Text

inductive SettingIssue where
  | emptyPath (field : PathField)
  | notAnIdentifier (field : ShardField) (value : Text)
deriving DecidableEq, Repr

namespace SettingIssue

def field : SettingIssue → Text
  | emptyPath f => "paths." ++ f.key
  | notAnIdentifier f _ => "shard." ++ f.key

def message (i : SettingIssue) : Text :=
  match i with
  | emptyPath _ => "'" ++ i.field ++ "' must not be empty"
  | notAnIdentifier _ value =>
    "'" ++ i.field ++ "' = " ++ Text.quoted value ++ " is not a valid identifier"

end SettingIssue

inductive SettingsError where
  | notToml
  | mismatch (document : Text) (m : Toml.Mismatch)
  | unusable (issues : List SettingIssue)
deriving DecidableEq, Repr

def SettingsError.reason : SettingsError → Text
  | notToml => "the document does not follow the grammar"
  | mismatch document m => m.message document
  | unusable issues => List.intercalate "\n" (issues.map SettingIssue.message)

namespace Settings

def default : Settings := ⟨PathField.default, ShardField.default⟩

def isIdentifier : Text → Bool
  | [] => false
  | c :: t =>
    let isLetter (c : Char) : Bool := c.isAlpha || c == '_' || c == '$'
    isLetter c && t.all fun c => isLetter c || c.isDigit

def issues (s : Settings) : List SettingIssue :=
  (PathField.all.filter fun f => (s.paths f).isEmpty).map SettingIssue.emptyPath ++
    (ShardField.all.filter fun f => !isIdentifier (s.shard f)).map
      fun f => .notAnIdentifier f (s.shard f)

def ofEntries (s : Settings) (entries : Toml.Entries) : Except Toml.Mismatch Settings :=
  entries.foldlM (fun s (k, n) =>
    if k.text = "paths".toList then do
      let paths ← PathField.record.read s.paths n k.span
      .ok { s with paths }
    else if k.text = "shard".toList then do
      let shard ← ShardField.record.read s.shard n k.span
      .ok { s with shard }
    else .error ⟨k.span, .unknownField k.text ["paths", "shard"]⟩) s

def check (s : Settings) : Except SettingsError Settings :=
  if s.issues = [] then .ok s else .error (.unusable s.issues)

def parse (document : Text) : Except SettingsError Settings :=
  match Toml.parse? document with
  | none => .error .notToml
  | some entries =>
    match default.ofEntries entries with
    | .error m => .error (.mismatch document m)
    | .ok s => s.check

end Settings

end Scaffold
