import Scaffold.Recipe.Page
import Scaffold.Text.Search

namespace Scaffold.Cli

inductive Flag where
  | root | config | dryRun | diff | verbose | help | version | schemas | routes | shard | yes | kind
deriving DecidableEq, Repr

namespace Flag

def long : Flag → Text
  | root => "root"
  | config => "config"
  | dryRun => "dry-run"
  | diff => "diff"
  | verbose => "verbose"
  | help => "help"
  | version => "version"
  | schemas => "schemas"
  | routes => "routes"
  | shard => "user-shard"
  | yes => "yes"
  | kind => "type"

def short? : Flag → Option Char
  | dryRun => some 'n'
  | diff => some 'd'
  | verbose => some 'v'
  | help => some 'h'
  | version => some 'V'
  | yes => some 'y'
  | kind => some 't'
  | _ => none

def takesValue : Flag → Bool
  | root | config | schemas | routes | shard | kind => true
  | _ => false

def accepts (f : Flag) (value : Text) : Bool :=
  match f with
  | kind => (PageKind.ofLabel? value).isSome
  | f => !f.takesValue || !value.isEmpty

def common : List Flag := [root, config, dryRun, diff, verbose, help]

end Flag

inductive Command where
  | page | table | webhook
deriving DecidableEq, Repr

namespace Command

def all : List Command := [page, table, webhook]

def label : Command → Text
  | page => "create-page"
  | table => "create-table"
  | webhook => "create-webhook"

def ofLabel? (t : Text) : Option Command := all.find? fun c => c.label = t

def flags (c : Command) : List Flag :=
  Flag.common ++ [.schemas, .routes, .shard, .yes] ++ (if c = page then [.kind] else [])

end Command

inductive Argument where
  | separator
  | long (name : Text) (value : Option Text)
  | short (letters : Text)
  | plain (t : Text)
deriving DecidableEq, Repr

def splitValue (t : Text) : Text × Option Text :=
  match t.dropWhile (· != '=') with
  | [] => (t, none)
  | _ :: value => (t.takeWhile (· != '='), some value)

namespace Argument

def ofText : Text → Argument
  | ['-', '-'] => separator
  | '-' :: '-' :: t => long (splitValue t).1 (splitValue t).2
  | '-' :: c :: t => short (c :: t)
  | t => plain t

end Argument

end Scaffold.Cli
