import Scaffold.Cli.Invocation
import Scaffold.Cli.Report

namespace Scaffold.Cli

structure Response where
  status : Nat
  output : Text
  errors : Text
deriving DecidableEq, Repr

namespace Response

def versionText : Text := "stackgen 0.1.0\n"

def helpText : Text :=
  List.intercalate "\n" [
    "Generates pages, tables and webhooks in a web project.",
    "",
    "Usage: stackgen [OPTIONS] <COMMAND> <NAME>",
    "",
    "Commands:",
    "  create-page     A page of the client, with an entry in the bundle config",
    "  create-table    A schema of rows and a table in the user's shard",
    "  create-webhook  A webhook handler with its route",
    "",
    "Options:",
    "  -t, --type <TYPE>         Kind of a page: static, dashboard or feed",
    "      --root <PATH>         Root of the project, or else the current directory",
    "      --config <PATH>       Settings, or else stackgen.toml at the root if it is there",
    "      --schemas <PATH>      File of the schemas",
    "      --routes <PATH>       File of the routes",
    "      --user-shard <PATH>   File of the user's shard",
    "  -n, --dry-run             Tells what would change and writes nothing",
    "  -d, --diff                Shows the changes of each file",
    "  -v, --verbose             Accepted, and changes nothing",
    "  -y, --yes                 Accepted, and changes nothing",
    "  -h, --help                Shows this text",
    "  -V, --version             Shows the version",
    ""]

def ofStop : Stop → Response
  | .help => ⟨0, helpText, []⟩
  | .version => ⟨0, versionText, []⟩
  | .usage e => ⟨2, [], "error: " ++ e.message ++ "\n"⟩

def failure (colour : Bool) (output : Text) (chain : List Text) : Response :=
  ⟨1, output, Style.red.paint colour "✗" ++ " " ++ List.intercalate ": " chain ++ "\n"⟩

end Response

namespace Invocation

variable (i : Invocation)

def layout (t : Tree) : Except ConfigError Layout :=
  (Layout.load t (i.root.getD t.homePath) i.config).map fun l => l.override i.overrides

/-- Generates what is asked for. The name is looked at before the settings are. -/
def run (colour : Bool) (t : Tree) : Response × Tree :=
  match Name.parse i.name with
  | .error e => (.failure colour [] [e.message], t)
  | .ok _ =>
    match i.layout t with
    | .error e => (.failure colour [] [e.message, e.cause], t)
    | .ok l =>
      let heading := "Project: " ++ l.root.text ++ "\n" ++
        (if i.dryRun then Style.cyan.paint colour "[DRY RUN - nothing will be written]" ++ "\n"
          else "")
      match i.product.generate l i.name i.dryRun t with
      | .error e t => (.failure colour heading (e.message :: e.causes), t)
      | .ok r t => (⟨0, heading ++ View.report ⟨colour, i.diff, l.root⟩ r, []⟩, t)

end Invocation

def run (colour : Bool) (arguments : List Text) (t : Tree) : Response × Tree :=
  match Invocation.ofArguments arguments with
  | .error stop => (.ofStop stop, t)
  | .ok i => i.run colour t

end Scaffold.Cli
