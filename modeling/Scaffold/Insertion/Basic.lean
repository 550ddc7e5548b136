import Scaffold.Anchor.Basic
import Scaffold.Import.Statement

namespace Scaffold

inductive FileKind where
  | bundle | routes | schemas | shard
deriving DecidableEq, Repr

inductive WhenMissing where
  | leave
  | create (opening : Text)
deriving DecidableEq, Repr

namespace FileKind

def label : FileKind → Text
  | bundle => "vite config"
  | routes => "route file"
  | schemas => "schema file"
  | shard => "user shard"

def whenMissing : FileKind → WhenMissing
  | schemas => .create "import \x7b z \x7d from 'zod';\n"
  | _ => .leave

def mainAnchor : FileKind → Anchor
  | bundle => .inputMapping
  | routes => .catchAllRoute
  | schemas => .textEnd
  | shard => .classEnd

def anchors : FileKind → List Anchor
  | routes => [mainAnchor routes, .defaultExport]
  | kind => [mainAnchor kind]

/-- The anchor that stands in, with a warning, where no other is found. -/
def fallback? : FileKind → Option Anchor
  | routes => some .textEnd
  | _ => none

end FileKind

/-- The fragment for a bundle config is a single entry without its comma, and for every other file a
block of lines. A file that has any of the markers has the fragment. -/
structure Insertion where
  kind : FileKind
  markers : List Text
  imports : List ImportRequest
  fragment : Text
deriving DecidableEq, Repr

namespace Insertion

variable (i : Insertion)

def isPresent (t : Text) : Bool := i.markers.any fun m => Text.contains m t

def block : Text := Text.dropFinalNewlines i.fragment ++ "\n"

end Insertion

end Scaffold
