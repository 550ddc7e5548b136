import Scaffold.Path.Basic

namespace Scaffold.Path

/-- One more component on a way: two dots take back the last one, if there is one to take back. -/
def extend (way : List Component) : Component → List Component
  | .here => way
  | .up => if way = [] ∨ way = [.root] then way ++ [.up] else way.dropLast
  | c => way ++ [c]

def normalize (components : List Component) : List Component := components.foldl extend []

def shared : List Component → List Component → Nat
  | a :: as, b :: bs => if a = b then shared as bs + 1 else 0
  | _, _ => 0

def relative (dir file : List Component) : List Component :=
  let n := shared dir file
  let down := file.drop n
  if down.head? = some .root then down else List.replicate (dir.length - n) .up ++ down

def slashed (components : List Component) : Text :=
  List.intercalate "/" (components.map Component.text)

def wayFrom (dir file : Path) : Text :=
  slashed (relative (normalize dir.components) (normalize file.components))

/-- How a module at `file` names the module at `target`: without extension, and beginning with a dot
or two. -/
def moduleSpecifier (file target : Path) : Text :=
  let way := wayFrom file.directory target.dropExtension
  if List.isPrefixOf "../".toList way then way else "./" ++ way

end Scaffold.Path
