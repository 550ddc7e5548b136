import Scaffold.Diff.Hunk
import Scaffold.Text.Search
import Scaffold.Text.Style

namespace Scaffold

def Text.endedLines : Text → List Text
  | [] => []
  | '\r' :: '\n' :: t => ['\r', '\n'] :: endedLines t
  | c :: t =>
    if c = '\n' ∨ c = '\r' then [c] :: endedLines t
    else
      match endedLines t with
      | [] => [[c]]
      | l :: ls => (c :: l) :: ls

namespace Diff

def signed (sign : Char) (line : Text) : Text :=
  let isEnded := line.getLast? = some '\n' ∨ line.getLast? = some '\r'
  sign :: line ++ (if isEnded then "" else "\n")

namespace Part

def print (colour : Bool) : Part Text → Text
  | same lines => lines.flatMap (signed ' ')
  | change old new =>
    old.flatMap (fun l => Style.red.paint colour (signed '-' l)) ++
      new.flatMap (fun l => Style.green.paint colour (signed '+' l))

end Part

def print (colour : Bool) (old new : Text) : Text :=
  let dots := Style.dimmed.paint colour "..." ++ "\n"
  let hunks := hunks 3 old.endedLines new.endedLines
  List.intercalate dots (hunks.map fun h => h.flatMap (Part.print colour))

end Diff

end Scaffold
