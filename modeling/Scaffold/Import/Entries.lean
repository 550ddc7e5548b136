import Scaffold.Text.Line

namespace Scaffold

namespace Text

def afterLast? (pattern : Text) : Text → Option Text
  | [] => none
  | c :: t =>
    match afterLast? pattern t with
    | some rest => some rest
    | none => if pattern.isPrefixOf (c :: t) then some ((c :: t).drop pattern.length) else none

end Text

namespace Import

def entries (list : Text) : List Text :=
  let inner := Text.dropEndWhile (· == '}') (list.dropWhile (· == '{'))
  ((List.splitOn ',' inner).map Text.trim).filter (!·.isEmpty)

def dropTypeWord (entry : Text) : Text :=
  if List.isPrefixOf "type ".toList entry then entry.drop 5 else entry

def binding (entry : Text) : Text :=
  let plain := Text.trim (dropTypeWord (Text.trim entry))
  match Text.afterLast? " as " plain with
  | some other => Text.trim other
  | none => plain

def entryIndent (list : Text) : Text :=
  let isEntry (l : Text) : Bool := !Text.isBlankText l && Text.trim l != "\x7d"
  match ((Text.lines list).drop 1).find? isEntry with
  | some l => Text.indent l
  | none => "  "

/-- Entries as a braced list: one on a line, each with its comma, where the list ran over several
lines before, or else all on one line. -/
def renderList (list : Text) (entries : List Text) : Text :=
  if '\n' ∈ list then
    let line (e : Text) : Text := entryIndent list ++ e ++ ",\n"
    "\x7b\n" ++ entries.flatMap line ++ "\x7d"
  else "\x7b " ++ List.intercalate ", " entries ++ " \x7d"

end Import

end Scaffold
