import Scaffold.Edit.Basic
import Scaffold.Import.Entries
import Scaffold.Anchor.Shape

namespace Scaffold.Mapping

/-- A line up to its comment. Two slashes in a string literal begin none; `quote` is the quote of
the literal one is in, and `escaped` tells that a backslash comes before. -/
def codeFrom (quote : Option Char) (escaped : Bool) : Text → Text
  | [] => []
  | c :: t =>
    match quote with
    | some q =>
      if escaped then c :: codeFrom quote false t
      else if c = '\\' then c :: codeFrom quote true t
      else if c = q then c :: codeFrom none false t
      else c :: codeFrom quote false t
    | none =>
      if Shape.isLiteralQuote c then c :: codeFrom (some c) false t
      else if c = '/' ∧ t.head? = some '/' then []
      else c :: codeFrom none false t

def code (line : Text) : Text := codeFrom none false line

/-- The text up to the end of the last line with code, without that line's comment and the blanks
before it. The lines come last first. -/
def upToCode? : List Text → Option Text
  | [] => none
  | line :: earlier =>
    let c := Text.trimEnd (code line)
    if Text.isBlankText c then upToCode? earlier
    else some (List.intercalate "\n" (earlier.reverse ++ [c]))

def commaEdit? (head body : Text) : Option Edit := do
  let entries ← upToCode? (List.splitOn '\n' body).reverse
  if entries.getLast? = some ',' then none else some (.insert (head ++ entries) ",")

def entryEdit (close : Cut) (body entry : Text) : Edit :=
  if '\n' ∈ body ∧ close.startsLine then
    let indent := match ((Text.lines body).drop 1).find? (!Text.isBlankText ·) with
      | some l => Text.indent l
      | none => close.lineIndent ++ "  "
    .insert close.lineStart.before (indent ++ entry ++ ",\n")
  else
    let lead : Text := if body.getLast?.any isBlank then "" else " "
    .insert close.before (lead ++ entry ++ ", ")

/-- The edits that add an entry to the mapping that is closed by a brace at the given place. The
entry before it gets a comma if it has none, and the new one goes on a line of its own where the
mapping runs over several lines. -/
def edits (close : Cut) (entry : Text) : List Edit :=
  let body := (Text.afterLast? "\x7b" close.before).getD []
  let head := close.before.take (close.before.length - body.length)
  (commaEdit? head body).toList ++ [entryEdit close body entry]

end Scaffold.Mapping
