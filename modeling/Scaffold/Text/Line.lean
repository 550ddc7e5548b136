import Scaffold.Text.Blank
import Scaffold.Text.Search

namespace Scaffold

namespace Text

/-- The lines of a text; a carriage return before the line feed is no part of one, and nothing
follows a last line feed. -/
def lines (t : Text) : List Text :=
  match (List.splitOn '\n' t).reverse with
  | [] => []
  | last :: ended =>
    let ended := ended.reverse.map fun l => if l.getLast? = some '\r' then l.dropLast else l
    if last = [] then ended else ended ++ [last]

def endsLine (t : Text) : Bool := t.getLast? == some '\n'

def dropFinalNewlines (t : Text) : Text := dropEndWhile (· == '\n') t

def beginsLine : Option Char → Bool
  | none => true
  | some c => c == '\n'

def firstLine? (p : Text → Bool) (t : Text) : Option Cut :=
  firstCut? (fun prev rest => beginsLine prev && p rest) none t

def lastLine? (p : Text → Bool) (t : Text) : Option Cut :=
  lastCut? (fun prev rest => beginsLine prev && p rest) none t

end Text

namespace Cut

def lineHead (k : Cut) : Text := (k.before.reverse.takeWhile (· != '\n')).reverse

def lineStart (k : Cut) : Cut :=
  ⟨Text.dropEndWhile (· != '\n') k.before, k.lineHead ++ k.after⟩

def lineIndent (k : Cut) : Text := k.lineStart.after.takeWhile fun c => c == ' ' || c == '\t'

def startsLine (k : Cut) : Bool := Text.isBlankText k.lineHead

theorem whole_lineStart (k : Cut) : k.lineStart.whole = k.whole := by
  have h : Text.dropEndWhile (· != '\n') k.before ++ k.lineHead = k.before := by
    rw [Text.dropEndWhile, lineHead, ← List.reverse_append, List.takeWhile_append_dropWhile,
      List.reverse_reverse]
  simp [lineStart, whole, ← List.append_assoc, h]

end Cut

end Scaffold
