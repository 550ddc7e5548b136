import Scaffold.Toml.Reader

namespace Scaffold.Toml.Literal

open Reader

def hexValue? (c : Char) : Option Nat :=
  if c.isDigit then some (c.toNat - '0'.toNat)
  else if 'a' ≤ c ∧ c ≤ 'f' then some (c.toNat - 'a'.toNat + 10)
  else if 'A' ≤ c ∧ c ≤ 'F' then some (c.toNat - 'A'.toNat + 10)
  else none

def codePoint (n : Nat) : Reader Char := do
  let digits := (← rest).take n
  skip n
  let values ← ofOption (digits.mapM hexValue?)
  let code := values.foldl (fun acc v => acc * 16 + v) 0
  if values.length = n ∧ code.isValidChar then return Char.ofNat code else fail

def escape : Reader Char := do
  match ← next with
  | 'b' => return '\x08'
  | 't' => return '\t'
  | 'n' => return '\n'
  | 'f' => return '\x0c'
  | 'r' => return '\r'
  | 'e' => return '\x1b'
  | '"' => return '"'
  | '\\' => return '\\'
  | 'x' => codePoint 2
  | 'u' => codePoint 4
  | 'U' => codePoint 8
  | _ => fail

def oneLine (quote : Char) (escapes : Bool) : Reader Text :=
  many do
    let c ← next
    if c = quote then return none
    else if escapes ∧ c = '\\' then return some (← escape)
    else if isPlain c then return some c
    else fail

def lineBreak : Reader Bool := do
  let after := (← rest).dropWhile fun c => c == ' ' || c == '\t'
  if after.head? = some '\n' ∨ List.isPrefixOf ['\r', '\n'] after then
    let _ ← many do
      blanks
      if ← newline then return some () else return none
    return true
  else return false

def quotesAhead (quote : Char) : Reader Nat :=
  return ((← rest).takeWhile (· == quote)).length

/-- The closing quotes of a literal over several lines, up to two quotes of its own before them. -/
def closing (quote : Char) : Reader Text := do
  let n ← quotesAhead quote
  if n ≤ 5 then skip n; return List.replicate (n - 3) quote else fail

/-- A literal over several lines, from after its opening quotes. A line end right there is no part
of it, and every other is a line feed. -/
def manyLines (quote : Char) (escapes : Bool) : Reader Text := do
  let _ ← newline
  let parts ← many do
    if 3 ≤ (← quotesAhead quote) then return none
    else if ← newline then return some ['\n']
    else
      let c ← next
      if escapes ∧ c = '\\' then
        if ← lineBreak then return some [] else return some [← escape]
      else if isPlain c then return some [c]
      else fail
  return parts.flatten ++ (← closing quote)

/-- A literal of any sort, if one stands here; only values may run over several lines. -/
def read? (mayRunOver : Bool) : Reader (Option Text) := do
  if mayRunOver && (← taking "\"\"\"") then return some (← manyLines '"' true)
  else if mayRunOver && (← taking "'''") then return some (← manyLines '\'' false)
  else if ← taking "\"" then return some (← oneLine '"' true)
  else if ← taking "'" then return some (← oneLine '\'' false)
  else return none

end Scaffold.Toml.Literal
