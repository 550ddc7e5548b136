import Scaffold.Text.Basic

namespace Scaffold.Toml

structure Cursor where
  offset : Nat
  rest : Text

/-- A reader takes a beginning off the text or fails; a failure says nothing about what was wrong.
-/
abbrev Reader (α : Type) := StateT Cursor Option α

namespace Reader

variable {α : Type}

def fail : Reader α := fun _ => none

def ofOption : Option α → Reader α
  | some a => pure a
  | none => fail

def offset : Reader Nat := return (← get).offset

def rest : Reader Text := return (← get).rest

def peek? : Reader (Option Char) := return (← rest).head?

def looksAt (t : Text) : Reader Bool := return t.isPrefixOf (← rest)

def skip (n : Nat) : Reader Unit := modify fun k =>
  ⟨k.offset + Text.bytes (k.rest.take n), k.rest.drop n⟩

def next : Reader Char := do
  match ← peek? with
  | some c => skip 1; return c
  | none => fail

def taking (t : Text) : Reader Bool := do
  if ← looksAt t then skip t.length; return true else return false

def expect (t : Text) : Reader Unit := do
  unless ← taking t do fail

def takeWhile (p : Char → Bool) : Reader Text := do
  let t := (← rest).takeWhile p
  skip t.length
  return t

def upTo (n : Nat) (step : Reader (Option α)) : Reader (List α) :=
  match n with
  | 0 => fail
  | n + 1 => do
    match ← step with
    | none => return []
    | some a => return a :: (← upTo n step)

/-- Repeats a reader for as long as it goes on with `some`. Every step but the last is taken to go
on by a character at least, so that there are no more of them than characters left. -/
def many (step : Reader (Option α)) : Reader (List α) := do
  upTo ((← rest).length + 1) step

end Reader

namespace Reader

def isControl (c : Char) : Bool := c.toNat < 0x20 || c.toNat == 0x7f

def isPlain (c : Char) : Bool := c == '\t' || !isControl c

def blanks : Reader Unit := do
  let _ ← takeWhile fun c => c == ' ' || c == '\t'

def newline : Reader Bool := do
  if ← taking "\n" then return true else taking "\r\n"

def comment : Reader Unit := do
  if ← taking "#" then
    let _ ← takeWhile isPlain

def gaps : Reader Unit := do
  let _ ← many do
    blanks
    comment
    if ← newline then return some () else return none

end Reader

end Scaffold.Toml
