import Scaffold.Text.Digest
import Scaffold.Text.Quoted

namespace Scaffold

inductive Expectation where
  | text (t : Text)
  | digest (d : UInt64)
deriving DecidableEq, Repr

namespace Expectation

def ofText (t : Text) : Expectation :=
  if 1024 < Text.bytes t then .digest (Text.digest t) else .text t

def holds : Expectation → Text → Bool
  | text expected, t => t == expected
  | digest expected, t => Text.digest t == expected

theorem holds_ofText (t : Text) : (ofText t).holds t = true := by
  unfold ofText
  split <;> simp [holds]

end Expectation

structure Edit where
  start : Nat
  stop : Nat
  replacement : Text
  expected : Expectation
deriving DecidableEq, Repr

inductive EditError where
  | mismatch (start : Nat) (found : Text)
  | range (start stop size : Nat)
  | boundary (offset : Nat)
  | overlap (offset : Nat)
deriving DecidableEq, Repr

def EditError.message : EditError → Text
  | mismatch start found =>
    "before-text verification failed at byte " ++ Text.decimal start ++ ": found " ++
      Text.quoted found
  | range start stop size =>
    "invalid byte range: [" ++ Text.decimal start ++ ", " ++ Text.decimal stop ++
      ") in text of length " ++ Text.decimal size
  | boundary offset =>
    "edit at byte " ++ Text.decimal offset ++ " does not fall on a UTF-8 character boundary"
  | overlap offset => "edits overlap at byte " ++ Text.decimal offset

namespace Edit

def insert (before new : Text) : Edit := ⟨Text.bytes before, Text.bytes before, new, .text []⟩

def replace (before old new : Text) : Edit :=
  ⟨Text.bytes before, Text.bytes before + Text.bytes old, new, .ofText old⟩

def isInsertion (e : Edit) : Bool := e.start == e.stop

def found (e : Edit) (t : Text) : Text := Text.slice t e.start e.stop

def check (t : Text) (e : Edit) : Except EditError Unit :=
  if e.stop < e.start ∨ Text.bytes t < e.stop then .error (.range e.start e.stop (Text.bytes t))
  else if !Text.isBoundary t e.start then .error (.boundary e.start)
  else if !Text.isBoundary t e.stop then .error (.boundary e.stop)
  else if !e.expected.holds (e.found t) then .error (.mismatch e.start (e.found t))
  else .ok ()

def apply (e : Edit) (t : Text) : Text :=
  Text.takeBytes e.start t ++ e.replacement ++ Text.dropBytes e.stop t

/-- Edits by their start; equal starts keep their order. -/
def ordered (edits : List Edit) : List Edit := edits.mergeSort fun a b => a.start ≤ b.start

/-- Where the last edit starts that begins before its predecessor ends. -/
def lastOverlap? : List Edit → Option Nat
  | a :: b :: edits =>
    match lastOverlap? (b :: edits) with
    | some n => some n
    | none => if b.start < a.stop then some b.start else none
  | _ => none

end Edit

/-- Carries out edits together, or tells the first edit that does not fit, or an overlap. The edits
are checked against the text as it was, and carried out from the last to the first, so that every
offset still names its place when its turn comes. -/
def splice (t : Text) (edits : List Edit) : Except EditError Text := do
  edits.forM (Edit.check t)
  match Edit.lastOverlap? (Edit.ordered edits) with
  | some n => .error (.overlap n)
  | none => .ok ((Edit.ordered edits).foldr Edit.apply t)

end Scaffold
