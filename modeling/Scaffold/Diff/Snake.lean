import Scaffold.Diff.Script

namespace Scaffold.Diff

variable {α : Type} [DecidableEq α]

def sharedLength : List α → List α → Nat
  | a :: as, b :: bs => if a = b then sharedLength as bs + 1 else 0
  | _, _ => 0

theorem take_sharedLength (as bs : List α) :
    as.take (sharedLength as bs) = bs.take (sharedLength as bs) := by
  induction as generalizing bs with
  | nil => simp [sharedLength]
  | cons a as ih =>
    cases bs with
    | nil => simp [sharedLength]
    | cons b bs => by_cases h : a = b <;> simp [sharedLength, h, ih]

/-- Free moves, from where `start` items of the old list are taken to where `stop` are. What is
taken from the old list is more than what is taken from the new one by the `diagonal`. -/
structure Snake where
  diagonal : Int
  start : Nat
  stop : Nat
deriving DecidableEq, Repr

namespace Snake

def across (s : Snake) (x : Nat) : Nat := (x - s.diagonal).toNat

def along (old new : List α) (diagonal : Int) (start : Nat) : Snake :=
  let free := sharedLength (old.drop start) (new.drop (start - diagonal).toNat)
  ⟨diagonal, start, start + free⟩

end Snake

/-- The furthest snakes of one number of steps, from the highest diagonal to the lowest. -/
abbrev Frontier := List Snake

namespace Frontier

variable (old new : List α)

/-- The snakes below a given one, one step on. A step from the diagonal below takes an item of the
old list, one from the diagonal above an item of the new list; where both come equally far, the old
list gives the item. -/
def below (s : Snake) : Frontier → Frontier
  | [] => [.along old new (s.diagonal - 1) s.stop]
  | t :: rest =>
    .along old new (s.diagonal - 1) (if t.stop < s.stop then s.stop else t.stop + 1) ::
      below t rest

def advance : Frontier → Frontier
  | [] => [.along old new 0 0]
  | s :: rest => .along old new (s.diagonal + 1) (s.stop + 1) :: below old new s rest

def reach? (f : Frontier) (diagonal : Int) : Option Nat :=
  (f.find? fun s => s.diagonal = diagonal).map Snake.stop

/-- The first snake that meets one of `g`, which comes from the other ends of the lists. -/
def meeting? (n m : Nat) (f g : Frontier) : Option Snake :=
  f.find? fun s =>
    match reach? g (n - m - s.diagonal) with
    | some r => n ≤ s.stop + r
    | none => false

/-- Where the two searches meet, one from the beginnings of the lists and one from their ends,
within a number of steps each. -/
def split? (f g : Frontier) : Nat → Option (Nat × Nat)
  | 0 => none
  | steps + 1 =>
    let n := old.length
    let m := new.length
    let f := advance old new f
    match meeting? n m f g with
    | some s => some (s.start, s.across s.start)
    | none =>
      let g := advance old.reverse new.reverse g
      match meeting? n m g f with
      | some s => some (n - s.stop, m - s.across s.stop)
      | none => split? f g steps

end Frontier

/-- How many items of either list a shortest script has dealt with when it is half done. -/
def half? (old new : List α) : Option (Nat × Nat) :=
  Frontier.split? old new [] [] ((old.length + new.length + 1) / 2 + 1)

end Scaffold.Diff
