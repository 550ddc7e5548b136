namespace Scaffold.Diff

inductive Mark where
  | kept | deleted | inserted
deriving DecidableEq, Repr

structure Run (α : Type) where
  mark : Mark
  items : List α
deriving DecidableEq, Repr

abbrev Script (α : Type) := List (Run α)

variable {α : Type}

def Script.only (mark : Mark) (items : List α) : Script α :=
  if items.isEmpty then [] else [⟨mark, items⟩]

namespace Script

def without (mark : Mark) (s : Script α) : List α :=
  s.flatMap fun r => if r.mark = mark then [] else r.items

def old (s : Script α) : List α := s.without .inserted

def new (s : Script α) : List α := s.without .deleted

@[simp] theorem without_append (mark : Mark) (s t : Script α) :
    without mark (s ++ t) = without mark s ++ without mark t := by simp [without]

@[simp] theorem without_only (mark other : Mark) (items : List α) :
    without mark (only other items) = if other = mark then [] else items := by
  unfold only
  split
  · simp_all [without]
  · simp [without]

end Script

end Scaffold.Diff
