import Scaffold.Text.Basic

namespace Scaffold.Text

def contains (pattern : Text) : Text → Bool
  | [] => pattern.isEmpty
  | c :: t => pattern.isPrefixOf (c :: t) || contains pattern t

theorem contains_iff {pattern t : Text} : contains pattern t = true ↔ pattern <:+: t := by
  induction t with
  | nil => simp [contains]
  | cons c t ih =>
    rw [contains, Bool.or_eq_true, ih, List.isPrefixOf_iff_prefix]
    exact List.infix_cons_iff.symm

/-- The first place where `p` holds of the character before it and of what stands after it. -/
def firstCut? (p : Option Char → Text → Bool) (prev : Option Char) : Text → Option Cut
  | [] => if p prev [] then some ⟨[], []⟩ else none
  | c :: t =>
    if p prev (c :: t) then some ⟨[], c :: t⟩
    else (firstCut? p (some c) t).map fun k => { k with before := c :: k.before }

def lastCut? (p : Option Char → Text → Bool) (prev : Option Char) : Text → Option Cut
  | [] => if p prev [] then some ⟨[], []⟩ else none
  | c :: t =>
    match lastCut? p (some c) t with
    | some k => some { k with before := c :: k.before }
    | none => if p prev (c :: t) then some ⟨[], c :: t⟩ else none

theorem whole_of_firstCut? {p : Option Char → Text → Bool} {prev : Option Char} {t : Text} {k : Cut}
    (h : firstCut? p prev t = some k) : k.whole = t := by
  induction t generalizing k prev with
  | nil =>
    rw [firstCut?] at h
    split at h
    · cases h; rfl
    · cases h
  | cons c t ih =>
    rw [firstCut?] at h
    split at h
    · cases h; rfl
    · obtain ⟨j, hj, rfl⟩ := Option.map_eq_some_iff.1 h
      simpa [Cut.whole] using ih hj

theorem whole_of_lastCut? {p : Option Char → Text → Bool} {prev : Option Char} {t : Text} {k : Cut}
    (h : lastCut? p prev t = some k) : k.whole = t := by
  induction t generalizing k prev with
  | nil =>
    rw [lastCut?] at h
    split at h
    · cases h; rfl
    · cases h
  | cons c t ih =>
    rw [lastCut?] at h
    split at h
    · next j hj => cases h; simpa [Cut.whole] using ih hj
    · split at h
      · cases h; rfl
      · cases h

end Scaffold.Text
