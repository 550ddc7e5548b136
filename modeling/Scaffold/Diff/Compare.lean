import Scaffold.Diff.Snake

namespace Scaffold.Diff

variable {α : Type} [DecidableEq α]

structure Trimmed (α : Type) where
  head : List α
  old : List α
  new : List α
  tail : List α

def Trimmed.of (old new : List α) : Trimmed α :=
  let n := sharedLength old new
  let restOld := old.drop n
  let restNew := new.drop n
  let k := sharedLength restOld.reverse restNew.reverse
  { head := old.take n
    old := restOld.take (restOld.length - k)
    new := restNew.take (restNew.length - k)
    tail := restOld.drop (restOld.length - k) }

theorem Trimmed.length_old_le (old new : List α) :
    (Trimmed.of old new).old.length ≤ old.length := by simp [Trimmed.of]; omega

theorem Trimmed.length_new_le (old new : List α) :
    (Trimmed.of old new).new.length ≤ new.length := by simp [Trimmed.of]; omega

theorem Trimmed.whole_old (old new : List α) :
    (Trimmed.of old new).head ++ (Trimmed.of old new).old ++ (Trimmed.of old new).tail = old := by
  simp only [Trimmed.of, List.append_assoc, List.take_append_drop]

theorem Trimmed.whole_new (old new : List α) :
    (Trimmed.of old new).head ++ (Trimmed.of old new).new ++ (Trimmed.of old new).tail = new := by
  have hs := take_sharedLength (old.drop (sharedLength old new)).reverse
    (new.drop (sharedLength old new)).reverse
  rw [List.take_reverse, List.take_reverse, List.reverse_inj] at hs
  simp only [Trimmed.of, hs, take_sharedLength old new, List.append_assoc,
    List.take_append_drop]

def isProper (n m x y : Nat) : Bool := 0 < x + y && x + y < n + m

def compare (old new : List α) : Script α :=
  let t := Trimmed.of old new
  let middle : Script α :=
    if t.old.isEmpty || t.new.isEmpty then .only .deleted t.old ++ .only .inserted t.new
    else
      match half? t.old t.new with
      | none => .only .deleted t.old ++ .only .inserted t.new
      | some (x, y) =>
        if isProper t.old.length t.new.length x y then
          compare (t.old.take x) (t.new.take y) ++ compare (t.old.drop x) (t.new.drop y)
        else .only .deleted t.old ++ .only .inserted t.new
  .only .kept t.head ++ middle ++ .only .kept t.tail
termination_by old.length + new.length
decreasing_by
  all_goals
    rename_i h hp
    have ho := Trimmed.length_old_le old new
    have hn := Trimmed.length_new_le old new
    simp only [t, isProper, Bool.and_eq_true, decide_eq_true_eq, Bool.or_eq_true, List.isEmpty_iff,
      not_or, ← ne_eq, ← List.length_pos_iff] at h hp
    simp only [List.length_take, List.length_drop]
    omega

theorem old_compare (old new : List α) : (compare old new).old = old := by
  fun_induction compare old new with
  | case1 old new t middle ihTake ihDrop =>
    have hm : middle.old = t.old := by
      simp only [middle]
      split
      · simp [Script.old]
      · next hs =>
        split
        · simp [Script.old]
        · split
          · next hp =>
            have ht := ihTake _ _ hp
            have hd := ihDrop hs _ _ hp
            rw [Script.old] at ht hd ⊢
            rw [Script.without_append, ht, hd, List.take_append_drop]
          · simp [Script.old]
    have := Trimmed.whole_old old new
    simp_all [Script.old, t]

theorem new_compare (old new : List α) : (compare old new).new = new := by
  fun_induction compare old new with
  | case1 old new t middle ihTake ihDrop =>
    have hm : middle.new = t.new := by
      simp only [middle]
      split
      · simp [Script.new]
      · next hs =>
        split
        · simp [Script.new]
        · split
          · next hp =>
            have ht := ihTake _ _ hp
            have hd := ihDrop hs _ _ hp
            rw [Script.new] at ht hd ⊢
            rw [Script.without_append, ht, hd, List.take_append_drop]
          · simp [Script.new]
    have := Trimmed.whole_new old new
    simp_all [Script.new, t]

end Scaffold.Diff
