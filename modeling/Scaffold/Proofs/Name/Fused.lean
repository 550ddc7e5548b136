import Scaffold.Proofs.Name.Parts

namespace Scaffold

namespace Casing

/-- A segment with its hyphen, if that shows in one word. -/
def fuse (s : Text) : Text := if s.head?.any Char.isDigit then s else '-' :: s

def fused (t : Text) : Text := (segments t).flatMap fuse

def unfuse (t : Text) : Text := t.flatMap fun c => if c.isUpper then ['-', c.toLower] else [c]

theorem toUpper_of_isDigit {c : Char} (h : c.isDigit = true) : c.toUpper = c := by
  apply Char.toUpper_eq_of_not_isLower
  intro hlower
  have hdigit := toNat_of_isDigit h
  have halpha := toNat_of_isAlpha (c := c) (by simp [Char.isAlpha, hlower])
  omega

theorem unfuse_of_lowerOrDigit {t : Text} (h : ∀ c ∈ t, isLowerOrDigit c = true) : unfuse t = t := by
  induction t with
  | nil => rfl
  | cons c t ih =>
      obtain ⟨hc, ht⟩ := List.forall_mem_cons.1 h
      have hrest := ih ht
      rw [unfuse] at hrest ⊢
      rw [List.flatMap_cons, hrest, Name.isUpper_of_isLowerOrDigit hc]
      rfl

theorem unfuse_capitalize {s : Text} (hne : s ≠ []) (h : ∀ c ∈ s, isLowerOrDigit c = true) :
    unfuse (capitalize s) = fuse s := by
  obtain ⟨c, s, rfl⟩ := List.exists_cons_of_ne_nil hne
  obtain ⟨hc, hs⟩ := List.forall_mem_cons.1 h
  have hrest := unfuse_of_lowerOrDigit hs
  rw [unfuse] at hrest
  rw [unfuse, capitalize, List.flatMap_cons, hrest, fuse, List.head?_cons, Option.any_some]
  by_cases hdigit : c.isDigit = true
  · rw [toUpper_of_isDigit hdigit, Name.isUpper_of_isLowerOrDigit hc, if_pos hdigit]
    rfl
  · have hlower : c.isLower = true := by simpa [isLowerOrDigit, hdigit] using hc
    have hupper : c.toUpper.isUpper = true := by
      rw [Char.isUpper_toUpper_eq_isAlpha]
      simp [Char.isAlpha, hlower]
    rw [hupper, if_neg hdigit, if_pos rfl, Char.toLower_toUpper_eq_toLower,
      Name.toLower_of_isLowerOrDigit hc]
    rfl

theorem capitalize_append_of_digit (w : Text) {s : Text} (hs : s.head?.any Char.isDigit = true) :
    capitalize (w ++ s) = capitalize w ++ capitalize s := by
  cases w with
  | nil => rfl
  | cons c w =>
      cases s with
      | nil => cases hs
      | cons d s =>
          have hd : d.isDigit = true := by simpa using hs
          simp [capitalize, toUpper_of_isDigit hd]

theorem pascal_of_not_mem {w : Text} (hw : '-' ∉ w) : pascal w = capitalize w := by
  rw [pascal, segments, List.splitOn_eq_singleton hw]
  cases w with
  | nil => rfl
  | cons c w => simp

theorem pascal_append_hyphen {w : Text} (hw : '-' ∉ w) (u : Text) :
    pascal (w ++ '-' :: u) = capitalize w ++ pascal u := by
  rw [pascal, segments, List.splitOn_append_cons_self_of_not_mem hw, pascal, segments]
  cases w with
  | nil => rfl
  | cons c w => simp

/-- Segments read alike with and without the hyphens before digits. -/
theorem pascal_append_fuse {ss : List Text} (hss : ∀ s ∈ ss, '-' ∉ s) {w : Text} (hw : '-' ∉ w) :
    pascal (w ++ ss.flatMap fuse) = capitalize w ++ ss.flatMap capitalize := by
  induction ss generalizing w with
  | nil => simpa using pascal_of_not_mem hw
  | cons s ss ih =>
      obtain ⟨hs, hss⟩ := List.forall_mem_cons.1 hss
      rw [List.flatMap_cons, List.flatMap_cons, fuse]
      split
      · next hdigit =>
          have hws : '-' ∉ w ++ s := by simp [hw, hs]
          rw [← List.append_assoc, ih hss hws, capitalize_append_of_digit w hdigit,
            List.append_assoc]
      · rw [List.cons_append, pascal_append_hyphen hw, ih hss hs]

theorem pascal_fused (t : Text) : pascal (fused t) = pascal t :=
  pascal_append_fuse (w := []) (fun _ hs => Text.not_mem_of_mem_splitOn (List.mem_of_mem_filter hs))
    (by simp)

end Casing

namespace Name

variable (n : Name)

/-- The name without the hyphens that its forms in one word do not show. -/
def fused : Text := Casing.fused n.kebab

theorem lowerOrDigit_of_mem_segments {s : Text} (hs : s ∈ Casing.segments n.kebab) :
    s ≠ [] ∧ ∀ c ∈ s, Casing.isLowerOrDigit c = true := by
  obtain ⟨hpiece, hne⟩ := List.mem_filter.1 hs
  refine ⟨by simpa using hne, fun c hc => ?_⟩
  rcases lowerOrDigit_or_hyphen (Casing.subset_of_mem_segments hs hc) with h | rfl
  · exact h
  · exact absurd hc (Text.not_mem_of_mem_splitOn hpiece)

theorem unfuse_pascal : Casing.unfuse n.pascal = n.fused := by
  rw [pascal, Casing.pascal, Casing.unfuse, List.flatMap_assoc]
  refine List.flatMap_congr fun s hs => ?_
  obtain ⟨hne, hparts⟩ := n.lowerOrDigit_of_mem_segments hs
  exact Casing.unfuse_capitalize hne hparts

theorem exists_segments : ∃ c s ss, c.isLower = true ∧
    Casing.segments n.kebab = (c :: s) :: ss := by
  have hshaped := isShaped_of_check n.accepted
  cases hkebab : n.kebab with
  | nil => exact absurd hkebab n.kebab_ne_nil
  | cons c t =>
      rw [hkebab] at hshaped
      simp only [isShaped, Bool.and_eq_true] at hshaped
      have hc : c ≠ '-' := by
        rintro rfl
        exact absurd hshaped.1 (by decide)
      obtain ⟨s, ss, hs⟩ := Casing.exists_segments hc t
      exact ⟨c, s, ss, hshaped.1, hs⟩

theorem exists_camel : ∃ c t, c.isLower = true ∧ n.camel = c :: t ∧ n.pascal = c.toUpper :: t := by
  obtain ⟨c, s, ss, hc, hsegments⟩ := n.exists_segments
  refine ⟨c, s ++ ss.flatMap Casing.capitalize, hc, ?_, ?_⟩
  · rw [camel, Casing.camel, hsegments]
    rfl
  · rw [pascal, Casing.pascal, hsegments]
    rfl

variable {n} {m : Name}

/-- The capitalized word is the same for names that differ in hyphens before digits alone. -/
theorem pascal_eq_iff : n.pascal = m.pascal ↔ n.fused = m.fused := by
  constructor
  · intro h
    rw [← n.unfuse_pascal, h, m.unfuse_pascal]
  · intro h
    rw [pascal, ← Casing.pascal_fused, ← fused, h, fused, Casing.pascal_fused, ← pascal]

theorem camel_eq_iff : n.camel = m.camel ↔ n.pascal = m.pascal := by
  obtain ⟨c, t, hc, hcamel, hpascal⟩ := n.exists_camel
  obtain ⟨d, u, hd, hcamel', hpascal'⟩ := m.exists_camel
  rw [hcamel, hcamel', hpascal, hpascal', List.cons.injEq, List.cons.injEq]
  refine and_congr_left fun _ => ⟨congrArg Char.toUpper, fun h => ?_⟩
  have hlower := congrArg Char.toLower h
  rwa [Char.toLower_toUpper_eq_toLower, Char.toLower_toUpper_eq_toLower,
    Name.toLower_of_isLowerOrDigit (by simp [Casing.isLowerOrDigit, hc]),
    Name.toLower_of_isLowerOrDigit (by simp [Casing.isLowerOrDigit, hd])] at hlower

end Name

end Scaffold
