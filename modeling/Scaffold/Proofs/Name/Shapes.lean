import Scaffold.Proofs.Name.Fused

namespace Scaffold

namespace Text

variable {sep : Char} {t : Text}

def IsWord (first rest : Char → Bool) (t : Text) : Prop :=
  ∃ c u, t = c :: u ∧ first c = true ∧ ∀ d ∈ u, rest d = true

theorem isWord_of_all {first rest : Char → Bool} (hhead : ∃ c, t.head? = some c ∧ first c = true)
    (hall : ∀ c ∈ t, rest c = true) : IsWord first rest t := by
  obtain ⟨c, hc, hfirst⟩ := hhead
  obtain ⟨u, rfl⟩ := List.head?_eq_some_iff.1 hc
  exact ⟨c, u, rfl, hfirst, fun d hd => hall d (List.mem_cons_of_mem c hd)⟩

theorem flatten_splitOn (sep : Char) (t : Text) :
    (List.splitOn sep t).flatten = t.filter (· != sep) := by
  induction t with
  | nil => rfl
  | cons c t ih =>
      by_cases hc : c = sep
      · rw [hc, splitOn_cons_self, List.flatten_cons, ih, List.filter_cons_of_neg (by simp)]
        rfl
      · obtain ⟨p, ps, hp, hsplit⟩ :=
          splitOn_append_of_not_mem (m := [c]) (by simpa using Ne.symm hc) t
        rw [List.singleton_append] at hsplit
        rw [hsplit, List.filter_cons_of_pos (by simp [hc]), ← ih, hp]
        rfl

end Text

namespace Casing

theorem flatten_segments (t : Text) : (segments t).flatten = t.filter (· != '-') := by
  rw [segments, List.flatten_filter_not_isEmpty, Text.flatten_splitOn]

theorem map_toLower_capitalize {s : Text} (hs : ∀ c ∈ s, isLowerOrDigit c = true) :
    (capitalize s).map Char.toLower = s := by
  cases s with
  | nil => rfl
  | cons c s =>
      obtain ⟨hc, hs⟩ := List.forall_mem_cons.1 hs
      have hrest : s.map Char.toLower = s :=
        (List.map_congr_left fun d hd => Name.toLower_of_isLowerOrDigit (hs d hd)).trans
          (List.map_id s)
      rw [capitalize, List.map_cons, hrest, Char.toLower_toUpper_eq_toLower,
        Name.toLower_of_isLowerOrDigit hc]

end Casing

namespace Name

variable (n : Name)

theorem exists_kebab : ∃ c t, n.kebab = c :: t ∧ c.isLower = true := by
  have hshaped := isShaped_of_check n.accepted
  cases hkebab : n.kebab with
  | nil => exact absurd hkebab n.kebab_ne_nil
  | cons c t =>
      rw [hkebab, isShaped, Bool.and_eq_true] at hshaped
      exact ⟨c, t, rfl, hshaped.1⟩

theorem isUpper_toUpper {c : Char} (hc : c.isLower = true) : c.toUpper.isUpper = true := by
  rw [Char.isUpper_toUpper_eq_isAlpha]
  simp [Char.isAlpha, hc]

theorem isWord_pascal : Text.IsWord Char.isUpper Char.isAlphanum n.pascal := by
  obtain ⟨c, t, hc, -, hpascal⟩ := n.exists_camel
  refine Text.isWord_of_all ⟨c.toUpper, ?_, isUpper_toUpper hc⟩ fun d hd => isAlphanum_pascal hd
  rw [hpascal, List.head?_cons]

theorem camel_eq : n.camel = n.pascal.modifyHead Char.toLower := by
  obtain ⟨c, t, hc, hcamel, hpascal⟩ := n.exists_camel
  rw [hcamel, hpascal, List.modifyHead_cons, Char.toLower_toUpper_eq_toLower,
    toLower_of_isLowerOrDigit (by simp [Casing.isLowerOrDigit, hc])]

theorem map_toLower_pascal : n.pascal.map Char.toLower = n.kebab.filter (· != '-') := by
  rw [pascal, Casing.pascal, List.map_flatMap, ← Casing.flatten_segments, ← List.flatMap_id]
  exact List.flatMap_congr fun s hs =>
    Casing.map_toLower_capitalize (n.lowerOrDigit_of_mem_segments hs).2

theorem map_toLower_camel : n.camel.map Char.toLower = n.kebab.filter (· != '-') := by
  obtain ⟨c, t, hc, hcamel, hpascal⟩ := n.exists_camel
  rw [← map_toLower_pascal, hcamel, hpascal, List.map_cons, List.map_cons,
    Char.toLower_toUpper_eq_toLower]

theorem isWord_map {f : Char → Char} {first : Char → Bool} (hhyphen : f '-' = '_')
    (hletter : ∀ c, c.isLower = true → first (f c) = true)
    (hdigit : ∀ c, c.isDigit = true → f c = c) :
    Text.IsWord first (fun c => first c || c.isDigit || c == '_') (n.kebab.map f) := by
  obtain ⟨c, t, hkebab, hc⟩ := n.exists_kebab
  refine Text.isWord_of_all ⟨f c, by rw [hkebab]; rfl, hletter c hc⟩ fun d hd => ?_
  obtain ⟨e, he, rfl⟩ := List.mem_map.1 hd
  rcases lowerOrDigit_or_hyphen he with h | rfl
  · rw [Casing.isLowerOrDigit, Bool.or_eq_true] at h
    rcases h with h | h
    · rw [hletter e h, Bool.true_or, Bool.true_or]
    · rw [hdigit e h, h, Bool.or_true, Bool.true_or]
  · rw [hhyphen, beq_self_eq_true, Bool.or_true]

theorem ne_hyphen_of_isDigit {c : Char} (h : c.isDigit = true) : c ≠ '-' :=
  ne_hyphen_of_isLowerOrDigit (by rw [Casing.isLowerOrDigit, h, Bool.or_true])

theorem ne_hyphen_of_isLower {c : Char} (h : c.isLower = true) : c ≠ '-' :=
  ne_hyphen_of_isLowerOrDigit (by rw [Casing.isLowerOrDigit, h, Bool.true_or])

theorem isWord_snake : Text.IsWord Char.isLower (fun c => c.isLower || c.isDigit || c == '_')
    n.snake := by
  refine n.isWord_map rfl (fun c hc => ?_) fun c hc => if_neg (ne_hyphen_of_isDigit hc)
  rwa [if_neg (ne_hyphen_of_isLower hc)]

theorem isWord_screaming : Text.IsWord Char.isUpper (fun c => c.isUpper || c.isDigit || c == '_')
    n.screaming := by
  refine n.isWord_map rfl (fun c hc => ?_) fun c hc => ?_
  · rw [if_neg (ne_hyphen_of_isLower hc)]
    exact isUpper_toUpper hc
  · rw [if_neg (ne_hyphen_of_isDigit hc), Casing.toUpper_of_isDigit hc]

variable {n} {m : Name}

theorem eq_of_kebab_eq (h : n.kebab = m.kebab) : n = m := by
  cases n
  cases m
  cases h
  rfl

end Name

end Scaffold
