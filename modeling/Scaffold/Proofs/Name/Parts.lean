import Scaffold.Proofs.Name.Forms
import Scaffold.Proofs.Text.Parts

namespace Scaffold.Name

variable {n m : Name} {c : Char}

theorem lowerOrDigit_or_hyphen (hc : c ∈ n.kebab) : Casing.isLowerOrDigit c = true ∨ c = '-' := by
  have hshaped := isShaped_of_check n.accepted
  cases hkebab : n.kebab with
  | nil => exact absurd hkebab n.kebab_ne_nil
  | cons d t =>
      rw [hkebab] at hc hshaped
      simp only [isShaped, Bool.and_eq_true, List.all_eq_true, Bool.or_eq_true, beq_iff_eq]
        at hshaped
      rcases List.mem_cons.1 hc with rfl | hc
      · exact .inl (by simp [Casing.isLowerOrDigit, hshaped.1])
      · exact hshaped.2 c hc

theorem isAlphanum_of_isLowerOrDigit (h : Casing.isLowerOrDigit c = true) :
    c.isAlphanum = true := by
  simp only [Casing.isLowerOrDigit, Bool.or_eq_true] at h
  rcases h with h | h
  · simp [Char.isAlphanum, Char.isAlpha, h]
  · simp [Char.isAlphanum, h]

theorem isAlphanum_toUpper (h : c.isAlphanum = true) : c.toUpper.isAlphanum = true := by
  by_cases hc : c.isLower = true
  · have halpha : c.toUpper.isAlpha = true := by simp [Char.isAlpha, hc]
    simp only [Char.isAlphanum, halpha, Bool.true_or]
  · rwa [Char.toUpper_eq_of_not_isLower hc]

theorem isAlphanum_pascal (hc : c ∈ n.pascal) : c.isAlphanum = true := by
  obtain ⟨s, hs, hcs⟩ := List.mem_flatMap.1 hc
  have hpiece : s ∈ List.splitOn '-' n.kebab := List.mem_of_mem_filter hs
  have hall : ∀ d ∈ s, d.isAlphanum = true := by
    intro d hd
    rcases lowerOrDigit_or_hyphen (Casing.subset_of_mem_segments hs hd) with h | rfl
    · exact isAlphanum_of_isLowerOrDigit h
    · exact absurd hd (Text.not_mem_of_mem_splitOn hpiece)
  cases s with
  | nil => simp [Casing.capitalize] at hcs
  | cons d s =>
      rcases List.mem_cons.1 hcs with rfl | hcs
      · exact isAlphanum_toUpper (hall d List.mem_cons_self)
      · exact hall c (List.mem_cons_of_mem d hcs)

theorem ne_hyphen_of_isLowerOrDigit (h : Casing.isLowerOrDigit c = true) : c ≠ '-' := by
  rintro rfl
  exact absurd h (by decide)

theorem snake_part (hc : c ∈ n.snake) : c.isAlphanum = true ∨ c = '_' := by
  obtain ⟨d, hd, rfl⟩ := List.mem_map.1 hc
  rcases lowerOrDigit_or_hyphen hd with h | rfl
  · rw [if_neg (ne_hyphen_of_isLowerOrDigit h)]
    exact .inl (isAlphanum_of_isLowerOrDigit h)
  · exact .inr (if_pos rfl)

theorem screaming_part (hc : c ∈ n.screaming) : c.isAlphanum = true ∨ c = '_' := by
  obtain ⟨d, hd, rfl⟩ := List.mem_map.1 hc
  rcases lowerOrDigit_or_hyphen hd with h | rfl
  · rw [if_neg (ne_hyphen_of_isLowerOrDigit h)]
    exact .inl (isAlphanum_toUpper (isAlphanum_of_isLowerOrDigit h))
  · exact .inr (if_pos rfl)

theorem snake_ne_nil : n.snake ≠ [] := by
  simpa [snake, Casing.snake] using n.kebab_ne_nil

theorem screaming_ne_nil : n.screaming ≠ [] := by
  simpa [screaming, Casing.screaming] using n.kebab_ne_nil

theorem isUpper_of_isLowerOrDigit (h : Casing.isLowerOrDigit c = true) : c.isUpper = false := by
  rw [← Bool.not_eq_true]
  simp only [Casing.isLowerOrDigit, Bool.or_eq_true] at h
  rcases h with h | h
  · exact Char.not_isUpper_of_isLower h
  · intro hupper
    have hdigit := toNat_of_isDigit h
    have halpha := toNat_of_isAlpha (c := c) (by simp [Char.isAlpha, hupper])
    omega

theorem toLower_of_isLowerOrDigit (h : Casing.isLowerOrDigit c = true) : c.toLower = c :=
  Char.toLower_eq_of_not_isUpper (Bool.eq_false_iff.1 (isUpper_of_isLowerOrDigit h))

def hyphenated (t : Text) : Text := t.map fun c => if c = '_' then '-' else c.toLower

theorem hyphenated_map {f : Char → Char} (hhyphen : f '-' = '_')
    (hf : ∀ c, Casing.isLowerOrDigit c = true → f c ≠ '_' ∧ (f c).toLower = c) :
    hyphenated (n.kebab.map f) = n.kebab := by
  rw [hyphenated, List.map_map]
  refine (List.map_congr_left fun c hc => ?_).trans (List.map_id n.kebab)
  rcases lowerOrDigit_or_hyphen hc with h | rfl
  · obtain ⟨hne, hlower⟩ := hf c h
    simp [hne, hlower]
  · simp [hhyphen]

theorem ne_underline_of_isAlphanum (h : c.isAlphanum = true) : c ≠ '_' := by
  rintro rfl
  exact absurd h (by decide)

theorem hyphenated_snake : hyphenated n.snake = n.kebab := by
  refine hyphenated_map rfl fun c hc => ?_
  rw [if_neg (ne_hyphen_of_isLowerOrDigit hc)]
  exact ⟨ne_underline_of_isAlphanum (isAlphanum_of_isLowerOrDigit hc), toLower_of_isLowerOrDigit hc⟩

theorem hyphenated_screaming : hyphenated n.screaming = n.kebab := by
  refine hyphenated_map rfl fun c hc => ?_
  rw [if_neg (ne_hyphen_of_isLowerOrDigit hc), Char.toLower_toUpper_eq_toLower]
  have halphanum := isAlphanum_toUpper (isAlphanum_of_isLowerOrDigit hc)
  exact ⟨ne_underline_of_isAlphanum halphanum, toLower_of_isLowerOrDigit hc⟩

theorem kebab_eq_of_snake_eq (h : n.snake = m.snake) : n.kebab = m.kebab := by
  rw [← hyphenated_snake, h, hyphenated_snake]

theorem kebab_eq_of_screaming_eq (h : n.screaming = m.screaming) : n.kebab = m.kebab := by
  rw [← hyphenated_screaming, h, hyphenated_screaming]

theorem pascal_eq_of_kebab_eq (h : n.kebab = m.kebab) : n.pascal = m.pascal := by
  rw [pascal, h, ← pascal]

end Scaffold.Name
