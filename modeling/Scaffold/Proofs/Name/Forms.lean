import Mathlib
import Scaffold.Name.Basic
import Scaffold.Proofs.Text.Sturdy

namespace Scaffold

namespace Casing

theorem subset_of_mem_segments {t s : Text} (h : s ∈ segments t) : s ⊆ t :=
  (Text.isInfix_of_mem_splitOn (List.mem_of_mem_filter h)).subset

theorem isPlain_toUpper {c : Char} (h : Text.isPlain c = true) : Text.isPlain c.toUpper = true := by
  by_cases hc : c.isLower = true
  · have halpha : c.toUpper.isAlpha = true := by simp [Char.isAlpha, hc]
    simp only [Text.isPlain, halpha, Bool.true_or]
  · rwa [Char.toUpper_eq_of_not_isLower hc]

theorem isPlain_pascal {t : Text} (h : ∀ c ∈ t, Text.isPlain c = true) :
    ∀ c ∈ pascal t, Text.isPlain c = true := by
  intro c hc
  obtain ⟨s, hs, hcs⟩ := List.mem_flatMap.1 hc
  have hst := subset_of_mem_segments hs
  cases s with
  | nil => simp [capitalize] at hcs
  | cons d s =>
      rcases List.mem_cons.1 hcs with rfl | hcs
      · exact isPlain_toUpper (h d (hst List.mem_cons_self))
      · exact h c (hst (List.mem_cons_of_mem d hcs))

theorem exists_segments {c : Char} (hc : c ≠ '-') (t : Text) :
    ∃ s ss, segments (c :: t) = (c :: s) :: ss := by
  obtain ⟨s, ss, -, hsplit⟩ :=
    Text.splitOn_append_of_not_mem (m := [c]) (by simpa using Ne.symm hc) t
  rw [List.singleton_append] at hsplit
  exact ⟨s, ss.filter (!·.isEmpty), by rw [segments, hsplit]; rfl⟩

end Casing

namespace Name

theorem isShaped_of_check {raw : Text} (h : check raw = .ok ()) : isShaped raw = true := by
  by_contra hshape
  simp only [check] at h
  repeat' split at h
  all_goals simp_all

theorem isPlain_of_isShaped {raw : Text} (h : isShaped raw = true) :
    ∀ c ∈ raw, Text.isPlain c = true := by
  cases raw with
  | nil => simp
  | cons d raw =>
      simp only [isShaped, Bool.and_eq_true, List.all_eq_true] at h
      intro c hc
      rcases List.mem_cons.1 hc with rfl | hc
      · simp [Text.isPlain, Char.isAlpha, h.1]
      · have hshape := h.2 c hc
        simp only [Casing.isLowerOrDigit, Bool.or_eq_true] at hshape
        rcases hshape with (hlower | hdigit) | hhyphen
        · simp [Text.isPlain, Char.isAlpha, hlower]
        · simp [Text.isPlain, hdigit]
        · simp [Text.isPlain, hhyphen]

theorem parse_eq {raw : Text} (h : check raw = .ok ()) : parse raw = .ok ⟨raw, h⟩ := by
  unfold parse
  split
  · next hcheck => rw [h] at hcheck; cases hcheck
  · rfl

theorem kebab_of_parse {raw : Text} {n : Name} (h : parse raw = .ok n) : n.kebab = raw := by
  unfold parse at h
  split at h
  · cases h
  · exact congrArg kebab (Except.ok.inj h).symm

theorem check_samples : check "order" = .ok () ∧ check "stripe" = .ok () := by
  have hwords : "order".toList ∉ reservedWords ∧ "stripe".toList ∉ reservedWords := by
    unfold reservedWords
    simp (disch := with_reducible rfl) only [Text.toList_eq]
    decide +kernel
  rw [check, check, if_neg hwords.1, if_neg hwords.2]
  decide +kernel

theorem check_order : check "order" = .ok () := check_samples.1

theorem check_stripe : check "stripe" = .ok () := check_samples.2

variable (n : Name)

theorem kebab_ne_nil : n.kebab ≠ [] := by
  intro h
  have hshaped := isShaped_of_check n.accepted
  rw [h] at hshaped
  cases hshaped

theorem pascal_ne_nil : n.pascal ≠ [] := by
  have hshaped := isShaped_of_check n.accepted
  rw [pascal, Casing.pascal]
  cases hkebab : n.kebab with
  | nil => exact absurd hkebab n.kebab_ne_nil
  | cons c t =>
      have hc : c ≠ '-' := by
        rintro rfl
        rw [hkebab] at hshaped
        cases hshaped
      obtain ⟨s, ss, hs⟩ := Casing.exists_segments hc t
      rw [hs]
      exact List.cons_ne_nil _ _

theorem isPlain_kebab : ∀ c ∈ n.kebab, Text.isPlain c = true :=
  isPlain_of_isShaped (isShaped_of_check n.accepted)

theorem isPlain_pascal : ∀ c ∈ n.pascal, Text.isPlain c = true :=
  Casing.isPlain_pascal n.isPlain_kebab

end Name

end Scaffold
