import Scaffold.Anchor.Basic
import Scaffold.Proofs.Text.Parts

namespace Scaffold.Shape

theorem eq_of_literal {word t u : Text} (h : literal word t = some u) : t = word ++ u := by
  unfold literal at h
  split at h
  · next hp =>
      cases h
      exact List.prefix_iff_eq_append.1 (List.isPrefixOf_iff_prefix.1 hp) |>.symm
  · cases h

theorem eq_of_one {p : Char → Bool} {t u : Text} (h : one p t = some u) :
    ∃ c, p c = true ∧ t = c :: u := by
  cases t with
  | nil => cases h
  | cons c t =>
      by_cases hc : p c = true
      · rw [one, if_pos hc] at h
        exact ⟨c, hc, by rw [Option.some.inj h]⟩
      · rw [one, if_neg hc] at h
        cases h

theorem eq_of_many {p : Char → Bool} {t u : Text} (h : many p t = some u) :
    ∃ g, g ≠ [] ∧ (∀ c ∈ g, p c = true) ∧ t = g ++ u := by
  obtain ⟨v, hv, rfl⟩ := Option.map_eq_some_iff.1 h
  obtain ⟨c, hc, rfl⟩ := eq_of_one hv
  refine ⟨c :: v.takeWhile p, by simp, ?_, by simp⟩
  intro d hd
  rcases List.mem_cons.1 hd with rfl | hd
  · exact hc
  · exact List.mem_takeWhile_imp hd

theorem suffix_of_literal {word t u : Text} (h : literal word t = some u) : u <:+ t :=
  ⟨word, (eq_of_literal h).symm⟩

theorem suffix_of_one {p : Char → Bool} {t u : Text} (h : one p t = some u) : u <:+ t := by
  obtain ⟨c, -, rfl⟩ := eq_of_one h
  exact List.suffix_cons c u

theorem suffix_of_many {p : Char → Bool} {t u : Text} (h : many p t = some u) : u <:+ t := by
  obtain ⟨g, -, -, rfl⟩ := eq_of_many h
  exact List.suffix_append g u

theorem suffix_blanks (t : Text) : blanks t <:+ t := List.dropWhile_suffix _

theorem suffix_modifier (word t : Text) : modifier word t <:+ t := by
  unfold modifier
  cases h : (literal word t).bind (many isBlank) with
  | none => exact List.suffix_refl t
  | some u =>
      obtain ⟨v, hv, hu⟩ := Option.bind_eq_some_iff.1 h
      exact (suffix_of_many hu).trans (suffix_of_literal hv)

theorem suffix_of_inputMapping {t u : Text} (h : inputMapping t = some u) :
    u <:+ t ∧ u.head? = some '}' := by
  simp only [inputMapping, Option.bind_eq_bind, Option.bind_eq_some_iff] at h
  obtain ⟨t₁, h₁, t₂, h₂, t₃, h₃, h⟩ := h
  split at h
  · next hclose =>
      cases h
      have l₁ := suffix_of_literal h₁
      have l₂ := (suffix_of_literal h₂).trans (suffix_blanks t₁)
      have l₃ := (suffix_of_literal h₃).trans (suffix_blanks t₂)
      exact ⟨(List.dropWhile_suffix _).trans (l₃.trans (l₂.trans l₁)), hclose⟩
  · cases h

theorem suffix_of_classDeclaration {t u : Text} (h : classDeclaration t = some u) : u <:+ t := by
  simp only [classDeclaration, Option.bind_eq_bind, Option.bind_eq_some_iff] at h
  obtain ⟨t₁, h₁, t₂, h₂, h₃⟩ := h
  have hmodifiers := (suffix_modifier "abstract" _).trans ((suffix_modifier "default" _).trans
    ((suffix_modifier "export" (indent t)).trans (List.dropWhile_suffix _)))
  have hname := (suffix_of_many h₃).trans ((suffix_of_many h₂).trans (suffix_of_literal h₁))
  exact hname.trans hmodifiers

theorem exists_of_importStatement {t u : Text} (h : importStatement t = some u) :
    ∃ w q l e, t = w ++ q :: (l ++ e) ++ u ∧ isQuote q = true ∧ '\n' ∉ l ∧
      (e = ['\n'] ∨ e = [] ∧ u = []) := by
  simp only [importStatement, Option.bind_eq_bind, Option.bind_eq_some_iff, Option.some.injEq] at h
  obtain ⟨t₁, h₁, t₂, h₂, t₃, h₃, t₄, h₄, t₅, h₅, rfl⟩ := h
  obtain ⟨q, hq, rfl⟩ := eq_of_one h₅
  have hsuffix : q :: t₅ <:+ t :=
    (suffix_of_many h₄).trans ((suffix_of_one h₃).trans
      ((List.dropWhile_suffix _).trans ((suffix_of_one h₂).trans (suffix_of_literal h₁))))
  obtain ⟨w, rfl⟩ := hsuffix
  have hl : '\n' ∉ t₅.takeWhile (· != '\n') := fun hmem => by
    simpa using List.mem_takeWhile_imp hmem
  have hsplit := List.takeWhile_append_dropWhile (p := (· != '\n')) (l := t₅)
  cases hline : t₅.dropWhile (· != '\n') with
  | nil =>
      rw [hline, List.append_nil] at hsplit
      refine ⟨w, q, _, [], ?_, hq, hl, .inr ⟨rfl, rfl⟩⟩
      rw [hsplit]
      simp
  | cons c v =>
      have hc : c = '\n' := by
        have := Text.head?_dropWhile (p := (· != '\n')) (t := t₅) (c := c) (by rw [hline]; rfl)
        simpa using this
      rw [hline, hc] at hsplit
      refine ⟨w, q, _, ['\n'], ?_, hq, hl, .inl rfl⟩
      conv => lhs; rw [← hsplit]
      simp

theorem of_importStatement {t u : Text} (h : importStatement t = some u) :
    ∃ w, t = w ++ u ∧ (w.getLast? = some '\n' ∨ u = []) := by
  obtain ⟨w, q, l, e, rfl, -, -, hend⟩ := exists_of_importStatement h
  refine ⟨_, rfl, ?_⟩
  rcases hend with rfl | ⟨-, hu⟩
  · exact .inl (by rw [← List.cons_append, ← List.append_assoc, List.getLast?_concat])
  · exact .inr hu

theorem eq_blanks (t : Text) : ∃ g, (∀ c ∈ g, isBlank c = true) ∧ t = g ++ blanks t :=
  ⟨t.takeWhile isBlank, fun _ hc => List.mem_takeWhile_imp hc, by simp [blanks, Text.trimStart]⟩

theorem literal_append (word t : Text) : literal word (word ++ t) = some t := by
  rw [literal, if_pos (List.isPrefixOf_iff_prefix.2 (List.prefix_append word t)), List.drop_left]

theorem literal_append_of_ne {word t : Text} {c d : Char} (h : c ≠ d) :
    literal (c :: word) (d :: t) = none := by
  rw [literal, if_neg (by simp [List.isPrefixOf, h])]

theorem one_cons {p : Char → Bool} {c : Char} (hc : p c = true) (t : Text) :
    one p (c :: t) = some t := by
  rw [one, if_pos hc]

theorem dropWhile_append {p : Char → Bool} {g r : Text} (hg : ∀ c ∈ g, p c = true)
    (hr : r.head?.any p = false) : (g ++ r).dropWhile p = r := by
  rw [List.dropWhile_append_of_pos hg]
  cases r with
  | nil => rfl
  | cons d r => exact List.dropWhile_cons_of_neg (by simpa using hr)

theorem many_append {p : Char → Bool} {g r : Text} (hne : g ≠ []) (hg : ∀ c ∈ g, p c = true)
    (hr : r.head?.any p = false) : many p (g ++ r) = some r := by
  obtain ⟨c, g, rfl⟩ := List.exists_cons_of_ne_nil hne
  rw [many, List.cons_append, one_cons (hg c List.mem_cons_self), Option.map_some,
    dropWhile_append (fun d hd => hg d (List.mem_cons_of_mem c hd)) hr]

theorem blanks_append {g r : Text} (hg : ∀ c ∈ g, isBlank c = true)
    (hr : r.head?.any isBlank = false) : blanks (g ++ r) = r :=
  dropWhile_append hg hr

end Scaffold.Shape

namespace Scaffold.Cut

theorem whole_ofRest {t rest : Text} (h : rest <:+ t) : (ofRest t rest).whole = t := by
  obtain ⟨s, rfl⟩ := h
  rw [ofRest_append, whole]

end Scaffold.Cut
