import Scaffold.Anchor.Shape

namespace Scaffold

namespace Shape

/-- What the shape makes of a text is settled where the character comes: it fails there or before,
or it leaves that character and all that follows. -/
def HaltsAt (c : Char) (p : Shape) : Prop :=
  ∀ w, ∃ o : Option Text, ∀ y, p (w ++ c :: y) = o.map (· ++ c :: y)

variable {c : Char} {p q : Shape}

theorem HaltsAt.bind (hp : HaltsAt c p) (hq : HaltsAt c q) :
    HaltsAt c fun t => (p t).bind q := by
  intro w
  obtain ⟨o, ho⟩ := hp w
  cases o with
  | none => exact ⟨none, fun y => by simp [ho]⟩
  | some w' =>
      obtain ⟨o', ho'⟩ := hq w'
      exact ⟨o', fun y => by simpa [ho] using ho' y⟩

theorem HaltsAt.getD (hp : HaltsAt c p) : HaltsAt c fun t => some ((p t).getD t) := by
  intro w
  obtain ⟨o, ho⟩ := hp w
  cases o with
  | none => exact ⟨some w, fun y => by simp [ho]⟩
  | some w' => exact ⟨some w', fun y => by simp [ho]⟩

theorem haltsAt_dropWhile {f : Char → Bool} (hc : f c = false) :
    HaltsAt c fun t => some (t.dropWhile f) := by
  intro w
  induction w with
  | nil => exact ⟨some [], fun y => by simp [hc]⟩
  | cons d w ih =>
      by_cases hd : f d = true
      · simpa [hd] using ih
      · exact ⟨some (d :: w), fun y => by simp [hd]⟩

theorem haltsAt_one {f : Char → Bool} (hc : f c = false) : HaltsAt c (one f) := by
  intro w
  cases w with
  | nil => exact ⟨none, fun y => by simp [one, hc]⟩
  | cons d w =>
      by_cases hd : f d = true
      · exact ⟨some w, fun y => by simp [one, hd]⟩
      · exact ⟨none, fun y => by simp [one, hd]⟩

theorem haltsAt_many {f : Char → Bool} (hc : f c = false) : HaltsAt c (many f) := by
  have h : many f = fun t => (one f t).bind fun t => some (t.dropWhile f) := by
    funext t
    rw [many]
    cases one f t <;> rfl
  rw [h]
  exact (haltsAt_one hc).bind (haltsAt_dropWhile hc)

theorem haltsAt_literal {word : Text} (hc : c ∉ word) : HaltsAt c (literal word) := by
  induction word with
  | nil => exact fun w => ⟨some w, fun y => rfl⟩
  | cons d word ih =>
      obtain ⟨hd, hword⟩ := not_or.1 (mt List.mem_cons.2 hc)
      intro w
      cases w with
      | nil => exact ⟨none, fun y => by simp [literal, List.isPrefixOf, Ne.symm hd]⟩
      | cons e w =>
          obtain ⟨o, ho⟩ := ih hword w
          by_cases he : d = e
          · refine ⟨o, fun y => ?_⟩
            rw [← ho y]
            simp [literal, he]
          · exact ⟨none, fun y => by simp [literal, he]⟩

theorem haltsAt_modifier {word : Text} (hword : c ∉ word) (hc : isBlank c = false) :
    HaltsAt c fun t => some (modifier word t) :=
  ((haltsAt_literal hword).bind (haltsAt_many hc)).getD

def classHalts : List Char := ['{', '}', ',', '\'', '"']

theorem haltsAt_classDeclaration (hc : c ∈ classHalts) : HaltsAt c classDeclaration := by
  have hfacts : isBlank c = false ∧ isWord c = false ∧ (c == ' ' || c == '\t') = false ∧
      c ∉ "abstract".toList ∧ c ∉ "default".toList ∧ c ∉ "export".toList ∧ c ∉ "class".toList := by
    simp only [classHalts, List.mem_cons, List.not_mem_nil, or_false] at hc
    rcases hc with rfl | rfl | rfl | rfl | rfl <;> decide
  obtain ⟨hblank, hword, hindent, habstract, hdefault, hexport, hclass⟩ := hfacts
  have hmodifiers : HaltsAt c fun t =>
      some (modifier "abstract" (modifier "default" (modifier "export" (indent t)))) :=
    (((haltsAt_dropWhile hindent).bind (haltsAt_modifier hexport hblank)).bind
      (haltsAt_modifier hdefault hblank)).bind (haltsAt_modifier habstract hblank)
  exact hmodifiers.bind ((haltsAt_literal hclass).bind
    ((haltsAt_many hblank).bind (haltsAt_many hword)))

end Shape

namespace Text

variable {p : Option Char → Text → Bool} {prev : Option Char}

theorem firstCut?_eq_start_iff {t u : Text} :
    firstCut? p prev t = some ⟨[], u⟩ ↔ p prev t = true ∧ t = u := by
  cases t with
  | nil => by_cases h : p prev [] = true <;> simp [firstCut?, h]
  | cons c t => by_cases h : p prev (c :: t) = true <;> simp [firstCut?, h]

theorem firstCut?_replace {s s' : Text} (hp : ∀ prev w, p prev (w ++ s) = p prev (w ++ s'))
    {a b : Text} (h : firstCut? p prev (a ++ (b ++ s)) = some ⟨a, b ++ s⟩) :
    firstCut? p prev (a ++ (b ++ s')) = some ⟨a, b ++ s'⟩ := by
  induction a generalizing prev with
  | nil =>
      obtain ⟨hfound, -⟩ := firstCut?_eq_start_iff.1 h
      exact firstCut?_eq_start_iff.2 ⟨hp prev b ▸ hfound, rfl⟩
  | cons c a ih =>
      rw [List.cons_append, firstCut?] at h ⊢
      have hsame := hp prev (c :: a ++ b)
      simp only [List.append_assoc, List.cons_append] at hsame
      rw [← hsame]
      split at h
      · cases h
      · next hne =>
          rw [if_neg hne]
          obtain ⟨k, hk, hck⟩ := Option.map_eq_some_iff.1 h
          obtain ⟨kb, ka⟩ := k
          cases hck
          rw [ih hk, Option.map_some]

end Text

end Scaffold
