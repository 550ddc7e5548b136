import Scaffold.Proofs.Anchor.LastLine
import Scaffold.Proofs.Import.Reading

namespace Scaffold.Import

open Text

variable {source w x z : Text} {isType start : Bool} {f : Found}

theorem foundFrom_of_found? {u : Text} (h : found? source u = some f) :
    foundFrom source true u = f :: foundFrom source false f.rest := by
  cases u with
  | nil => cases h
  | cons c u =>
      rw [foundFrom, if_pos rfl]
      split
      · next g hg =>
          obtain rfl : g = f := Option.some.inj (hg.symm.trans h)
          rfl
      · next hg =>
          rw [hg] at h
          cases h

theorem foundFrom_cons {c : Char} (h : start = true → found? source (c :: w) = none) :
    foundFrom source start (c :: w) = foundFrom source (c == '\n') w := by
  cases start with
  | false => rw [foundFrom, if_neg Bool.false_ne_true]
  | true =>
      rw [foundFrom, if_pos rfl]
      split
      · next g hg =>
          rw [h rfl] at hg
          cases hg
      · rfl

theorem foundFrom_of_misses (h : ∀ u v, w = u ++ v → v ≠ [] → lineAfter start u = true →
      found? source (v ++ x) = none) :
    foundFrom source start (w ++ x) = foundFrom source (lineAfter start w) x := by
  induction w generalizing start with
  | nil => rfl
  | cons c w ih =>
      have hnone : start = true → found? source (c :: (w ++ x)) = none :=
        h [] (c :: w) rfl (List.cons_ne_nil c w)
      rw [List.cons_append, foundFrom_cons hnone, lineAfter_cons]
      refine ih fun u v huv hne hline => h (c :: u) v (by rw [huv]; rfl) hne ?_
      rwa [lineAfter_cons]

theorem IsHead.blank_or_mem (h : IsHead isType w) :
    ∀ c ∈ w, isBlank c = true ∨ c ∈ "import type".toList := by
  obtain ⟨gap, typeGap, ⟨-, hgap⟩, htypeGap, -, rfl⟩ := h
  intro c hc
  simp only [List.mem_append] at hc
  rcases hc with (hc | hc) | hc
  · exact .inr ((List.prefix_append "import".toList " type").subset hc)
  · exact .inl (hgap c hc)
  · cases typeGap with
    | none => cases hc
    | some g =>
        rcases List.mem_append.1 hc with hc | hc
        · exact .inr ((List.suffix_append "import ".toList "type").subset hc)
        · exact .inl ((htypeGap g rfl).2 c hc)

theorem IsHead.not_mem (h : IsHead isType w) {c : Char} (hc : c ∈ ['{', '}', '\'', '"']) :
    c ∉ w := by
  intro hmem
  have hcases := h.blank_or_mem c hmem
  simp only [List.mem_cons, List.not_mem_nil, or_false] at hc
  rcases hc with rfl | rfl | rfl | rfl <;> exact absurd hcases (by decide)

theorem IsHead.not_mem_of_isQuote (h : IsHead isType w) {c : Char} (hc : Shape.isQuote c = true) :
    c ∉ w := by
  simp only [Shape.isQuote, Bool.or_eq_true, beq_iff_eq] at hc
  rcases hc with rfl | rfl <;> exact h.not_mem (by decide)

theorem IsClause.not_mem (h : IsClause source w) {c : Char} (hc : c ∈ ['{', '}'])
    (hsource : c ∉ source) : c ∉ w := by
  obtain ⟨fromGap, quoteGap, q, r, hfromGap, hquoteGap, hq, hr, rfl⟩ := h
  have hblank : isBlank c = false ∧ c ∉ "from".toList ∧ Shape.isQuote c = false := by
    simp only [List.mem_cons, List.not_mem_nil, or_false] at hc
    rcases hc with rfl | rfl <;> decide
  obtain ⟨hblank, hfrom, hquote⟩ := hblank
  simp only [List.mem_append, List.mem_cons, List.not_mem_nil, or_false, not_or]
  refine ⟨⟨⟨⟨fun h => ?_, hfrom⟩, fun h => ?_⟩, ?_, hsource⟩, ?_⟩
  · exact absurd (hfromGap c h) (by simp [hblank])
  · exact absurd (hquoteGap c h) (by simp [hblank])
  · rintro rfl
    exact absurd hq (by simp [hquote])
  · rintro rfl
    exact absurd hr (by simp [hquote])

theorem IsClause.head?_ne {a v : Text} (h : IsClause source (a ++ v)) (hsource : '\n' ∉ source)
    (ha : beginsLine a.getLast? = true) : v.head? ≠ some 'i' := by
  obtain ⟨fromGap, quoteGap, q, r, hfromGap, hquoteGap, hq, hr, hav⟩ := h
  intro hv
  obtain ⟨v, rfl⟩ := List.head?_eq_some_iff.1 hv
  have hletter : 'i' ∉ fromGap ++ "from" ++ quoteGap := by
    simp only [List.mem_append, not_or]
    refine ⟨⟨fun h => absurd (hfromGap _ h) (by decide), by decide⟩, fun h => ?_⟩
    exact absurd (hquoteGap _ h) (by decide)
  generalize fromGap ++ "from" ++ quoteGap = words at hav hletter
  have hmodule : '\n' ∉ q :: source ++ [r] := by
    simp only [List.mem_append, List.mem_cons, List.not_mem_nil, or_false, not_or]
    refine ⟨⟨?_, hsource⟩, ?_⟩
    · rintro rfl
      cases hq
    · rintro rfl
      cases hr
  rw [List.append_assoc] at hav
  -- The letter is in the module, and so the line would begin after its quote.
  rcases List.append_eq_append_iff.1 hav with ⟨b, hwords, hrest⟩ | ⟨b, rfl, hrest⟩
  · cases b with
    | nil =>
        obtain ⟨rfl, -⟩ := List.cons.inj hrest
        cases hq
    | cons d b =>
        obtain ⟨rfl, -⟩ := List.cons.inj hrest
        exact hletter (by simp [hwords])
  · by_cases hb : b = []
    · rw [hb, List.nil_append] at hrest
      obtain ⟨rfl, -⟩ := List.cons.inj hrest
      cases hq
    · rw [List.getLast?_append_of_ne_nil _ hb] at ha
      obtain ⟨u, rfl⟩ := eq_concat_of_beginsLine ha hb
      exact hmodule (by
        rw [List.cons_append] at hrest ⊢
        rw [hrest]
        simp)

theorem IsClause.lineAfter_eq_false (h : IsClause source w) (start : Bool) (u : Text) :
    lineAfter start (u ++ w) = false := by
  obtain ⟨fromGap, quoteGap, q, r, -, -, -, hr, rfl⟩ := h
  rw [lineAfter, if_neg (by simp), endsLine, ← List.append_assoc, List.getLast?_concat]
  apply beq_eq_false_iff_ne.2
  rintro ⟨⟩
  cases hr

/-- A statement whose list is not closed. -/
def Opens (w : Text) : Prop :=
  ∃ isType head body, IsHead isType head ∧ '}' ∉ body ∧ w = head ++ '{' :: body

/-- A statement that begins in the first part of a text, which has a quote and closes the list,
may only end its clause in the second part. -/
theorem exists_reading_above (hquoted : ∃ c ∈ w, Shape.isQuote c = true) (hclosed : ¬Opens w)
    (h : found? source (w ++ x) = some f) : ∃ head body b clause, IsHead f.isType head ∧
      '}' ∉ body ∧ IsClause source clause ∧ w = head ++ '{' :: body ++ '}' :: b ∧
      b ++ x = clause ++ f.rest := by
  obtain ⟨head, body, clause, hhead, hbody, hclause, hlist, htail, hwhole⟩ := exists_reading h
  have hsplit : w ++ x = (head ++ '{' :: body) ++ '}' :: (clause ++ f.rest) := by
    rw [hwhole, htail, hlist]
    simp
  rcases List.append_eq_append_iff.1 hsplit with ⟨a, hw, -⟩ | ⟨a, hw, hx⟩
  · -- The list is not closed in the first part: it is not even opened there, or it is open.
    obtain ⟨c, hc, hquote⟩ := hquoted
    have hcut : c ∉ head := hhead.not_mem_of_isQuote hquote
    rcases List.append_eq_append_iff.1 hw with ⟨b, rfl, hb⟩ | ⟨b, rfl, -⟩
    · cases b with
      | nil => exact absurd (by simpa using hc) hcut
      | cons d b =>
          obtain ⟨rfl, rfl⟩ := List.cons.inj hb
          exact absurd ⟨_, head, b, hhead, fun h => hbody (List.mem_append_left a h), rfl⟩ hclosed
    · exact absurd (List.mem_append_left b hc) hcut
  · cases a with
    | nil =>
        rw [List.append_nil] at hw
        exact absurd ⟨_, head, body, hhead, hbody, hw⟩ hclosed
    | cons d b =>
        obtain ⟨rfl, hrest⟩ := List.cons.inj hx
        exact ⟨head, body, b, clause, hhead, hbody, hclause, hw, hrest.symm⟩

/-- A text parted at a place over which no statement for the module goes. The lines above have each
a quote in them or further down, no list is open at the place, and no clause ends after it. -/
structure Parted (source : Text) (start : Bool) (w x : Text) : Prop where
  quoted : ∀ u v, w = u ++ v → v ≠ [] → lineAfter start u = true → ∃ c ∈ v, Shape.isQuote c = true
  closed : ∀ u v, w = u ++ v → lineAfter start u = true → ¬Opens v
  apart : ∀ a v z, a <:+ w → x = v ++ z → IsClause source (a ++ v) → v = []

namespace Parted

variable {u v : Text}

theorem below (h : Parted source start (u ++ v) x) : Parted source (lineAfter start u) v x := by
  refine ⟨fun a b hab hne hline => ?_, fun a b hab hline => ?_, fun a b z ha => ?_⟩
  · rw [← lineAfter_append] at hline
    exact h.quoted (u ++ a) b (by rw [hab, List.append_assoc]) hne hline
  · rw [← lineAfter_append] at hline
    exact h.closed (u ++ a) b (by rw [hab, List.append_assoc]) hline
  · exact h.apart a b z (ha.trans (List.suffix_append u v))

theorem exists_clause {b clause rest : Text} (h : Parted source start w x) (hb : b <:+ w)
    (hclause : IsClause source clause) (hx : b ++ x = clause ++ rest) :
    ∃ b', b = clause ++ b' ∧ rest = b' ++ x := by
  rcases List.append_eq_append_iff.1 hx with ⟨a, rfl, hbelow⟩ | ⟨a, rfl, hrest⟩
  · obtain rfl := h.apart b a rest hb hbelow hclause
    exact ⟨[], by simp, hbelow.symm⟩
  · exact ⟨a, rfl, hrest⟩

/-- A statement that begins above the place ends there, and it is the same one whatever stands
below. -/
theorem exists_statement (h : Parted source true w x) (hw : w ≠ [])
    (hf : found? source (w ++ x) = some f) : ∃ s b, w = s ++ b ∧ s ≠ [] ∧
      lineAfter true s = false ∧ f.rest = b ++ x ∧ ∀ z, ∃ g, found? source (s ++ z) = some g ∧
        g.isType = f.isType ∧ g.rest = z := by
  obtain ⟨head, body, b, clause, hhead, hbody, hclause, hwhole, hb⟩ :=
    exists_reading_above (h.quoted [] w rfl hw rfl) (h.closed [] w rfl rfl) hf
  have hsuffix : b <:+ w := ⟨head ++ '{' :: body ++ ['}'], by simp [hwhole]⟩
  obtain ⟨b, rfl, hrest⟩ := h.exists_clause hsuffix hclause hb
  refine ⟨head ++ '{' :: body ++ '}' :: clause, b, by simp [hwhole], by simp, ?_, hrest, ?_⟩
  · rw [List.append_cons]
    exact hclause.lineAfter_eq_false true _
  · exact fun z => ⟨_, found?_reading hhead hbody hclause z, rfl, rfl⟩

theorem misses (h : Parted source true w x) (hsource : '}' ∉ source) (hw : w ≠ [])
    (hx : found? source (w ++ x) = none) (hz : found? source (w ++ z) = some f) :
    ∀ u v, w = u ++ v → v ≠ [] → lineAfter true u = true → found? source (v ++ x) = none := by
  obtain ⟨head, body, b, clause, hhead, hbody, hclause, hwhole, hb⟩ :=
    exists_reading_above (h.quoted [] w rfl hw rfl) (h.closed [] w rfl rfl) hz
  have hsuffix : b <:+ w := ⟨head ++ '{' :: body ++ ['}'], by simp [hwhole]⟩
  -- What is read after the list is not a clause, so the list's brace is the last one.
  have hends : ∀ c b', b = c ++ b' → ¬IsClause source c := by
    rintro c b' rfl hc
    have hread := found?_reading hhead hbody hc (b' ++ x)
    rw [hwhole] at hx
    simp only [List.append_assoc, List.cons_append] at hread hx
    rw [hx] at hread
    cases hread
  have hbrace : '}' ∉ b := by
    rcases List.append_eq_append_iff.1 hb with ⟨a, rfl, -⟩ | ⟨a, hba, -⟩
    · exact fun hmem => hclause.not_mem (by decide) hsource (List.mem_append_left a hmem)
    · exact absurd hclause (hends clause a hba)
  intro u v huv hv hline
  have hbelow : Parted source (lineAfter true u) v x := Parted.below (huv ▸ h)
  rw [hline] at hbelow
  by_contra hsome
  obtain ⟨g, hg⟩ := Option.ne_none_iff_exists'.1 hsome
  obtain ⟨head', body', b', clause', -, -, hclause', hv', hb'⟩ :=
    exists_reading_above (hbelow.quoted [] v rfl hv rfl) (hbelow.closed [] v rfl rfl) hg
  have hsame : (head ++ '{' :: body) ++ '}' :: b = (u ++ head' ++ '{' :: body') ++ '}' :: b' := by
    rw [← hwhole, huv, hv']
    simp
  have hopen : '}' ∉ head ++ '{' :: body := by
    rw [List.mem_append, List.mem_cons, not_or, not_or]
    exact ⟨hhead.not_mem (by decide), by decide, hbody⟩
  obtain ⟨-, -, rfl⟩ := (List.append_cons_inj_of_notMem hopen hbrace).1 hsame
  obtain ⟨c, hc, -⟩ := h.exists_clause hsuffix hclause' hb'
  exact hends clause' c hc hclause'

/-- The statements above the place are there whatever stands below it. -/
theorem exists_foundFrom (h : Parted source start w x) (hsource : '}' ∉ source) (z : Text) :
    ∃ above, foundFrom source start (w ++ x) = above ++ foundFrom source (lineAfter start w) x ∧
      ∀ f ∈ above, ∃ g ∈ foundFrom source start (w ++ z), g.isType = f.isType := by
  -- By the length of the part above, since the search passes a statement in one step.
  induction hn : w.length using Nat.strong_induction_on generalizing start w with
  | h n ih =>
      by_cases hw : w = []
      · subst hw
        exact ⟨[], rfl, by simp⟩
      obtain ⟨c, v, rfl⟩ := List.exists_cons_of_ne_nil hw
      by_cases hfound : start = true ∧ ∃ f, found? source (c :: v ++ x) = some f
      · obtain ⟨rfl, f, hf⟩ := hfound
        obtain ⟨s, b, hsb, hs, hline, hrest, hsame⟩ := h.exists_statement hw hf
        have hbelow : Parted source (lineAfter true s) b x := Parted.below (hsb ▸ h)
        rw [hline] at hbelow
        have hlength : b.length < n := by
          have := List.length_pos_iff.2 hs
          have := congrArg List.length hsb
          simp only [List.length_append] at this
          omega
        obtain ⟨above, habove, htypes⟩ := ih b.length hlength hbelow rfl
        obtain ⟨g, hg, htype, hgrest⟩ := hsame (b ++ z)
        have hfrom : foundFrom source true (c :: v ++ z) = g :: foundFrom source false (b ++ z) := by
          rw [hsb, List.append_assoc, foundFrom_of_found? hg, hgrest]
        refine ⟨f :: above, ?_, ?_⟩
        · rw [foundFrom_of_found? hf, hrest, habove, hsb, lineAfter_append, hline]
          rfl
        · rw [hfrom]
          intro e he
          rcases List.mem_cons.1 he with rfl | he
          · exact ⟨g, List.mem_cons_self, htype⟩
          · obtain ⟨d, hd, hde⟩ := htypes e he
            exact ⟨d, List.mem_cons_of_mem g hd, hde⟩
      · have hx : start = true → found? source (c :: (v ++ x)) = none := by
          intro hs
          by_contra hsome
          exact hfound ⟨hs, Option.ne_none_iff_exists'.1 hsome⟩
        by_cases hz : start = true ∧ ∃ f, found? source (c :: v ++ z) = some f
        · obtain ⟨rfl, f, hf⟩ := hz
          refine ⟨[], ?_, by simp⟩
          rw [List.nil_append]
          exact foundFrom_of_misses (h.misses hsource hw (hx rfl) hf)
        · have hnone : start = true → found? source (c :: (v ++ z)) = none := by
            intro hs
            by_contra hsome
            exact hz ⟨hs, Option.ne_none_iff_exists'.1 hsome⟩
          have hbelow : Parted source (lineAfter start [c]) v x := Parted.below (u := [c]) h
          rw [lineAfter_cons] at hbelow
          obtain ⟨above, habove, htypes⟩ := ih v.length (by simp [← hn]) hbelow rfl
          refine ⟨above, ?_, ?_⟩
          · rw [List.cons_append, foundFrom_cons hx, lineAfter_cons]
            exact habove
          · rw [List.cons_append, foundFrom_cons hnone]
            exact htypes

end Parted

end Scaffold.Import
