import Scaffold.Proofs.Name.Parts

namespace Scaffold

namespace Text

variable {sep : Char} {t s : Text} {as bs : List Text}

theorem eq_of_splitOn (h : List.splitOn sep t = as ++ s :: bs) :
    t = as.flatMap (· ++ [sep]) ++ s ++ bs.flatMap (sep :: ·) := by
  have hjoin : List.intercalate [sep] (List.splitOn sep t) = t := List.intercalate_splitOn sep
  rw [← intercalate_concat, ← hjoin, h]
  exact intercalate_append_cons [sep] as s bs

theorem exists_piece_of_mem {c : Char} (hc : c ∈ t) (hne : c ≠ sep) :
    ∃ s ∈ List.splitOn sep t, c ∈ s := by
  have hsep : sep ∉ [c] := by simpa using hne.symm
  obtain ⟨s, hs, hin⟩ := exists_mem_splitOn ((List.singleton_infix_iff c t).2 hc) hsep
  exact ⟨s, hs, hin.subset List.mem_cons_self⟩

theorem of_nil_mem_splitOn (h : [] ∈ List.splitOn sep t) :
    t = [] ∨ t.head? = some sep ∨ t.getLast? = some sep ∨ [sep, sep] <:+: t := by
  obtain ⟨as, bs, hsplit⟩ := List.append_of_mem h
  have ht := eq_of_splitOn hsplit
  rw [List.append_nil] at ht
  obtain rfl | ⟨as, a, rfl⟩ := List.eq_nil_or_concat as
  · cases bs with
    | nil => exact .inl ht
    | cons b bs => exact .inr (.inl (by rw [ht]; rfl))
  · rw [List.concat_eq_append, List.flatMap_append, List.flatMap_singleton] at ht
    cases bs with
    | nil => exact .inr (.inr (.inl (by rw [ht]; simp)))
    | cons b bs =>
        refine .inr (.inr (.inr ⟨as.flatMap (· ++ [sep]) ++ a, b ++ bs.flatMap (sep :: ·), ?_⟩))
        rw [ht, List.flatMap_cons]
        simp

theorem nil_mem_splitOn (h : t.head? = some sep ∨ t.getLast? = some sep ∨ [sep, sep] <:+: t) :
    [] ∈ List.splitOn sep t := by
  rcases h with h | h | ⟨u, v, rfl⟩
  · obtain ⟨v, rfl⟩ := List.head?_eq_some_iff.1 h
    rw [splitOn_cons_self]
    exact List.mem_cons_self
  · obtain ⟨u, rfl⟩ := List.getLast?_eq_some_iff.1 h
    rw [List.splitOn_append_cons_self]
    exact List.mem_append_right _ List.mem_cons_self
  · rw [List.append_assoc, List.cons_append, List.splitOn_append_cons_self, List.singleton_append,
      splitOn_cons_self]
    exact List.mem_append_right _ List.mem_cons_self

end Text

open Text

namespace Casing

variable {t s : Text} {e : NameError}

def FirstOffending (t s : Text) : Prop :=
  ∃ u v, t = u ++ s ++ v ∧ (∀ c ∈ u, isLowerOrDigit c = true ∨ c = '-') ∧
    (u = [] ∨ u.getLast? = some '-') ∧ (v = [] ∨ v.head? = some '-') ∧
    '-' ∉ s ∧ ∃ c ∈ s, isLowerOrDigit c = false

theorem exists_splitOn_append (hs : '-' ∉ s) {v : Text} (hv : v = [] ∨ v.head? = some '-') :
    ∃ bs, List.splitOn '-' (s ++ v) = s :: bs := by
  rcases hv with rfl | hv
  · exact ⟨[], by rw [List.append_nil, List.splitOn_eq_singleton hs]⟩
  · obtain ⟨v, rfl⟩ := List.head?_eq_some_iff.1 hv
    exact ⟨List.splitOn '-' v, List.splitOn_append_cons_self_of_not_mem hs v⟩

theorem find?_splitOn_iff :
    (List.splitOn '-' t).find? (!·.all isLowerOrDigit) = some s ↔ FirstOffending t s := by
  have hoffends : ∀ s : Text, (!s.all isLowerOrDigit) = true ↔ ∃ c ∈ s, isLowerOrDigit c = false := by
    simp
  rw [List.find?_eq_some_iff_append, hoffends]
  constructor
  · rintro ⟨hbad, as, bs, hsplit, hgood⟩
    have hhyphen : '-' ∉ s := not_mem_of_mem_splitOn (t := t) (by rw [hsplit]; simp)
    refine ⟨as.flatMap (· ++ ['-']), bs.flatMap ('-' :: ·), eq_of_splitOn hsplit, ?_, ?_, ?_, hhyphen,
      hbad⟩
    · intro c hc
      obtain ⟨a, ha, hc⟩ := List.mem_flatMap.1 hc
      rcases List.mem_append.1 hc with hc | hc
      · have hall := hgood a ha
        rw [Bool.not_not, List.all_eq_true] at hall
        exact .inl (hall c hc)
      · exact .inr (List.mem_singleton.1 hc)
    · obtain rfl | ⟨as, a, rfl⟩ := List.eq_nil_or_concat as
      · exact .inl rfl
      · exact .inr (by simp)
    · cases bs with
      | nil => exact .inl rfl
      | cons b bs => exact .inr rfl
  · rintro ⟨u, v, rfl, hu, hleft, hright, hhyphen, hbad⟩
    obtain ⟨bs, hbs⟩ := exists_splitOn_append hhyphen hright
    refine ⟨hbad, ?_⟩
    rcases hleft with rfl | hleft
    · exact ⟨[], bs, by rw [List.nil_append, hbs, List.nil_append], fun a ha => nomatch ha⟩
    · obtain ⟨u, rfl⟩ := List.getLast?_eq_some_iff.1 hleft
      refine ⟨List.splitOn '-' u, bs, ?_, fun a ha => ?_⟩
      · rw [List.append_assoc, List.append_assoc, List.singleton_append,
          List.splitOn_append_cons_self, hbs]
      · rw [Bool.not_not, List.all_eq_true]
        intro c hc
        have hcu := (isInfix_of_mem_splitOn ha).subset hc
        refine (hu c (List.mem_append_left _ hcu)).resolve_right ?_
        rintro rfl
        exact not_mem_of_mem_splitOn ha hc

theorem find?_segments : (segments t).find? (!·.all isLowerOrDigit) =
    (List.splitOn '-' t).find? (!·.all isLowerOrDigit) := by
  have hempty : ∀ s : Text, decide ((!s.isEmpty) = true ∧ (!s.all isLowerOrDigit) = true) =
      !s.all isLowerOrDigit := by
    intro s
    cases s with
    | nil => rfl
    | cons c s => simp only [List.isEmpty_cons, Bool.not_false, true_and, Bool.decide_eq_true]
  rw [segments, List.find?_filter]
  exact congrArg (List.find? · _) (funext hempty)

theorem segments_eq_nil_iff : segments t = [] ↔ ∀ c ∈ t, c = '-' := by
  rw [segments, List.filter_eq_nil_iff]
  constructor
  · intro h c hc
    by_contra hne
    obtain ⟨s, hs, hcs⟩ := exists_piece_of_mem hc hne
    have hnil : s = [] := by simpa using h s hs
    rw [hnil] at hcs
    cases hcs
  · intro h s hs
    cases s with
    | nil => simp
    | cons c s =>
        have hc := h c ((isInfix_of_mem_splitOn hs).subset List.mem_cons_self)
        exact absurd (by rw [hc]; exact List.mem_cons_self) (not_mem_of_mem_splitOn hs)

theorem find?_splitOn_eq_none_iff : (List.splitOn '-' t).find? (!·.all isLowerOrDigit) = none ↔
    ∀ c ∈ t, isLowerOrDigit c = true ∨ c = '-' := by
  rw [List.find?_eq_none]
  constructor
  · intro h c hc
    by_cases hhyphen : c = '-'
    · exact .inr hhyphen
    · obtain ⟨s, hs, hcs⟩ := exists_piece_of_mem hc hhyphen
      have hall := h s hs
      rw [Bool.not_eq_true, Bool.not_eq_false', List.all_eq_true] at hall
      exact .inl (hall c hcs)
  · intro h s hs
    rw [Bool.not_eq_true, Bool.not_eq_false', List.all_eq_true]
    intro c hc
    refine (h c ((isInfix_of_mem_splitOn hs).subset hc)).resolve_right ?_
    rintro rfl
    exact not_mem_of_mem_splitOn hs hc

theorem FirstOffending.not_hyphens (h : FirstOffending t s) : ¬∀ c ∈ t, c = '-' := by
  obtain ⟨u, v, rfl, -, -, -, hhyphen, c, hc, -⟩ := h
  intro hall
  have hc' := hall c (by simp [hc])
  exact hhyphen (hc' ▸ hc)

theorem checkSegments_eq_error_iff : checkSegments t = .error e ↔
    (e = .noSegments t ∧ ∀ c ∈ t, c = '-') ∨ ∃ s, e = .segment t s ∧ FirstOffending t s := by
  rw [checkSegments]
  split
  · next hnil =>
      rw [segments_eq_nil_iff] at hnil
      constructor
      · intro h
        cases h
        exact .inl ⟨rfl, hnil⟩
      · rintro (⟨rfl, -⟩ | ⟨s, -, hs⟩)
        · rfl
        · exact absurd hnil hs.not_hyphens
  · next hsome =>
      rw [segments_eq_nil_iff] at hsome
      rw [find?_segments]
      constructor
      · intro h
        split at h
        · next s hs =>
            cases h
            exact .inr ⟨s, rfl, find?_splitOn_iff.1 hs⟩
        · cases h
      · rintro (⟨-, hall⟩ | ⟨s, rfl, hs⟩)
        · exact absurd hall hsome
        · rw [find?_splitOn_iff.2 hs]

theorem checkSegments_eq_ok_iff : checkSegments t = .ok () ↔
    (∀ c ∈ t, isLowerOrDigit c = true ∨ c = '-') ∧ ∃ c ∈ t, c ≠ '-' := by
  rw [← find?_splitOn_eq_none_iff, ← find?_segments, checkSegments]
  have hsome : (∃ c ∈ t, c ≠ '-') ↔ segments t ≠ [] := by
    rw [Ne, segments_eq_nil_iff]
    push Not
    rfl
  rw [hsome]
  split
  · next hnil => exact ⟨fun h => (nomatch h), fun h => absurd hnil h.2⟩
  · next hsegments =>
      split
      · next hbad => exact ⟨fun h => (nomatch h), fun h => (nomatch hbad.symm.trans h.1)⟩
      · next hnone => exact ⟨fun _ => ⟨hnone, hsegments⟩, fun _ => rfl⟩

theorem pascalCase_and_camelCase {f : Text → Except NameError Text} (hf : f ∈ [pascalCase, camelCase])
    (t : Text) : ((∃ u, f t = .ok u) ↔ checkSegments t = .ok ()) ∧
      ∀ e, f t = .error e ↔ checkSegments t = .error e := by
  have hmap : ∀ form : Text → Text, f t = (checkSegments t).map (fun _ => form t) →
      ((∃ u, f t = .ok u) ↔ checkSegments t = .ok ()) ∧
        ∀ e, f t = .error e ↔ checkSegments t = .error e := by
    intro form h
    rw [h]
    cases checkSegments t with
    | ok u => exact ⟨⟨fun _ => rfl, fun _ => ⟨form t, rfl⟩⟩, fun e => ⟨(nomatch ·), (nomatch ·)⟩⟩
    | error d =>
        refine ⟨⟨fun ⟨_, h⟩ => (nomatch h), (nomatch ·)⟩, fun e => ?_⟩
        rw [Except.map, Except.error.injEq, Except.error.injEq]
  simp only [List.mem_cons, List.not_mem_nil, or_false] at hf
  rcases hf with rfl | rfl
  · exact hmap pascal rfl
  · exact hmap camel rfl

end Casing

namespace Name

variable {t : Text} {e : NameError}

/-- Words of lower case letters and digits between single hyphens, the first of which begins with a
letter. -/
def IsHyphenated (t : Text) : Prop :=
  ∃ w ws, t = List.intercalate "-" (w :: ws) ∧ (∃ c, w.head? = some c ∧ c.isLower = true) ∧
    ∀ v ∈ w :: ws, v ≠ [] ∧ ∀ c ∈ v, Casing.isLowerOrDigit c = true

inductive Rule where
  | nonempty | noBlank | shape | singleHyphens | innerHyphens | unreserved | unshadowed
deriving DecidableEq, Repr

namespace Rule

def all : List Rule :=
  [nonempty, noBlank, shape, singleHyphens, innerHyphens, unreserved, unshadowed]

def Holds (t : Text) : Rule → Prop
  | nonempty => t ≠ []
  | noBlank => ∀ c ∈ t, isBlank c = false
  | shape => (∃ c ∈ t.head?, c.isLower = true) ∧ ∀ c ∈ t, Casing.isLowerOrDigit c = true ∨ c = '-'
  | singleHyphens => ¬"--".toList <:+: t
  | innerHyphens => t.head? ≠ some '-' ∧ t.getLast? ≠ some '-'
  | unreserved => t ∉ reservedWords
  | unshadowed => Casing.pascal t ∉ importedNames

instance (t : Text) : (r : Rule) → Decidable (r.Holds t)
  | nonempty => inferInstanceAs (Decidable (t ≠ []))
  | noBlank => inferInstanceAs (Decidable (∀ c ∈ t, isBlank c = false))
  | shape => inferInstanceAs (Decidable ((∃ c ∈ t.head?, c.isLower = true) ∧
      ∀ c ∈ t, Casing.isLowerOrDigit c = true ∨ c = '-'))
  | singleHyphens => inferInstanceAs (Decidable (¬"--".toList <:+: t))
  | innerHyphens => inferInstanceAs (Decidable (t.head? ≠ some '-' ∧ t.getLast? ≠ some '-'))
  | unreserved => inferInstanceAs (Decidable (t ∉ reservedWords))
  | unshadowed => inferInstanceAs (Decidable (Casing.pascal t ∉ importedNames))

def error (t : Text) : Rule → NameError
  | nonempty => .empty
  | noBlank => .blank t
  | shape => .shape t
  | singleHyphens => .doubleHyphen t
  | innerHyphens => .edgeHyphen t
  | unreserved => .reserved t
  | unshadowed => .shadowsImport t (Casing.pascal t)

end Rule

def broken? (t : Text) (rules : List Rule) : Option Rule := rules.find? fun r => ¬r.Holds t

def verdict (t : Text) (rules : List Rule) : Except NameError Unit :=
  match broken? t rules with
  | none => .ok ()
  | some r => .error (r.error t)

theorem isShaped_iff : isShaped t = true ↔ Rule.shape.Holds t := by
  rw [Rule.Holds]
  cases t with
  | nil => exact ⟨fun h => (nomatch h), fun ⟨⟨_, h, _⟩, _⟩ => (nomatch h)⟩
  | cons c t =>
      simp only [isShaped, Bool.and_eq_true, List.all_eq_true, Bool.or_eq_true, beq_iff_eq,
        List.head?_cons, Option.mem_some, exists_eq_left', List.forall_mem_cons]
      constructor
      · rintro ⟨hc, ht⟩
        exact ⟨hc, .inl (by rw [Casing.isLowerOrDigit, hc, Bool.true_or]), ht⟩
      · rintro ⟨hc, -, ht⟩
        exact ⟨hc, ht⟩

theorem checkSegments_of_shape (h : Rule.shape.Holds t) : Casing.checkSegments t = .ok () := by
  obtain ⟨⟨c, hc, hlower⟩, hall⟩ := h
  refine Casing.checkSegments_eq_ok_iff.2 ⟨hall, c, List.mem_of_mem_head? hc, ?_⟩
  rintro rfl
  exact absurd hlower (by decide)

theorem verdict_cons {r : Rule} {rules : List Rule} {p : Prop} [Decidable p]
    {rest : Except NameError Unit} (hp : p ↔ ¬r.Holds t)
    (hrest : r.Holds t → rest = verdict t rules) :
    (if p then .error (r.error t) else rest) = verdict t (r :: rules) := by
  rw [verdict, broken?, List.find?_cons]
  by_cases h : r.Holds t
  · rw [if_neg (fun hp' => hp.1 hp' h), hrest h, verdict, broken?]
    simp only [h, not_true_eq_false, decide_false]
  · rw [if_pos (hp.2 h)]
    simp only [h, not_false_eq_true, decide_true]

/-- A text is refused for the first rule that it breaks, and accepted if it breaks none. -/
theorem check_eq_verdict (t : Text) : check t = verdict t Rule.all := by
  have hnonempty : t.isEmpty = true ↔ ¬Rule.nonempty.Holds t := by simp [Rule.Holds]
  have hblank : t.any isBlank = true ↔ ¬Rule.noBlank.Holds t := by simp [Rule.Holds]
  have hshape : (!isShaped t) = true ↔ ¬Rule.shape.Holds t := by
    rw [← isShaped_iff, Bool.not_eq_true', Bool.not_eq_true]
  have hsingle : Text.contains "--" t = true ↔ ¬Rule.singleHyphens.Holds t := by
    rw [contains_iff, Rule.Holds, not_not]
  have hinner : (t.head? == some '-' || t.getLast? == some '-') = true ↔
      ¬Rule.innerHyphens.Holds t := by
    rw [Bool.or_eq_true, beq_iff_eq, beq_iff_eq, Rule.Holds, not_and_or, not_not, not_not]
  have hreserved : t ∈ reservedWords ↔ ¬Rule.unreserved.Holds t := by rw [Rule.Holds, not_not]
  have hshadow : Casing.pascal t ∈ importedNames ↔ ¬Rule.unshadowed.Holds t := by
    rw [Rule.Holds, not_not]
  refine verdict_cons hnonempty fun _ => verdict_cons hblank fun _ => verdict_cons hshape fun h => ?_
  refine verdict_cons hsingle fun _ => verdict_cons hinner fun _ =>
    verdict_cons hreserved fun _ => ?_
  -- By now the forms of the text cannot fail.
  rw [Casing.pascalCase, Casing.camelCase, checkSegments_of_shape h]
  exact verdict_cons hshadow fun _ => rfl

theorem parse_eq_ok_iff : (∃ n, parse t = .ok n) ↔ check t = .ok () := by
  constructor
  · rintro ⟨n, hn⟩
    rw [← kebab_of_parse hn]
    exact n.accepted
  · intro h
    exact ⟨⟨t, h⟩, parse_eq h⟩

theorem parse_eq_error_iff : parse t = .error e ↔ check t = .error e := by
  unfold parse
  split
  · next d hd => rw [hd, Except.error.injEq, Except.error.injEq]
  · next hok => exact ⟨(nomatch ·), fun h => (nomatch hok.symm.trans h)⟩

theorem verdict_eq_error_iff {rules : List Rule} : verdict t rules = .error e ↔
    ∃ r, broken? t rules = some r ∧ e = r.error t := by
  rw [verdict]
  cases broken? t rules with
  | none => exact ⟨(nomatch ·), fun ⟨_, h, _⟩ => (nomatch h)⟩
  | some r =>
      simp only [Except.error.injEq, Option.some.injEq, exists_eq_left']
      exact eq_comm

theorem check_eq_ok_iff : check t = .ok () ↔ ∀ r, Rule.Holds t r := by
  have hnone : check t = .ok () ↔ broken? t Rule.all = none := by
    rw [check_eq_verdict, verdict]
    cases broken? t Rule.all with
    | none => exact ⟨fun _ => rfl, fun _ => rfl⟩
    | some r => exact ⟨(nomatch ·), (nomatch ·)⟩
  rw [hnone, broken?, List.find?_eq_none]
  constructor
  · intro h r
    have hmem : r ∈ Rule.all := by cases r <;> decide
    simpa using h r hmem
  · intro h r _
    simpa using h r

theorem isBlank_of_isLowerOrDigit {c : Char} (h : Casing.isLowerOrDigit c = true ∨ c = '-') :
    isBlank c = false := by
  rcases h with h | rfl
  · have hplain : isPlain c = true := by
      rw [isPlain, ← Char.isAlphanum, isAlphanum_of_isLowerOrDigit h]
      rfl
    obtain ⟨hlow, hhigh, -⟩ := toNat_of_isPlain hplain
    exact isBlank_of_visible hlow (by omega)
  · decide

theorem isHyphenated_iff : IsHyphenated t ↔ Rule.shape.Holds t ∧ [] ∉ List.splitOn '-' t := by
  constructor
  · rintro ⟨w, ws, rfl, ⟨c, hc, hlower⟩, hws⟩
    have hhyphen : ∀ v ∈ w :: ws, '-' ∉ v := fun v hv hmem =>
      ne_hyphen_of_isLowerOrDigit ((hws v hv).2 _ hmem) rfl
    have hpieces : List.splitOn '-' (List.intercalate "-" (w :: ws)) = w :: ws :=
      List.splitOn_intercalate '-' hhyphen (List.cons_ne_nil w ws)
    refine ⟨⟨⟨c, ?_, hlower⟩, fun d hd => ?_⟩, fun hnil => ?_⟩
    · obtain ⟨w, rfl⟩ := List.head?_eq_some_iff.1 hc
      cases ws with
      | nil => rfl
      | cons v ws => rfl
    · rcases mem_intercalate hd with hd | ⟨v, hv, hd⟩
      · exact .inr (List.mem_singleton.1 hd)
      · exact .inl ((hws v hv).2 d hd)
    · rw [hpieces] at hnil
      exact (hws [] hnil).1 rfl
  · rintro ⟨⟨⟨c, hc, hlower⟩, hall⟩, hnil⟩
    obtain ⟨t, rfl⟩ := List.head?_eq_some_iff.1 hc
    have hhyphen : c ≠ '-' := by
      rintro rfl
      exact absurd hlower (by decide)
    obtain ⟨s, ss, hpieces⟩ : ∃ s ss, List.splitOn '-' (c :: t) = (c :: s) :: ss := by
      obtain ⟨s, ss, -, hsplit⟩ :=
        splitOn_append_of_not_mem (m := [c]) (by simpa using Ne.symm hhyphen) t
      exact ⟨s, ss, hsplit⟩
    refine ⟨c :: s, ss, ?_, ⟨c, rfl, hlower⟩, fun v hv => ⟨?_, fun d hd => ?_⟩⟩
    · rw [← hpieces]
      exact (List.intercalate_splitOn '-').symm
    · rintro rfl
      exact hnil (hpieces ▸ hv)
    · have hv' : v ∈ List.splitOn '-' (c :: t) := hpieces ▸ hv
      refine (hall d ((isInfix_of_mem_splitOn hv').subset hd)).resolve_right ?_
      rintro rfl
      exact not_mem_of_mem_splitOn hv' hd

theorem isHyphenated_iff_rules : IsHyphenated t ↔
    ∀ r ∈ [Rule.nonempty, .noBlank, .shape, .singleHyphens, .innerHyphens], r.Holds t := by
  rw [isHyphenated_iff]
  simp only [List.forall_mem_cons]
  constructor
  · rintro ⟨hshape, hnil⟩
    refine ⟨?_, fun c hc => isBlank_of_isLowerOrDigit (hshape.2 c hc), hshape, ?_, ?_⟩
    · rintro rfl
      exact hnil List.mem_cons_self
    · exact fun h => hnil (nil_mem_splitOn (.inr (.inr h)))
    · exact ⟨⟨fun h => hnil (nil_mem_splitOn (.inl h)),
        fun h => hnil (nil_mem_splitOn (.inr (.inl h)))⟩, fun _ h => (nomatch h)⟩
  · rintro ⟨hne, -, hshape, hsingle, ⟨hhead, hlast⟩, -⟩
    refine ⟨hshape, fun hnil => ?_⟩
    rcases of_nil_mem_splitOn hnil with h | h | h | h
    · exact hne h
    · exact hhead h
    · exact hlast h
    · exact hsingle h

/-- A name is what is hyphenated, not reserved, and in one word not what generated modules import. Any
other text is refused for the first rule that it breaks. The forms in one word exist where there is a
word and all words are lower case letters and digits, and else tell what is missing. -/
theorem parse_follows_grammar (t : Text) :
    ((∃ n, parse t = .ok n) ↔
      IsHyphenated t ∧ t ∉ reservedWords ∧ Casing.pascal t ∉ importedNames) ∧
    (∀ e, parse t = .error e ↔
      ∃ r, (Rule.all.find? fun r => ¬r.Holds t) = some r ∧ e = r.error t) ∧
    (∀ u s, parse t ≠ .error (.noSegments u) ∧ parse t ≠ .error (.segment u s)) ∧
    ∀ f ∈ [Casing.pascalCase, Casing.camelCase],
      ((∃ u, f t = .ok u) ↔
        (∀ c ∈ t, Casing.isLowerOrDigit c = true ∨ c = '-') ∧ ∃ c ∈ t, c ≠ '-') ∧
      ∀ e, f t = .error e ↔ (e = .noSegments t ∧ ∀ c ∈ t, c = '-') ∨
        ∃ s, e = .segment t s ∧ Casing.FirstOffending t s := by
  have herror : ∀ e, parse t = .error e ↔
      ∃ r, (Rule.all.find? fun r => ¬r.Holds t) = some r ∧ e = r.error t := by
    intro e
    rw [parse_eq_error_iff, check_eq_verdict, verdict_eq_error_iff, broken?]
  refine ⟨?_, herror, fun u s => ⟨fun h => ?_, fun h => ?_⟩, fun f hf => ?_⟩
  · rw [parse_eq_ok_iff, check_eq_ok_iff, isHyphenated_iff_rules]
    constructor
    · exact fun h => ⟨fun r _ => h r, h .unreserved, h .unshadowed⟩
    · rintro ⟨h, hreserved, hshadow⟩ r
      cases r with
      | unreserved => exact hreserved
      | unshadowed => exact hshadow
      | nonempty | noBlank | shape | singleHyphens | innerHyphens => exact h _ (by decide)
  · obtain ⟨r, -, hr⟩ := (herror _).1 h
    cases r <;> cases hr
  · obtain ⟨r, -, hr⟩ := (herror _).1 h
    cases r <;> cases hr
  · obtain ⟨hok, hfail⟩ := Casing.pascalCase_and_camelCase hf t
    exact ⟨hok.trans Casing.checkSegments_eq_ok_iff,
      fun e => (hfail e).trans Casing.checkSegments_eq_error_iff⟩

end Name

end Scaffold
