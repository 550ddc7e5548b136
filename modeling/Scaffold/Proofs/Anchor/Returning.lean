import Scaffold.Proofs.Anchor.ClassBody
import Scaffold.Proofs.Anchor.Offsets

namespace Scaffold.Brace

/-- In a run from code on, each character of the text leaves a brace open. -/
def StaysOpen (t : Text) : Prop :=
  ∀ u, u <+: t → u ≠ [] → ∃ m d, u.foldlM step (.code false, 0) = some (m, d + 1)

structure EndsWith (t inside : Text) (c : Char) : Prop where
  isPrefix : inside ++ [c] <+: t
  staysOpen : StaysOpen inside
  not_open : ∀ m d, (inside ++ [c]).foldlM step (.code false, 0) ≠ some (m, d + 1)

/-- After `inside` comes the character with which no brace is open for the first time. -/
def ReturnsAfter (t inside : Text) : Prop :=
  ∃ c m, EndsWith t inside c ∧ (inside ++ [c]).foldlM step (.code false, 0) = some (m, 0)

def Aborts (t : Text) : Prop :=
  ∃ inside c, EndsWith t inside c ∧ (inside ++ [c]).foldlM step (.code false, 0) = none

variable {m m' : Mode} {d d' : Nat} {c : Char} {t u inside rest : Text}

theorem step_succ (m : Mode) (d : Nat) (c : Char) : step (m, d + 1) c =
    match step (m, d) c with
    | some (m', d') => some (m', d' + 1)
    | none => if isCode m ∧ c = '}' then some (.code false, 0) else none := by
  cases m with
  | code slash =>
      simp only [step]
      split
      · rfl
      split
      · rfl
      split
      · rfl
      split
      · next hclose => cases d <;> simp [hclose, isCode]
      split <;> rfl
  | literal q escaped =>
      simp only [step]
      split
      · rfl
      split
      · rfl
      split
      · simp [isCode]
      split <;> rfl
  | lineComment => rfl
  | blockComment star => rfl

theorem foldlM_succ (h : t.foldlM step (m, d) = some (m', d')) :
    t.foldlM step (m, d + 1) = some (m', d' + 1) := by
  induction t generalizing m d with
  | nil => cases h; rfl
  | cons c t ih =>
      obtain ⟨⟨m₁, d₁⟩, hstep, hrest⟩ := Option.bind_eq_some_iff.1 h
      have hsucc : step (m, d + 1) c = some (m₁, d₁ + 1) := by rw [step_succ, hstep]
      rw [Text.foldlM_cons_of_eq hsucc]
      exact ih hrest

theorem staysOpen_cons_iff :
    StaysOpen ('{' :: t) ↔ ∃ m d, t.foldlM step (.code false, 0) = some (m, d) := by
  constructor
  · intro h
    induction t using List.reverseRecOn with
    | nil => exact ⟨_, _, rfl⟩
    | append_singleton t c ih =>
        obtain ⟨m, d, hread⟩ := ih fun u hu =>
          h u (hu.trans ((List.prefix_cons_inj _).2 (List.prefix_append t [c])))
        obtain ⟨m', d', hopen⟩ := h _ List.prefix_rfl (List.cons_ne_nil _ _)
        change (t ++ [c]).foldlM step (.code false, 1) = _ at hopen
        rw [Text.foldlM_concat_of_eq (foldlM_succ hread), step_succ] at hopen
        rw [Text.foldlM_concat_of_eq hread]
        split at hopen
        · next hstep => exact ⟨_, _, hstep⟩
        · split at hopen <;> cases hopen
  · rintro ⟨m, d, hread⟩ u hu hne
    obtain ⟨c, u, rfl⟩ := List.exists_cons_of_ne_nil hne
    obtain ⟨rfl, v, rfl⟩ := List.cons_prefix_cons.1 hu
    rw [List.foldlM_append] at hread
    obtain ⟨⟨m', d'⟩, hu', -⟩ := Option.bind_eq_some_iff.1 hread
    exact ⟨m', d', foldlM_succ hu'⟩

theorem EndsWith.not_staysOpen (h : EndsWith t inside c) : ¬StaysOpen t := fun hopen =>
  have ⟨m, d, hread⟩ := hopen _ h.isPrefix (by simp)
  h.not_open m d hread

theorem StaysOpen.of_prefix (h : StaysOpen t) (hu : u <+: t) : StaysOpen u :=
  fun v hv => h v (hv.trans hu)

theorem EndsWith.unique {c' : Char} {inside' : Text} (h : EndsWith t inside c)
    (h' : EndsWith t inside' c') : inside ++ [c] = inside' ++ [c'] := by
  rcases List.prefix_or_prefix_of_prefix h.isPrefix h'.isPrefix with hle | hle
  · rcases List.prefix_concat_iff.1 hle with heq | hle
    · exact heq
    · exact absurd (h'.staysOpen.of_prefix hle)
        (EndsWith.mk List.prefix_rfl h.staysOpen h.not_open).not_staysOpen
  · rcases List.prefix_concat_iff.1 hle with heq | hle
    · exact heq.symm
    · exact absurd (h.staysOpen.of_prefix hle)
        (EndsWith.mk List.prefix_rfl h'.staysOpen h'.not_open).not_staysOpen

theorem staysOpen_or_endsWith (t : Text) : StaysOpen t ∨ ∃ inside c, EndsWith t inside c := by
  induction t using List.reverseRecOn with
  | nil => exact .inl fun u hu hne => absurd (List.prefix_nil.1 hu) hne
  | append_singleton t c ih =>
      rcases ih with hopen | ⟨inside, c', hend⟩
      · by_cases hlast : ∃ m d, (t ++ [c]).foldlM step (.code false, 0) = some (m, d + 1)
        · refine .inl fun u hu hne => ?_
          rcases List.prefix_concat_iff.1 hu with rfl | hu
          · exact hlast
          · exact hopen u hu hne
        · exact .inr ⟨t, c, List.prefix_rfl, hopen, fun m d hread => hlast ⟨m, d, hread⟩⟩
      · exact .inr ⟨inside, c', hend.isPrefix.trans (List.prefix_append t [c]), hend.staysOpen,
          hend.not_open⟩

theorem ReturnsAfter.not_aborts (h : ReturnsAfter t inside) : ¬Aborts t := by
  rintro ⟨inside', c', hend', hnone⟩
  obtain ⟨c, m, hend, hsome⟩ := h
  rw [hend.unique hend', hnone] at hsome
  cases hsome

theorem returns_or_aborts_or_staysOpen (t : Text) :
    (∃ inside, ReturnsAfter t inside) ∨ Aborts t ∨ StaysOpen t := by
  rcases staysOpen_or_endsWith t with hopen | ⟨inside, c, hend⟩
  · exact .inr (.inr hopen)
  cases hread : (inside ++ [c]).foldlM step (.code false, 0) with
  | none => exact .inr (.inl ⟨inside, c, hend, hread⟩)
  | some s =>
      obtain ⟨m, d⟩ := s
      cases d with
      | zero => exact .inl ⟨inside, c, m, hend, hread⟩
      | succ d => exact absurd hread (hend.not_open m d)

theorem step_closing (slash : Bool) (d : Nat) :
    step (.code slash, d + 1) '}' = some (.code false, d) := by
  cases slash <;> rfl

/-- Only a brace in code closes the last brace that is open. -/
theorem of_step_eq_zero (h : step (m, d + 1) c = some (m', 0)) :
    ∃ slash, m = .code slash ∧ d = 0 ∧ c = '}' := by
  rw [step_succ] at h
  split at h
  · cases h
  · next hnone =>
      split at h
      · next hcode =>
          obtain ⟨hm, rfl⟩ := hcode
          cases m with
          | code slash =>
              cases d with
              | zero => exact ⟨slash, rfl, rfl, rfl⟩
              | succ d => rw [step_closing] at hnone; cases hnone
          | literal | lineComment | blockComment => cases hm
      · cases h

theorem returnsAfter_cons_iff : ReturnsAfter ('{' :: rest) inside ↔
    ∃ body tail, inside = '{' :: body ∧ rest = body ++ '}' :: tail ∧ IsBalanced body := by
  constructor
  · rintro ⟨c, m, hend, hread⟩
    cases inside with
    | nil =>
        obtain ⟨rfl, -⟩ := List.cons_prefix_cons.1 hend.isPrefix
        cases hread
    | cons d body =>
        obtain ⟨rfl, tail, rfl⟩ := List.cons_prefix_cons.1 hend.isPrefix
        obtain ⟨m₀, d₀, hbody⟩ := staysOpen_cons_iff.1 hend.staysOpen
        change (body ++ [c]).foldlM step (.code false, 1) = _ at hread
        rw [Text.foldlM_concat_of_eq (foldlM_succ hbody)] at hread
        obtain ⟨slash, rfl, rfl, rfl⟩ := of_step_eq_zero hread
        exact ⟨body, tail, rfl, List.append_cons body '}' tail |>.symm, slash, hbody⟩
  · rintro ⟨body, tail, rfl, rfl, slash, hbody⟩
    have hread : ('{' :: body ++ ['}']).foldlM step (.code false, 0) = some (.code false, 0) := by
      change (body ++ ['}']).foldlM step (.code false, 1) = _
      rw [Text.foldlM_concat_of_eq (foldlM_succ hbody), step_closing]
    refine ⟨'}', .code false, ⟨⟨tail, by simp⟩, staysOpen_cons_iff.2 ⟨_, _, hbody⟩, ?_⟩, hread⟩
    intro m d hopen
    rw [hread] at hopen
    cases hopen

/-- Brace matching finds the character with which the run returns. -/
theorem closing?_eq_some_iff_returnsAfter : closing? ('{' :: rest) = some u ↔
    ∃ inside, ReturnsAfter ('{' :: rest) inside ∧ '{' :: rest = inside ++ u := by
  rw [closing?_eq_some_iff]
  constructor
  · rintro ⟨body, tail, rfl, rfl, hbody⟩
    exact ⟨_, returnsAfter_cons_iff.2 ⟨body, tail, rfl, rfl, hbody⟩, rfl⟩
  · rintro ⟨inside, hreturns, hu⟩
    obtain ⟨body, tail, rfl, rfl, hbody⟩ := returnsAfter_cons_iff.1 hreturns
    have htail := List.append_cancel_left (List.tail_eq_of_cons_eq hu)
    exact ⟨body, tail, rfl, htail.symm, hbody⟩

theorem closing?_eq_none_iff :
    closing? ('{' :: rest) = none ↔ Aborts ('{' :: rest) ∨ StaysOpen ('{' :: rest) := by
  rw [Option.eq_none_iff_forall_ne_some]
  constructor
  · intro hnone
    rcases returns_or_aborts_or_staysOpen ('{' :: rest) with ⟨inside, hreturns⟩ | hends
    · obtain ⟨body, tail, rfl, rfl, -⟩ := returnsAfter_cons_iff.1 hreturns
      exact absurd (closing?_eq_some_iff_returnsAfter.2 ⟨_, hreturns, rfl⟩) (hnone ('}' :: tail))
    · exact hends
  · rintro hends u hsome
    obtain ⟨inside, hreturns, -⟩ := closing?_eq_some_iff_returnsAfter.1 hsome
    rcases hends with haborts | hopen
    · exact hreturns.not_aborts haborts
    · obtain ⟨c, m, hend, -⟩ := hreturns
      exact hend.not_staysOpen hopen

theorem scan_opening (before rest : Text) :
    scan (before ++ '{' :: rest) 0 (Text.bytes before) = .ok ((closing? ('{' :: rest)).map fun r =>
      Text.bytes (before ++ '{' :: rest) - Text.bytes r) := by
  have h := @scan_eq 0 _ _ (List.suffix_append before ('{' :: rest))
  rwa [Text.bytes_append, Nat.add_sub_cancel, ← Text.bytes_append] at h

theorem scan_of_isBalanced {body : Text} (hbody : IsBalanced body) (before tail : Text) :
    scan (before ++ ('{' :: body ++ '}' :: tail)) 0 (Text.bytes before) =
      .ok (some (Text.bytes before + Text.bytes ('{' :: body))) := by
  have hclosing := closing?_eq_some_iff.2 ⟨body, tail, rfl, rfl, hbody⟩
  rw [List.cons_append, scan_opening, hclosing, Option.map_some, ← List.cons_append,
    ← List.append_assoc, Text.bytes_append _ ('}' :: tail), Nat.add_sub_cancel, Text.bytes_append]

/-- From an opening brace the scanner never cuts a character in two. It finds the offset of the first
return, or nothing if the run is broken off or the text ends before it. What is found stays where it
is whatever follows it, and before it a brace is open throughout. -/
theorem scan_finds_first_return {t : Text} {i : Nat}
    (h : (Text.utf8 t)[i]? = some '{'.toUInt8) :
    ∃ before rest found, t = before ++ '{' :: rest ∧ Text.bytes before = i ∧
      scan t 0 i = .ok found ∧
      found = (closing? ('{' :: rest)).map (fun r => Text.bytes t - Text.bytes r) ∧
      (∀ j, found = some j ↔
        ∃ inside, ReturnsAfter ('{' :: rest) inside ∧ j = i + Text.bytes inside) ∧
      (found = none ↔ Aborts ('{' :: rest) ∨ StaysOpen ('{' :: rest)) ∧
      ∀ inside, ReturnsAfter ('{' :: rest) inside → StaysOpen inside ∧
        ∃ after, t = before ++ (inside ++ '}' :: after) ∧
          ∀ after', scan (before ++ (inside ++ '}' :: after')) 0 i = scan t 0 i := by
  obtain ⟨before, rest, rfl, rfl⟩ := Text.exists_of_getElem?_utf8 (by decide) h
  refine ⟨before, rest, _, rfl, rfl, scan_opening before rest, rfl, fun j => ?_, ?_, ?_⟩
  · constructor
    · intro hj
      obtain ⟨u, hu, rfl⟩ := Option.map_eq_some_iff.1 hj
      obtain ⟨inside, hreturns, hwhole⟩ := closing?_eq_some_iff_returnsAfter.1 hu
      refine ⟨inside, hreturns, ?_⟩
      rw [hwhole, ← List.append_assoc, Text.bytes_append _ u, Nat.add_sub_cancel, Text.bytes_append]
    · rintro ⟨inside, hreturns, rfl⟩
      obtain ⟨body, tail, rfl, rfl, hbody⟩ := returnsAfter_cons_iff.1 hreturns
      have hfound := scan_of_isBalanced hbody before tail
      rw [List.cons_append, scan_opening] at hfound
      exact Except.ok.inj hfound
  · rw [Option.map_eq_none_iff, closing?_eq_none_iff]
  · intro inside hreturns
    obtain ⟨body, tail, rfl, rfl, hbody⟩ := returnsAfter_cons_iff.1 hreturns
    obtain ⟨c, m, hend, -⟩ := hreturns
    refine ⟨hend.staysOpen, tail, rfl, fun after' => ?_⟩
    exact (scan_of_isBalanced hbody before after').trans (scan_of_isBalanced hbody before tail).symm

/-- A backslash takes a character of two bytes with it, and no brace in a literal or a comment
counts. -/
theorem scan_finds_first_return_escape :
    (Text.utf8 ['{', '"', '\\', 'é', '}', '"', '/', '*', '}', '*', '/', '}'])[0]? =
        some '{'.toUInt8 ∧
      scan ['{', '"', '\\', 'é', '}', '"', '/', '*', '}', '*', '/', '}'] 0 0 = .ok (some 12) := by
  have hbyte : (Text.utf8 ['{', '"', '\\', 'é', '}', '"', '/', '*', '}', '*', '/', '}'])[0]? =
      some '{'.toUInt8 := by decide
  refine ⟨hbyte, ?_⟩
  obtain ⟨before, rest, found, ht, hbefore, hscan, -, hfound, -, -⟩ :=
    scan_finds_first_return hbyte
  obtain rfl := Text.bytes_eq_zero.1 hbefore
  obtain rfl := List.tail_eq_of_cons_eq ht
  have hreturns : ReturnsAfter ['{', '"', '\\', 'é', '}', '"', '/', '*', '}', '*', '/', '}']
      ['{', '"', '\\', 'é', '}', '"', '/', '*', '}', '*', '/'] :=
    returnsAfter_cons_iff.2
      ⟨['"', '\\', 'é', '}', '"', '/', '*', '}', '*', '/'], [], rfl, rfl, false, rfl⟩
  rw [hscan, (hfound 12).2 ⟨_, hreturns, rfl⟩]

end Scaffold.Brace
