import Scaffold.Insertion.Apply
import Scaffold.Proofs.Anchor.ClassBody
import Scaffold.Proofs.Edit.Insertions
import Scaffold.Proofs.Import.Reading
import Scaffold.Proofs.Insertion.Presence
import Scaffold.Proofs.Text.Marks

namespace Scaffold

open Text

namespace Text

variable {p : Option Char → Text → Bool} {prev : Option Char} {t a b m : Text}

theorem of_firstCut? {k : Cut} (h : firstCut? p prev t = some k) :
    p (k.before.getLast?.or prev) k.after = true := by
  induction t generalizing k prev with
  | nil =>
      rw [firstCut?] at h
      split at h
      · next hp => cases h; exact hp
      · cases h
  | cons c t ih =>
      rw [firstCut?] at h
      split at h
      · next hp => cases h; exact hp
      · obtain ⟨j, hj, rfl⟩ := Option.map_eq_some_iff.1 h
        have hp := ih hj
        rw [List.getLast?_cons]
        cases hlast : j.before.getLast? with
        | none => simpa [hlast] using hp
        | some d => simpa [hlast] using hp

theorem exists_firstCut? (h : p (a.getLast?.or prev) b = true) :
    ∃ k, firstCut? p prev (a ++ b) = some k := by
  induction a generalizing prev with
  | nil => exact ⟨_, firstCut?_eq_start_iff.2 ⟨h, rfl⟩⟩
  | cons c a ih =>
      rw [List.cons_append, firstCut?]
      split
      · exact ⟨_, rfl⟩
      · obtain ⟨k, hk⟩ := @ih (some c) (by
          rw [List.getLast?_cons] at h
          cases hlast : a.getLast? with
          | none => simpa [hlast] using h
          | some d => simpa [hlast] using h)
        exact ⟨_, by rw [hk, Option.map_some]⟩

theorem isInfix_of_append_blanks (hm : ∃ c, m.getLast? = some c ∧ isBlank c = false)
    (hb : ∀ c ∈ b, isBlank c = true) (h : m <:+: a ++ b) : m <:+: a := by
  have hdrop := isInfix_dropEndWhile h hm
  rw [dropEndWhile_append_of_all hb] at hdrop
  exact hdrop.trans (begins_dropEndWhile _ _).isInfix

theorem getLast?_append_of_blank {x y z : Text} {c d : Char} (hc : x.getLast? = some c)
    (hvisible : isBlank c = false) (hd : (x ++ y).getLast? = some d) (hblank : isBlank d = true) :
    (x ++ z ++ y).getLast? = some d := by
  cases hy : y.getLast? with
  | none =>
      rw [List.getLast?_append, hy, Option.none_or, hc] at hd
      cases hd
      rw [hblank] at hvisible
      cases hvisible
  | some e =>
      rw [List.getLast?_append, hy] at hd ⊢
      exact hd

theorem isInfix_of_append_pair {c d : Char} (h : m <:+: a ++ [c] ++ d :: b)
    (hm : ¬[c, d] <:+: m) : m <:+: a ++ [c] ∨ m <:+: d :: b := by
  obtain ⟨u, v, huv⟩ := h
  rcases List.append_eq_append_iff.1 huv with ⟨k, hk, -⟩ | ⟨k, hk, hv⟩
  · exact .inl ⟨u, k, hk.symm⟩
  cases k with
  | nil => exact .inl ⟨u, [], by rw [List.append_nil, hk, List.append_nil]⟩
  | cons e k =>
      obtain ⟨rfl, rfl⟩ := List.cons.inj hv
      rcases List.append_eq_append_iff.1 hk with ⟨j, hj, hmj⟩ | ⟨j, hj, hmj⟩
      · obtain rfl | ⟨w, x, rfl⟩ := List.eq_nil_or_concat j
        · exact .inr ⟨[], v, by rw [hmj]; simp⟩
        · rw [List.concat_eq_append, ← List.append_assoc] at hj
          obtain ⟨-, hx⟩ := List.append_inj' hj rfl
          refine absurd ⟨w, k, ?_⟩ hm
          rw [hmj, List.concat_eq_append, ← hx]
          simp
      · exact .inr ⟨j, v, by rw [← hmj]; rfl⟩

theorem exists_last_line (h : '\n' ∈ t) : ∃ x y, t = x ++ '\n' :: y ∧ '\n' ∉ y := by
  obtain ⟨y, x, hxy, hy⟩ := List.eq_append_cons_of_mem (List.mem_reverse.2 h)
  refine ⟨x.reverse, y.reverse, ?_, by simpa using hy⟩
  have hrev := congrArg List.reverse hxy
  simpa using hrev

end Text

namespace Shape

def IsInputHead (w : Text) : Prop :=
  ∃ g g' : Text, (∀ c ∈ g, isBlank c = true) ∧ (∀ c ∈ g', isBlank c = true) ∧
    w = "input" ++ g ++ ":" ++ g'

theorem exists_of_inputMapping {t rest : Text} (h : inputMapping t = some rest) :
    ∃ head body, IsInputHead head ∧ ('{' ∉ body ∧ '}' ∉ body) ∧ rest.head? = some '}' ∧
      t = head ++ '{' :: body ++ rest := by
  simp only [inputMapping, Option.bind_eq_bind, Option.bind_eq_some_iff] at h
  obtain ⟨t₁, h₁, t₂, h₂, t₃, h₃, h⟩ := h
  split at h
  · next hclose =>
      cases h
      obtain ⟨g, hg, hblanks⟩ := eq_blanks t₁
      obtain ⟨g', hg', hblanks'⟩ := eq_blanks t₂
      refine ⟨"input" ++ g ++ ":" ++ g', t₃.takeWhile fun c => c != '{' && c != '}',
        ⟨g, g', hg, hg', rfl⟩, ⟨fun hmem => ?_, fun hmem => ?_⟩, hclose, ?_⟩
      · exact absurd (List.mem_takeWhile_imp hmem) (by decide)
      · exact absurd (List.mem_takeWhile_imp hmem) (by decide)
      · rw [eq_of_literal h₁, hblanks, eq_of_literal h₂, hblanks', eq_of_literal h₃]
        simp
  · cases h

theorem inputMapping_append {head body rest : Text} (hhead : IsInputHead head)
    (hbody : '{' ∉ body ∧ '}' ∉ body) (hrest : rest.head? = some '}') :
    inputMapping (head ++ '{' :: body ++ rest) = some rest := by
  obtain ⟨g, g', hg, hg', rfl⟩ := hhead
  have hcolon : blanks (g ++ (":".toList ++ (g' ++ '{' :: (body ++ rest)))) =
      ":".toList ++ (g' ++ '{' :: (body ++ rest)) :=
    blanks_append hg (by simp; decide)
  have hopen : blanks (g' ++ '{' :: (body ++ rest)) = "\x7b".toList ++ (body ++ rest) :=
    blanks_append hg' (by simp; decide)
  have hdrop : (body ++ rest).dropWhile (fun c => c != '{' && c != '}') = rest := by
    rw [List.dropWhile_append_of_pos]
    · obtain ⟨u, rfl⟩ := List.head?_eq_some_iff.1 hrest
      exact List.dropWhile_cons_of_neg (by decide)
    · intro c hc
      simpa using ⟨ne_of_mem_of_not_mem hc hbody.1, ne_of_mem_of_not_mem hc hbody.2⟩
  have hwhole : "input" ++ g ++ ":" ++ g' ++ '{' :: body ++ rest =
      "input".toList ++ (g ++ (":".toList ++ (g' ++ '{' :: (body ++ rest)))) := by simp
  rw [hwhole]
  simp only [inputMapping, literal_append, Option.bind_eq_bind, Option.bind_some, hcolon, hopen, hdrop]
  exact if_pos hrest

end Shape

namespace Anchor

variable {above head body rest t : Text} {k : Cut}

theorem exists_of_inputMapping (h : locate t .inputMapping = some k) : ∃ above head body rest,
    above.getLast?.any isWord = false ∧ Shape.IsInputHead head ∧ ('{' ∉ body ∧ '}' ∉ body) ∧
      rest.head? = some '}' ∧ k = ⟨above ++ head ++ '{' :: body, rest⟩ ∧
      t = above ++ head ++ '{' :: body ++ rest := by
  simp only [locate, Option.bind_eq_bind, Option.bind_eq_some_iff, Option.map_eq_some_iff] at h
  obtain ⟨start, hstart, rest, hrest, rfl⟩ := h
  have hprev := of_firstCut? hstart
  rw [Option.or_none, Bool.and_eq_true, Bool.not_eq_true'] at hprev
  obtain rfl : start.whole = t := whole_of_firstCut? hstart
  obtain ⟨head, body, hhead, hbody, hclose, hafter⟩ := Shape.exists_of_inputMapping hrest
  have hwhole : start.whole = start.before ++ head ++ '{' :: body ++ rest := by
    rw [Cut.whole, hafter]
    simp
  exact ⟨start.before, head, body, rest, hprev.1, hhead, hbody, hclose,
    by rw [hwhole, Cut.ofRest_append], hwhole⟩

theorem exists_inputMapping (habove : above.getLast?.any isWord = false)
    (hhead : Shape.IsInputHead head) (hbody : '{' ∉ body ∧ '}' ∉ body)
    (hrest : rest.head? = some '}') :
    ∃ k, locate (above ++ head ++ '{' :: body ++ rest) .inputMapping = some k := by
  have hread := Shape.inputMapping_append hhead hbody hrest
  obtain ⟨k, hk⟩ : ∃ k, firstCut? (fun prev r => !prev.any isWord && (Shape.inputMapping r).isSome)
      none (above ++ (head ++ '{' :: body ++ rest)) = some k :=
    exists_firstCut? (by rw [hread]; simp [habove])
  have hsome := of_firstCut? hk
  rw [Bool.and_eq_true] at hsome
  obtain ⟨z, hz⟩ := Option.isSome_iff_exists.1 hsome.2
  have hwhole : above ++ head ++ '{' :: body ++ rest = above ++ (head ++ '{' :: body ++ rest) := by
    simp
  refine ⟨Cut.ofRest (above ++ head ++ '{' :: body ++ rest) z, ?_⟩
  simp only [locate, Option.bind_eq_bind, hwhole, hk, Option.bind_some, hz, Option.map_some]

end Anchor

theorem Text.afterLast?_append {pattern t rest : Text} (h : afterLast? pattern t = some rest)
    (head : Text) : afterLast? pattern (head ++ t) = some rest := by
  induction head with
  | nil => exact h
  | cons c head ih => rw [List.cons_append, afterLast?, ih]

namespace Mapping

variable {body entry new m : Text}

/-- The body of a mapping with one more entry. Perhaps the entry before it has got a comma. -/
inductive Enters (entry : Text) : Text → Text → Prop
  | mk {x comma y lead gap z : Text} (hcomma : comma = [] ∨ comma = [','])
      (hlead : ∀ c ∈ lead, isBlank c = true) (hgap : ∀ c ∈ gap, isBlank c = true)
      (hapart : (x ++ comma ++ y ++ lead).getLast?.any isBlank = true) :
      Enters entry (x ++ y ++ z) (x ++ comma ++ y ++ lead ++ entry ++ ',' :: gap)

/-- Code that does not come about where an entry meets the rest of a mapping. -/
structure IsSign (m : Text) : Prop where
  whole : ∀ c ∈ m, c ∉ breaks
  last : ∃ c, m.getLast? = some c ∧ isBlank c = false
  apart : ∀ b, isBlank b = true → ¬[b, '\''] <:+: m

theorem IsSign.not_isInfix_blanks {b : Text} (h : IsSign m) (hb : ∀ c ∈ b, isBlank c = true) :
    ¬m <:+: b := by
  intro hmb
  obtain ⟨c, hc, hvisible⟩ := h.last
  rw [hb c (hmb.subset (List.mem_of_getLast? hc))] at hvisible
  cases hvisible

namespace Enters

theorem isInfix (h : Enters entry body new) : entry <:+: new := by
  cases h with
  | mk => exact List.infix_append _ _ _

theorem not_mem {d : Char} (hd : isBlank d = false ∧ d ≠ ',') (h : Enters entry body new)
    (hbody : d ∉ body) (hentry : d ∉ entry) : d ∉ new := by
  cases h with
  | @mk x comma y lead gap z hcomma hlead hgap =>
      have hnot : d ∉ comma := by
        rcases hcomma with rfl | rfl
        · exact List.not_mem_nil
        · simpa using hd.2
      have hlead : d ∉ lead := fun hmem => by simp [hlead d hmem] at hd
      have hgap : d ∉ gap := fun hmem => by simp [hgap d hmem] at hd
      simp only [List.mem_append, not_or] at hbody
      simp [hbody, hentry, hnot, hlead, hgap, hd.2]

/-- What is found in a mapping with a new entry was there before, or is in the entry. -/
theorem of_isInfix (h : Enters entry body new) (hentry : entry.head? = some '\'') (hm : IsSign m)
    (hnew : m <:+: new) : m <:+: body ∨ m <:+: entry := by
  cases h with
  | @mk x comma y lead gap z hcomma hlead hgap hapart =>
      have hsep : ',' ∉ m := fun hmem => hm.whole _ hmem (by decide)
      obtain ⟨w, hw⟩ := List.head?_eq_some_iff.1 hentry
      obtain ⟨b, hb, hblank⟩ := (Option.any_eq_true _ _).1 hapart
      obtain ⟨v, hv⟩ := List.getLast?_eq_some_iff.1 hb
      rcases isInfix_of_append_sep hsep hnew with h | h
      · rw [hw, hv] at h
        rcases isInfix_of_append_pair h (hm.apart b hblank) with h | h
        · rw [← hv] at h
          have hbefore := isInfix_of_append_blanks hm.last hlead h
          refine .inl (List.IsInfix.trans ?_ (List.prefix_append _ z).isInfix)
          rcases hcomma with rfl | rfl
          · simpa using hbefore
          · rw [List.append_assoc] at hbefore
            rcases isInfix_of_append_sep hsep hbefore with h | h
            · exact h.trans (List.prefix_append _ _).isInfix
            · exact h.trans (List.suffix_append _ _).isInfix
        · exact .inr (hw ▸ h)
      · exact absurd h (hm.not_isInfix_blanks hgap)

end Enters

theorem afterLast?_opening {head : Text} (hbody : '{' ∉ body) :
    afterLast? "\x7b" (head ++ '{' :: body) = some body := by
  refine afterLast?_append ?_ head
  rw [afterLast?, afterLast?_eq_none (c := '{') (by decide) hbody]
  rfl

section Edits

variable {close : Cut} (entry)

theorem entryEdit_on_line (h : '\n' ∈ body ∧ close.startsLine = true) : ∃ lead,
    (∀ c ∈ lead, isBlank c = true) ∧
      entryEdit close body entry = .insert close.lineStart.before (lead ++ entry ++ ",\n") := by
  rw [entryEdit, if_pos h]
  refine ⟨_, fun c hc => ?_, rfl⟩
  split at hc
  · exact List.mem_takeWhile_imp hc
  · rcases List.mem_append.1 hc with hc | hc
    · have hspace := List.mem_takeWhile_imp hc
      simp only [Bool.or_eq_true, beq_iff_eq] at hspace
      rcases hspace with rfl | rfl <;> decide
    · have hspace : c = ' ' := by simpa using hc
      rw [hspace]
      decide

theorem entryEdit_inline (h : ¬('\n' ∈ body ∧ close.startsLine = true)) : ∃ lead,
    (∀ c ∈ lead, isBlank c = true) ∧ (body ++ lead).getLast?.any isBlank = true ∧
      entryEdit close body entry = .insert close.before (lead ++ entry ++ ", ") := by
  rw [entryEdit, if_neg h]
  by_cases hlast : body.getLast?.any isBlank = true
  · exact ⟨[], by simp, by simpa using hlast, by rw [if_pos hlast]; rfl⟩
  · exact ⟨[' '], by simp; decide, by simp; decide, by rw [if_neg hlast]; rfl⟩

variable (head rest : Text)

theorem exists_entryEdit (body : Text) : ∃ q lead gap z, body = q ++ z ∧
    entryEdit ⟨head ++ body, rest⟩ body entry = .insert (head ++ q) (lead ++ entry ++ ',' :: gap) ∧
    (∀ c ∈ lead, isBlank c = true) ∧ (∀ c ∈ gap ++ z, isBlank c = true) ∧
    (q ++ lead).getLast?.any isBlank = true ∧ (z = [] ∨ q.getLast? = some '\n') := by
  by_cases hline : '\n' ∈ body ∧ Cut.startsLine ⟨head ++ body, rest⟩ = true
  · obtain ⟨lead, hlead, hedit⟩ := entryEdit_on_line entry hline
    obtain ⟨q, z, rfl, hz⟩ := exists_last_line hline.1
    have hmargin : ∀ c ∈ z, c ≠ '\n' := fun c hc hnew => hz (hnew ▸ hc)
    have hends : beginsLine (head ++ q ++ ['\n']).getLast? = true := by simp [beginsLine]
    have hwhole : head ++ (q ++ '\n' :: z) = head ++ q ++ ['\n'] ++ z := by simp
    have hstarts := hline.2
    rw [hwhole, Cut.startsLine, Cut.lineHead_eq hends hmargin] at hstarts
    refine ⟨q ++ ['\n'], lead, ['\n'], z, by simp, ?_, hlead, ?_, ?_, .inr List.getLast?_concat⟩
    · rw [hedit, hwhole, Cut.lineStart_eq hends hmargin, ← List.append_assoc head]
      rfl
    · intro c hc
      rcases List.mem_cons.1 hc with rfl | hc
      · decide
      · exact List.all_eq_true.1 hstarts c hc
    · cases hl : lead.getLast? with
      | none => simp [List.getLast?_eq_none_iff.1 hl]; decide
      | some c =>
          rw [List.getLast?_append, hl]
          exact hlead c (List.mem_of_getLast? hl)
  · obtain ⟨lead, hlead, hapart, hedit⟩ := entryEdit_inline entry hline
    exact ⟨body, lead, [' '], [], by simp, hedit, hlead, by simp; decide, hapart, .inl rfl⟩

/-- Both edits together: the comma comes before the blanks after which the entry goes, or at the same
place. -/
theorem exists_spliced (hopen : afterLast? "\x7b" (head ++ body) = some body) :
    ∃ x comma y lead gap z, body = x ++ y ++ z ∧
      splice (head ++ body ++ rest) (edits ⟨head ++ body, rest⟩ entry) =
        .ok (head ++ (x ++ comma ++ y ++ lead ++ entry ++ ',' :: (gap ++ z)) ++ rest) ∧
      (commaEdit? head body = none ∧ comma = [] ∨
        commaEdit? head body = some (.insert (head ++ x) ",") ∧ comma = [',']) ∧
      (∀ c ∈ lead, isBlank c = true) ∧ (∀ c ∈ gap ++ z, isBlank c = true) ∧
      (x ++ comma ++ y ++ lead).getLast?.any isBlank = true ∧
      (z = [] ∨ (x ++ comma ++ y).getLast? = some '\n') := by
  have hedits : edits ⟨head ++ body, rest⟩ entry =
      (commaEdit? head body).toList ++ [entryEdit ⟨head ++ body, rest⟩ body entry] := by
    rw [edits, hopen]
    simp
  obtain ⟨q, lead, gap, z, rfl, hentry, hlead, hgap, hapart, hline⟩ :=
    exists_entryEdit entry head rest body
  rw [hedits, hentry]
  cases hcomma : commaEdit? head (q ++ z) with
  | none =>
      refine ⟨[], [], q, lead, gap, z, rfl, ?_, .inl ⟨rfl, rfl⟩, hlead, hgap, hapart, hline⟩
      have hsplice := splice_insert (head ++ q) (z ++ rest) (lead ++ entry ++ ',' :: gap)
      simpa using hsplice
  | some e =>
      obtain ⟨x, y₀, hxy, -, ⟨c, hc, hvisible⟩, rfl⟩ := exists_of_commaEdit? hcomma
      -- The last code is before the place of the entry, since only blanks come after that.
      obtain ⟨y, rfl⟩ : x <+: q := by
        rcases List.append_eq_append_iff.1 hxy with ⟨k, hk, hz⟩ | ⟨k, hk, -⟩
        · cases hl : k.getLast? with
          | none =>
              rw [List.getLast?_eq_none_iff.1 hl, List.append_nil] at hk
              exact hk ▸ List.prefix_refl _
          | some d =>
              rw [hk, List.getLast?_append, hl] at hc
              have hblank := hgap d (by simp [hz, List.mem_of_getLast? hl])
              cases hc
              rw [hblank] at hvisible
              cases hvisible
        · exact ⟨k, hk.symm⟩
      refine ⟨x, [','], y, lead, gap, z, rfl, ?_, .inr ⟨rfl, rfl⟩, hlead, hgap, ?_, ?_⟩
      · have hsplice := splice_pair (head ++ x) y (z ++ rest) "," (lead ++ entry ++ ',' :: gap)
        simpa using hsplice
      · obtain ⟨b, hb, hblank⟩ := (Option.any_eq_true _ _).1 hapart
        rw [List.append_assoc] at hb ⊢
        rw [getLast?_append_of_blank hc hvisible hb hblank]
        exact hblank
      · exact hline.imp_right fun hnew => getLast?_append_of_blank hc hvisible hnew (by decide)

theorem exists_enters (hopen : afterLast? "\x7b" (head ++ body) = some body) : ∃ new,
    splice (head ++ body ++ rest) (edits ⟨head ++ body, rest⟩ entry) = .ok (head ++ new ++ rest) ∧
      Enters entry body new := by
  obtain ⟨x, comma, y, lead, gap, z, rfl, hsplice, hcomma, hlead, hgap, hapart, -⟩ :=
    exists_spliced entry head rest hopen
  exact ⟨_, hsplice, .mk (hcomma.imp And.right And.right) hlead hgap hapart⟩

end Edits

end Mapping

namespace Insertion

variable {i : Insertion} {t : Text}

theorem place?_of_bundle (hkind : i.kind = .bundle) {k : Cut}
    (hk : Anchor.locate t .inputMapping = some k) : i.place? t = some (.inputMapping, k) := by
  simp [place?, hkind, FileKind.anchors, FileKind.mainAnchor, hk]

theorem plan_of_bundle (hkind : i.kind = .bundle) (himports : i.imports = [])
    (habsent : i.isPresent t = false) {k : Cut} (hk : Anchor.locate t .inputMapping = some k) :
    i.plan t = .edits (Mapping.edits k i.fragment) .inputMapping none := by
  rw [plan, habsent, place?_of_bundle hkind hk]
  simp [himports, fragmentEdits, hkind, FileKind.anchors, FileKind.mainAnchor]

/-- An insertion for a bundle config is made wherever there is a mapping for it and it is not present.
The mapping stays one, and no sign of something else comes about. -/
theorem exists_entered (hkind : i.kind = .bundle) (himports : i.imports = [])
    (hquote : i.fragment.head? = some '\'') (hbraces : '{' ∉ i.fragment ∧ '}' ∉ i.fragment)
    (hmapping : (Anchor.locate t .inputMapping).isSome = true) (habsent : i.isPresent t = false)
    (file : Path) :
    ∃ u, i.outcome file (.ok t) = .ok (.applied file t u none) ∧
      (Anchor.locate u .inputMapping).isSome = true ∧ i.fragment <:+: u ∧
      ∀ m, Mapping.IsSign m → m <:+: u → m <:+: t ∨ m <:+: i.fragment := by
  obtain ⟨k, hk⟩ := Option.isSome_iff_exists.1 hmapping
  have hplan := plan_of_bundle hkind himports habsent hk
  obtain ⟨above, head, body, rest, habove, hhead, hbody, hclose, rfl, rfl⟩ :=
    Anchor.exists_of_inputMapping hk
  have hopening : ∀ x : Text, above ++ head ++ '{' :: x = above ++ head ++ ['{'] ++ x := by simp
  rw [hopening] at hplan ⊢
  obtain ⟨new, hsplice, henters⟩ := Mapping.exists_enters i.fragment (above ++ head ++ ['{']) rest
    (by rw [← hopening]; exact Mapping.afterLast?_opening hbody.1)
  refine ⟨above ++ head ++ ['{'] ++ new ++ rest, ?_, ?_, ?_, fun m hm hmu => ?_⟩
  · simp only [outcome, outcomeFor, hplan, hsplice]
    rfl
  · have hnew := And.intro (henters.not_mem (by decide) hbody.1 hbraces.1)
      (henters.not_mem (by decide) hbody.2 hbraces.2)
    obtain ⟨j, hj⟩ := Anchor.exists_inputMapping habove hhead hnew hclose
    rw [← hopening, hj]
    rfl
  · exact henters.isInfix.trans (List.infix_append _ _ _)
  · have hsep : '{' ∉ m ∧ '}' ∉ m :=
      ⟨fun hmem => hm.whole _ hmem (by decide), fun hmem => hm.whole _ hmem (by decide)⟩
    obtain ⟨tail, rfl⟩ := List.head?_eq_some_iff.1 hclose
    rw [← hopening, List.append_assoc] at hmu
    rw [← hopening, List.append_assoc (above ++ head), List.cons_append]
    rcases isInfix_of_append_sep hsep.1 hmu with h | h
    · exact .inl (h.trans (List.prefix_append _ _).isInfix)
    rcases isInfix_of_append_sep hsep.2 h with h | h
    · refine (henters.of_isInfix hquote hm h).imp_left fun h => h.trans ?_
      exact ⟨above ++ head ++ ['{'], '}' :: tail, by simp⟩
    · exact .inl (h.trans ⟨above ++ head ++ '{' :: body ++ ['}'], [], by simp⟩)

end Insertion

end Scaffold
