import Mathlib.Data.List.Chain
import Scaffold.Edit.Basic
import Scaffold.Proofs.Text.Bytes

namespace Scaffold

namespace Edit

structure Fits (t : Text) (e : Edit) : Prop where
  start_le_stop : e.start ≤ e.stop
  stop_le_bytes : e.stop ≤ Text.bytes t
  start_boundary : Text.isBoundary t e.start = true
  stop_boundary : Text.isBoundary t e.stop = true
  expected_holds : e.expected.holds (e.found t) = true

theorem check_eq_ok_iff {t : Text} {e : Edit} : e.check t = .ok () ↔ e.Fits t := by
  constructor
  · intro h
    unfold check at h
    repeat' split at h
    all_goals try cases h
    next hrange hstart hstop hfound =>
      simp only [not_or, Nat.not_lt, Bool.not_eq_true, Bool.not_eq_false'] at *
      exact ⟨hrange.1, hrange.2, hstart, hstop, hfound⟩
  · intro h
    have hrange : ¬(e.stop < e.start ∨ Text.bytes t < e.stop) := by
      have := h.start_le_stop
      have := h.stop_le_bytes
      omega
    simp [check, hrange, h.start_boundary, h.stop_boundary, h.expected_holds]

theorem check_ne_overlap (t : Text) (e : Edit) (n : Nat) :
    e.check t ≠ .error (.overlap n) := by
  unfold check
  repeat' split
  all_goals simp

/-- A list of the edits by their start, where equal starts keep the order they were given in. -/
structure Arranged (edits es : List Edit) : Prop where
  perm : es.Perm edits
  sorted : es.Pairwise fun a b => a.start ≤ b.start
  stable : ∀ n, es.filter (·.start = n) = edits.filter (·.start = n)

theorem pairwise_ordered (edits : List Edit) :
    (ordered edits).Pairwise fun a b => a.start ≤ b.start := by
  have h : (ordered edits).Pairwise fun a b => decide (a.start ≤ b.start) = true :=
    List.pairwise_mergeSort (fun a b c => by simp only [decide_eq_true_eq]; omega)
      (fun a b => by simp only [Bool.or_eq_true, decide_eq_true_eq]; omega) edits
  exact h.imp (fun hab => by simpa using hab)

theorem perm_ordered (edits : List Edit) : (ordered edits).Perm edits := List.mergeSort_perm _ _

theorem arranged_ordered (edits : List Edit) : Arranged edits (ordered edits) := by
  refine ⟨perm_ordered edits, pairwise_ordered edits, ?_⟩
  intro n
  have hle : (edits.filter (·.start = n)).Pairwise
      fun a b => decide (a.start ≤ b.start) = true := by
    apply List.pairwise_of_forall_mem_list
    intro a ha b hb
    simp only [List.mem_filter, decide_eq_true_eq] at ha hb ⊢
    omega
  have hsub : (edits.filter (·.start = n)).Sublist (ordered edits) :=
    List.sublist_mergeSort (fun a b c => by simp only [decide_eq_true_eq]; omega)
      (fun a b => by simp only [Bool.or_eq_true, decide_eq_true_eq]; omega) hle
      List.filter_sublist
  have hfilter := hsub.filter (fun e => decide (e.start = n))
  rw [List.filter_filter] at hfilter
  simp only [Bool.and_self] at hfilter
  exact (hfilter.eq_of_length (((perm_ordered edits).filter _).length_eq.symm)).symm

abbrev Before (a b : Edit) : Prop := a.stop ≤ b.start

theorem lastOverlap?_eq_none_iff {es : List Edit} :
    lastOverlap? es = none ↔ es.IsChain Before := by
  induction es with
  | nil => simp [lastOverlap?]
  | cons a es ih =>
      cases es with
      | nil => simp [lastOverlap?]
      | cons b es =>
          rw [lastOverlap?, List.isChain_cons_cons, ← ih]
          cases lastOverlap? (b :: es) with
          | none => simp
          | some n => simp

inductive Laid (t : Text) : Nat → List Edit → Prop
  | nil {n : Nat} (hn : Text.isBoundary t n = true) : Laid t n []
  | cons {n : Nat} {e : Edit} {es : List Edit} (hn : Text.isBoundary t n = true)
      (hle : n ≤ e.start) (he : e.Fits t) (hes : Laid t e.stop es) : Laid t n (e :: es)

theorem Laid.boundary {t : Text} {n : Nat} {es : List Edit} (h : Laid t n es) :
    Text.isBoundary t n = true := by
  cases h with
  | nil hn => exact hn
  | cons hn => exact hn

theorem Laid.tail_of_append {t : Text} {n : Nat} {earlier later : List Edit} {e : Edit}
    (h : Laid t n (earlier ++ e :: later)) : e.Fits t ∧ Laid t e.stop later := by
  induction earlier generalizing n with
  | nil =>
      cases h with
      | cons _ _ he hes => exact ⟨he, hes⟩
  | cons a earlier ih =>
      cases h with
      | cons _ _ _ hes => exact ih hes

theorem laid_of_isChain {t : Text} {es : List Edit} (hfit : ∀ e ∈ es, e.Fits t)
    (hchain : es.IsChain Before) {n : Nat} (hn : Text.isBoundary t n = true)
    (hle : ∀ e ∈ es.head?, n ≤ e.start) : Laid t n es := by
  induction es generalizing n with
  | nil => exact .nil hn
  | cons e es ih =>
      have he : e.Fits t := hfit e (by simp)
      refine .cons hn (hle e (by simp)) he (ih (fun b hb => hfit b (by simp [hb])) ?_
        he.stop_boundary ?_)
      · exact hchain.tail
      · intro b hb
        cases es with
        | nil => simp at hb
        | cons c es =>
            obtain rfl : c = b := by simpa using hb
            exact (List.isChain_cons_cons.1 hchain).1

/-- A text from byte `n` on, with `new` in place of the spans of edits. -/
def weave (new : Edit → Text) (t : Text) : Nat → List Edit → Text
  | n, [] => Text.dropBytes n t
  | n, e :: es => Text.slice t n e.start ++ new e ++ weave new t e.stop es

theorem isInfix_weave {new : Edit → Text} {t : Text} {n : Nat} {es : List Edit} {e : Edit}
    (he : e ∈ es) : new e <:+: weave new t n es := by
  induction es generalizing n with
  | nil => simp at he
  | cons a es ih =>
      rw [weave]
      rcases List.mem_cons.1 he with rfl | he
      · exact List.infix_append _ _ _
      · exact (ih he).trans (List.suffix_append _ _).isInfix

inductive Spares (u m : Text) (e : Edit) : Prop
  | before (h : e.stop ≤ Text.bytes u)
  | after (h : Text.bytes (u ++ m) ≤ e.start)
  | within (hstart : e.start ≤ Text.bytes u) (hstop : Text.bytes (u ++ m) ≤ e.stop)
      (h : m <:+: e.replacement)

theorem isInfix_weave_of_spares {u m v : Text} {n : Nat} {es : List Edit}
    (h : Laid (u ++ m ++ v) n es) (hn : n ≤ Text.bytes u) (hes : ∀ e ∈ es, e.Spares u m) :
    m <:+: weave replacement (u ++ m ++ v) n es := by
  -- The weave goes on from byte `n`, and up to there nothing of `m` has been passed.
  induction es generalizing n with
  | nil =>
      have hb := h.boundary
      rw [List.append_assoc] at hb
      obtain ⟨a, b, rfl, rfl⟩ := Text.exists_of_boundary_le hb hn
      rw [weave, List.append_assoc a b, List.append_assoc, Text.dropBytes_bytes_append]
      exact ⟨b, v, by simp⟩
  | cons e es ih =>
      rw [weave]
      cases h with
      | cons hb hle he hlaid =>
          cases hes e (by simp) with
          | before hstop =>
              have hm := ih hlaid hstop (fun b hb => hes b (by simp [hb]))
              exact hm.trans (List.suffix_append _ _).isInfix
          | after hstart =>
              -- All of `m` lies in the gap before `e`.
              rw [List.append_assoc] at hb
              obtain ⟨a, b, rfl, rfl⟩ := Text.exists_of_boundary_le hb hn
              have hbm : Text.bytes (b ++ m) ≤ e.start - Text.bytes a := by
                simp only [Text.bytes_append] at hstart ⊢
                omega
              have hgap : Text.slice (a ++ b ++ m ++ v) (Text.bytes a) e.start =
                  b ++ m ++ Text.takeBytes (e.start - Text.bytes a - Text.bytes (b ++ m)) v := by
                rw [Text.slice, show a ++ b ++ m ++ v = a ++ (b ++ m ++ v) by simp,
                  Text.dropBytes_bytes_append, Text.takeBytes_append hbm]
              rw [hgap, List.append_assoc]
              exact (List.infix_append b m _).trans (List.prefix_append _ _).isInfix
          | within hstart hstop hm =>
              exact hm.trans ((List.suffix_append _ _).isInfix.trans
                (List.prefix_append _ _).isInfix)

/-- Edits carried out from the last to the first come to the same as weaving them in from byte `n`
on, before which no edit reaches. -/
theorem foldr_apply_eq_weave {t : Text} {n : Nat} {es : List Edit} (h : Laid t n es) :
    es.foldr apply t = Text.takeBytes n t ++ weave replacement t n es := by
  induction h with
  | nil => simp [weave]
  | @cons n e es hn hle he hes ih =>
      rw [List.foldr_cons, ih, apply,
        Text.takeBytes_takeBytes_append he.start_boundary he.start_le_stop,
        Text.dropBytes_takeBytes_append he.stop_boundary, ← Text.takeBytes_slice hn hle]
      simp only [weave, List.append_assoc]

theorem Fits.found_foldr_apply {t : Text} {e : Edit} {es : List Edit} (he : e.Fits t)
    (hes : Laid t e.stop es) :
    Text.isBoundary (es.foldr apply t) e.start = true ∧
      Text.isBoundary (es.foldr apply t) e.stop = true ∧
      e.found (es.foldr apply t) = e.found t := by
  rw [foldr_apply_eq_weave hes]
  generalize weave replacement t e.stop es = w
  have hstart := Text.bytes_takeBytes he.start_boundary
  have hstop := Text.bytes_takeBytes he.stop_boundary
  have hspan := Text.takeBytes_slice he.start_boundary he.start_le_stop
  refine ⟨?_, ?_, ?_⟩
  · rw [Text.isBoundary_iff]
    refine ⟨Text.takeBytes e.start t, e.found t ++ w, ?_, hstart⟩
    rw [← hspan, List.append_assoc]
    rfl
  · rw [Text.isBoundary_iff]
    exact ⟨Text.takeBytes e.stop t, w, rfl, hstop⟩
  · have h := Text.slice_append (Text.takeBytes e.start t) (e.found t) w
    rw [found] at h ⊢
    rwa [hspan, hstart, hstop] at h

end Edit

open Edit

theorem forM_check_eq_ok_iff {t : Text} {edits : List Edit} :
    edits.forM (check t) = .ok () ↔ ∀ e ∈ edits, e.Fits t := by
  induction edits with
  | nil => simp [pure, Except.pure]
  | cons e es ih =>
      rw [List.forM_eq_forM, List.forM_cons, List.forall_mem_cons, ← check_eq_ok_iff, ← ih]
      cases he : check t e with
      | ok u => simp [bind, Except.bind]
      | error err => simp [bind, Except.bind]

theorem forM_check_eq_error_iff {t : Text} {edits : List Edit} {err : EditError} :
    edits.forM (check t) = .error err ↔ ∃ before e after, edits = before ++ e :: after ∧
      (∀ a ∈ before, a.Fits t) ∧ e.check t = .error err := by
  constructor
  · intro h
    induction edits with
    | nil => cases h
    | cons e es ih =>
        cases he : check t e with
        | error err' =>
            rw [List.forM_eq_forM, List.forM_cons, he] at h
            obtain rfl : err' = err := by simpa [bind, Except.bind] using h
            exact ⟨[], e, es, rfl, by simp, he⟩
        | ok u =>
            rw [List.forM_eq_forM, List.forM_cons, he] at h
            obtain ⟨before, a, after, rfl, hbefore, ha⟩ := ih h
            refine ⟨e :: before, a, after, rfl, ?_, ha⟩
            intro b hb
            rcases List.mem_cons.1 hb with rfl | hb
            · exact check_eq_ok_iff.1 he
            · exact hbefore b hb
  · rintro ⟨before, e, after, rfl, hbefore, he⟩
    have hb := forM_check_eq_ok_iff.2 hbefore
    rw [List.forM_eq_forM] at hb ⊢
    rw [List.forM_append, hb, List.forM_cons, he]
    rfl

theorem laid_ordered {t : Text} {edits : List Edit} (hfit : ∀ e ∈ edits, e.Fits t)
    (hchain : (ordered edits).IsChain Before) : Laid t 0 (ordered edits) :=
  laid_of_isChain (fun e he => hfit e ((perm_ordered edits).mem_iff.1 he)) hchain
    (Text.isBoundary_zero t) (fun _ _ => Nat.zero_le _)

theorem splice_eq_ok_iff {t after : Text} {edits : List Edit} :
    splice t edits = .ok after ↔ (∀ e ∈ edits, e.Fits t) ∧ (ordered edits).IsChain Before ∧
      after = weave replacement t 0 (ordered edits) := by
  rw [← forM_check_eq_ok_iff, ← lastOverlap?_eq_none_iff]
  unfold splice
  cases hcheck : edits.forM (check t) with
  | error err => simp [bind, Except.bind]
  | ok u =>
      cases hlast : lastOverlap? (ordered edits) with
      | some n => simp [bind, Except.bind]
      | none =>
          have hlaid := laid_ordered (forM_check_eq_ok_iff.1 hcheck)
            (lastOverlap?_eq_none_iff.1 hlast)
          have hweave := foldr_apply_eq_weave hlaid
          rw [Text.takeBytes_zero, List.nil_append] at hweave
          simp [bind, Except.bind, hweave, eq_comm]

theorem laid_of_splice {t after : Text} {edits : List Edit} (h : splice t edits = .ok after) :
    Laid t 0 (ordered edits) ∧ after = weave replacement t 0 (ordered edits) := by
  obtain ⟨hfit, hchain, hafter⟩ := splice_eq_ok_iff.1 h
  exact ⟨laid_ordered hfit hchain, hafter⟩

theorem splice_of_misfit {t : Text} {before after : List Edit} {e : Edit} {err : EditError}
    (hbefore : ∀ a ∈ before, a.Fits t) (he : e.check t = .error err) :
    splice t (before ++ e :: after) = .error err := by
  rw [splice, forM_check_eq_error_iff.2 ⟨before, e, after, rfl, hbefore, he⟩]
  rfl

theorem fits_of_splice_overlap {t : Text} {edits : List Edit} {n : Nat}
    (h : splice t edits = .error (.overlap n)) : ∀ e ∈ edits, e.Fits t := by
  rw [← forM_check_eq_ok_iff]
  unfold splice at h
  cases hcheck : edits.forM (check t) with
  | ok u => rfl
  | error err =>
      rw [hcheck] at h
      obtain rfl : err = .overlap n := by simpa [bind, Except.bind] using h
      obtain ⟨before, e, after, rfl, hbefore, he⟩ := forM_check_eq_error_iff.1 hcheck
      exact absurd he (check_ne_overlap t e n)

/-- Splicing succeeds just if every edit fits the text and, by their starts, each ends before the
next begins, and then it weaves their new texts into the gaps. No edit lands anywhere else than
where it was meant to. The first edit that does not fit is what the error tells, and an overlap is
told only where all fit. -/
theorem splice_weaves_or_tells_first_misfit (t : Text) (edits : List Edit) :
    Arranged edits (ordered edits) ∧
    (∀ after, splice t edits = .ok after ↔
      (∀ e ∈ edits, e.Fits t) ∧ (ordered edits).IsChain Before ∧
        after = weave replacement t 0 (ordered edits)) ∧
    (∀ earlier e later, (∃ after, splice t edits = .ok after) →
      ordered edits = earlier ++ e :: later →
      Text.isBoundary (later.foldr apply t) e.start = true ∧
        Text.isBoundary (later.foldr apply t) e.stop = true ∧
        e.found (later.foldr apply t) = e.found t) ∧
    (∀ before e after, edits = before ++ e :: after → (∀ a ∈ before, a.Fits t) → ¬e.Fits t →
      ∃ err, e.check t = .error err ∧ splice t edits = .error err) ∧
    (∀ n, splice t edits = .error (.overlap n) → ∀ e ∈ edits, e.Fits t) := by
  refine ⟨arranged_ordered edits, fun after => splice_eq_ok_iff, ?_, ?_,
    fun n => fits_of_splice_overlap⟩
  · rintro earlier e later ⟨after, h⟩ hsplit
    have hlaid := (laid_of_splice h).1
    rw [hsplit] at hlaid
    obtain ⟨he, hlater⟩ := hlaid.tail_of_append
    exact he.found_foldr_apply hlater
  · rintro before e after rfl hbefore he
    cases hcheck : e.check t with
    | ok u => exact absurd (check_eq_ok_iff.1 hcheck) he
    | error err => exact ⟨err, rfl, splice_of_misfit hbefore hcheck⟩

theorem splice_keeps_order_of_insertions :
    splice "aé" [.insert "a".toList "1", .insert "a".toList "2"] = .ok ("a12é" : Text) ∧
      splice "aé" [.insert "a".toList "1", ⟨2, 3, "2", .text []⟩, ⟨0, 9, "3", .text []⟩] =
        .error (.boundary 2) := by
  have hfirst : (Edit.insert "a".toList "1").Fits "aé" := check_eq_ok_iff.1 (by decide)
  have hsecond : (Edit.insert "a".toList "2").Fits "aé" := check_eq_ok_iff.1 (by decide)
  have hmisfit : Edit.check "aé" ⟨2, 3, "2", .text []⟩ = .error (.boundary 2) := by decide
  constructor
  · refine ((splice_weaves_or_tells_first_misfit _ _).2.1 _).2 ?_
    rw [ordered, List.mergeSort_of_pairwise (by decide)]
    exact ⟨by simpa using ⟨hfirst, hsecond⟩, by decide, by decide⟩
  · have hne : ¬Edit.Fits "aé" ⟨2, 3, "2", .text []⟩ := by
      intro h
      rw [check_eq_ok_iff.2 h] at hmisfit
      cases hmisfit
    obtain ⟨err, herr, hsplice⟩ := (splice_weaves_or_tells_first_misfit "aé" _).2.2.2.1
      [.insert "a".toList "1"] _ [⟨0, 9, "3", .text []⟩] rfl (by simpa using hfirst) hne
    rw [hmisfit] at herr
    cases herr
    exact hsplice

end Scaffold
