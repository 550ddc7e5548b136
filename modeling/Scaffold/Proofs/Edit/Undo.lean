import Scaffold.Proofs.Edit.Weave

namespace Scaffold.Edit

theorem Laid.isChain {t : Text} {n : Nat} {es : List Edit} (h : Laid t n es) :
    es.IsChain Before := by
  induction h with
  | nil => exact .nil
  | cons hn hle he hes ih =>
      cases hes with
      | nil => exact .singleton _
      | cons _ hle' _ _ => exact List.isChain_cons_cons.2 ⟨hle', ih⟩

theorem Laid.fits {t : Text} {n : Nat} {es : List Edit} (h : Laid t n es) :
    ∀ e ∈ es, e.Fits t ∧ n ≤ e.start := by
  induction h with
  | nil => simp
  | cons hn hle he hes ih =>
      intro b hb
      rcases List.mem_cons.1 hb with rfl | hb
      · exact ⟨he, hle⟩
      · have := he.start_le_stop
        have := (ih b hb).2
        exact ⟨(ih b hb).1, by omega⟩

theorem Laid.pairwise {t : Text} {n : Nat} {es : List Edit} (h : Laid t n es) :
    es.Pairwise fun a b => a.start ≤ b.start := by
  induction h with
  | nil => exact .nil
  | cons hn hle he hes ih =>
      refine List.pairwise_cons.2 ⟨?_, ih⟩
      intro b hb
      exact he.start_le_stop.trans (hes.fits b hb).2

theorem Laid.ordered_eq {t : Text} {n : Nat} {es : List Edit} (h : Laid t n es) :
    ordered es = es :=
  List.mergeSort_of_pairwise (h.pairwise.imp fun hab => by simpa using hab)

theorem splice_of_laid {t : Text} {es : List Edit} (h : Laid t 0 es) :
    splice t es = .ok (weave replacement t 0 es) := by
  rw [splice_eq_ok_iff, h.ordered_eq]
  exact ⟨fun e he => (h.fits e he).1, h.isChain, rfl⟩

/-- The edits that take back a weave of edits into `t` from byte `n` on, where the weave begins at
byte `m`. -/
def undoFrom (t : Text) : Nat → Nat → List Edit → List Edit
  | _, _, [] => []
  | n, m, e :: es =>
      let start := m + (e.start - n)
      let stop := start + Text.bytes e.replacement
      ⟨start, stop, e.found t, .text e.replacement⟩ :: undoFrom t e.stop stop es

def undo (t : Text) (edits : List Edit) : List Edit := undoFrom t 0 0 (ordered edits)

theorem replacement_undoFrom (t : Text) (n m : Nat) (es : List Edit) :
    (undoFrom t n m es).map (·.replacement) = es.map (·.found t) := by
  induction es generalizing n m with
  | nil => rfl
  | cons e es ih => rw [undoFrom, List.map_cons, List.map_cons, ih]

theorem laid_undoFrom {t : Text} {n : Nat} {es : List Edit} (h : Laid t n es) (p : Text) :
    Laid (p ++ weave replacement t n es) (Text.bytes p) (undoFrom t n (Text.bytes p) es) ∧
      (undoFrom t n (Text.bytes p) es).map (·.found (p ++ weave replacement t n es)) =
        es.map (·.replacement) ∧
      weave replacement (p ++ weave replacement t n es) (Text.bytes p)
        (undoFrom t n (Text.bytes p) es) = Text.dropBytes n t := by
  -- What is woven so far is `p`; each edit adds a gap and a new text to it.
  induction h generalizing p with
  | nil => exact ⟨.nil (Text.isBoundary_bytes_append _ _), rfl, Text.dropBytes_bytes_append _ _⟩
  | @cons n e es hn hle he hes ih =>
      have hgap : Text.bytes (Text.slice t n e.start) = e.start - n :=
        Text.bytes_slice hn he.start_boundary hle
      have hstart : Text.bytes p + (e.start - n) = Text.bytes (p ++ Text.slice t n e.start) := by
        rw [Text.bytes_append, hgap]
      obtain ⟨hlaid, hspans, hweave⟩ := ih (p ++ Text.slice t n e.start ++ e.replacement)
      have hwhole : p ++ weave replacement t n (e :: es) =
          p ++ Text.slice t n e.start ++ e.replacement ++ weave replacement t e.stop es := by
        simp only [weave, List.append_assoc]
      have hfound := Text.slice_append (p ++ Text.slice t n e.start) e.replacement
        (weave replacement t e.stop es)
      rw [undoFrom]
      simp only [hstart, ← Text.bytes_append, hwhole]
      refine ⟨.cons ?_ (by simp) ?_ hlaid, ?_, ?_⟩
      · rw [List.append_assoc, List.append_assoc]
        exact Text.isBoundary_bytes_append _ _
      · refine ⟨by simp, by simp, ?_, ?_, ?_⟩
        · rw [List.append_assoc (p ++ _)]
          exact Text.isBoundary_bytes_append _ _
        · exact Text.isBoundary_bytes_append _ _
        · exact beq_iff_eq.2 hfound
      · rw [List.map_cons, List.map_cons, hspans, found, hfound]
      · have hslice := Text.slice_append p (Text.slice t n e.start)
          (e.replacement ++ weave replacement t e.stop es)
        rw [← List.append_assoc] at hslice
        rw [weave, hslice, hweave, List.append_assoc, found,
          Text.slice_dropBytes he.start_boundary he.start_le_stop, Text.slice_dropBytes hn hle]

/-- A splice can be taken back: where new texts stand, the old ones are put again. -/
theorem splice_undo {t after : Text} {edits : List Edit} (h : splice t edits = .ok after) :
    (undo t edits).map (·.found after) = (ordered edits).map (·.replacement) ∧
      (undo t edits).map (·.replacement) = (ordered edits).map (·.found t) ∧
      splice after (undo t edits) = .ok t := by
  obtain ⟨hlaid, rfl⟩ := laid_of_splice h
  obtain ⟨hundo, hspans, hweave⟩ := laid_undoFrom hlaid []
  simp only [List.nil_append, Text.bytes_nil, Text.dropBytes_zero] at hundo hspans hweave
  refine ⟨hspans, replacement_undoFrom t 0 0 _, ?_⟩
  rw [undo, splice_of_laid hundo, hweave]

end Scaffold.Edit
