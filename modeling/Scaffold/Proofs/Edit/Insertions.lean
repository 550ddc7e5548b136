import Scaffold.Proofs.Edit.Undo

namespace Scaffold.Edit

variable {p g old r new : Text} {es : List Edit}

theorem insert_eq_replace (before new : Text) : insert before new = replace before [] new := rfl

theorem fits_replace (before old after new : Text) :
    (replace before old new).Fits (before ++ old ++ after) := by
  have hstart : Text.isBoundary (before ++ old ++ after) (Text.bytes before) = true := by
    rw [List.append_assoc]
    exact Text.isBoundary_bytes_append before (old ++ after)
  have hstop := Text.isBoundary_bytes_append (before ++ old) after
  have hfound := Text.slice_append before old after
  rw [Text.bytes_append] at hstop hfound
  refine ⟨Nat.le_add_right _ _, by simp [replace], hstart, hstop, ?_⟩
  rw [found, replace, hfound]
  exact Expectation.holds_ofText old

theorem stop_replace (before old new : Text) :
    (replace before old new).stop = Text.bytes (before ++ old) := (Text.bytes_append _ _).symm

theorem laid_replace (h : Laid (p ++ g ++ old ++ r) (Text.bytes (p ++ g ++ old)) es) (new : Text) :
    Laid (p ++ g ++ old ++ r) (Text.bytes p) (replace (p ++ g) old new :: es) := by
  have hboundary : Text.isBoundary (p ++ g ++ old ++ r) (Text.bytes p) = true := by
    rw [List.append_assoc, List.append_assoc]
    exact Text.isBoundary_bytes_append p (g ++ (old ++ r))
  refine .cons hboundary (by simp [replace]) (fits_replace _ _ _ _) ?_
  rwa [stop_replace]

theorem weave_replace (p g old r new : Text) (es : List Edit) :
    weave replacement (p ++ g ++ old ++ r) (Text.bytes p) (replace (p ++ g) old new :: es) =
      g ++ new ++ weave replacement (p ++ g ++ old ++ r) (Text.bytes (p ++ g ++ old)) es := by
  have hgap := Text.slice_append p g (old ++ r)
  rw [← List.append_assoc] at hgap
  rw [weave, stop_replace, replace, hgap]

theorem ordered_swap {a b : Edit} (h : a.start < b.start) : ordered [b, a] = [a, b] := by
  have hsorted : [a, b].Pairwise fun a b => a.start ≤ b.start := by simp [Nat.le_of_lt h]
  apply ((perm_ordered [b, a]).trans (.swap a b [])).eq_of_pairwise _ (pairwise_ordered _) hsorted
  intro x y hx hy hxy hyx
  have hx' : x = b ∨ x = a := by simpa using (perm_ordered [b, a]).mem_iff.1 hx
  have hy' : y = a ∨ y = b := by simpa using hy
  rcases hx' with rfl | rfl <;> rcases hy' with rfl | rfl
  · omega
  · rfl
  · rfl
  · omega

end Scaffold.Edit

namespace Scaffold

open Edit

theorem splice_replace (before old after new : Text) :
    splice (before ++ old ++ after) [.replace before old new] = .ok (before ++ new ++ after) := by
  have hlaid : Laid ([] ++ before ++ old ++ after) (Text.bytes ([] ++ before ++ old)) [] :=
    .nil (Text.isBoundary_bytes_append _ _)
  have hweave := weave_replace [] before old after new []
  rw [weave, Text.dropBytes_bytes_append] at hweave
  rw [← hweave]
  exact splice_of_laid (laid_replace hlaid new)

theorem splice_nil (t : Text) : splice t [] = .ok t := by
  simp [splice, Edit.ordered, Edit.lastOverlap?]

theorem splice_insert (before after new : Text) :
    splice (before ++ after) [.insert before new] = .ok (before ++ new ++ after) := by
  simpa only [insert_eq_replace, List.append_nil] using splice_replace before [] after new

section Pairs

variable (before old between old' after new new' : Text)

theorem laid_pair : Laid (before ++ old ++ between ++ old' ++ after) 0
        [.replace before old new, .replace (before ++ old ++ between) old' new'] ∧
      weave replacement (before ++ old ++ between ++ old' ++ after) 0
          [.replace before old new, .replace (before ++ old ++ between) old' new'] =
        before ++ new ++ between ++ new' ++ after := by
  have hlaid := laid_replace
    (.nil (Text.isBoundary_bytes_append (before ++ old ++ between ++ old') after)) new'
  have hweave := weave_replace (before ++ old) between old' after new' []
  rw [weave, Text.dropBytes_bytes_append] at hweave
  have hfirst := @laid_replace [] before old (between ++ old' ++ after)
    [.replace (before ++ old ++ between) old' new']
  have hwhole := weave_replace [] before old (between ++ old' ++ after) new
    [.replace (before ++ old ++ between) old' new']
  simp only [List.nil_append, Text.bytes_nil, ← List.append_assoc] at hfirst hwhole
  refine ⟨hfirst hlaid new, ?_⟩
  rw [hwhole, hweave]
  simp

theorem splice_replace_pair :
    splice (before ++ old ++ between ++ old' ++ after)
        [.replace before old new, .replace (before ++ old ++ between) old' new'] =
      .ok (before ++ new ++ between ++ new' ++ after) := by
  obtain ⟨hlaid, hweave⟩ := laid_pair before old between old' after new new'
  rw [← hweave]
  exact splice_of_laid hlaid

variable {old between} in
theorem splice_replace_pair_swapped (h : old ++ between ≠ []) :
    splice (before ++ old ++ between ++ old' ++ after)
        [.replace (before ++ old ++ between) old' new', .replace before old new] =
      .ok (before ++ new ++ between ++ new' ++ after) := by
  obtain ⟨hlaid, hweave⟩ := laid_pair before old between old' after new new'
  have hlt : (Edit.replace before old new).start <
      (Edit.replace (before ++ old ++ between) old' new').start := by
    have hpos : Text.bytes (old ++ between) ≠ 0 := mt Text.bytes_eq_zero.1 h
    simp only [Edit.replace, Text.bytes_append] at hpos ⊢
    omega
  rw [splice_eq_ok_iff, ordered_swap hlt]
  refine ⟨?_, hlaid.isChain, hweave.symm⟩
  intro e he
  exact (hlaid.fits e (by simpa [or_comm] using he)).1

theorem splice_pair :
    splice (before ++ between ++ after) [.insert before new, .insert (before ++ between) new'] =
      .ok (before ++ new ++ between ++ new' ++ after) := by
  simpa only [insert_eq_replace, List.append_nil] using
    splice_replace_pair before [] between [] after new new'

variable {between} in
theorem splice_pair_swapped (h : between ≠ []) :
    splice (before ++ between ++ after) [.insert (before ++ between) new', .insert before new] =
      .ok (before ++ new ++ between ++ new' ++ after) := by
  simpa only [insert_eq_replace, List.append_nil] using
    @splice_replace_pair_swapped before [] between [] after new new' h

end Pairs

end Scaffold
