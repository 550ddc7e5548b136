import Scaffold.Proofs.Edit.Undo

namespace Scaffold

namespace Edit

/-- Neither of two edits begins before the other has ended. Two that start at one place are both
insertions. -/
structure Clear (a b : Edit) : Prop where
  left : a.start ≤ b.start → a.stop ≤ b.start
  right : b.start ≤ a.start → b.stop ≤ a.start

variable {t : Text} {a b e : Edit} {edits es : List Edit}

theorem Clear.symm (h : Clear a b) : Clear b a := ⟨h.right, h.left⟩

theorem clear_of_isInsertion (ha : a.isInsertion = true) (hb : b.isInsertion = true) : Clear a b := by
  have hstart : a.start = a.stop := beq_iff_eq.1 ha
  have hstart' : b.start = b.stop := beq_iff_eq.1 hb
  exact ⟨fun h => hstart ▸ h, fun h => hstart' ▸ h⟩

theorem isChain_ordered_of_clear (h : edits.Pairwise Clear) : (ordered edits).IsChain Before := by
  have hclear : (ordered edits).Pairwise Clear :=
    (perm_ordered edits).symm.pairwise h fun h => h.symm
  exact (List.Pairwise.and hclear (pairwise_ordered edits)).isChain.imp
    fun _ _ hab => hab.1.left hab.2

theorem pairwise_of_isChain (hfit : ∀ e ∈ es, e.Fits t) (h : es.IsChain Before) :
    es.Pairwise Before := by
  induction es with
  | nil => exact .nil
  | cons a es ih =>
      obtain ⟨ha, hes⟩ := List.forall_mem_cons.1 hfit
      have hrest := ih hes h.tail
      refine List.pairwise_cons.2 ⟨fun b hb => ?_, hrest⟩
      cases es with
      | nil => simp at hb
      | cons c es =>
          have hac : a.stop ≤ c.start := (List.isChain_cons_cons.1 h).1
          rcases List.mem_cons.1 hb with rfl | hb
          · exact hac
          · have hcb : c.stop ≤ b.start := (List.pairwise_cons.1 hrest).1 b hb
            have hc := (hes c List.mem_cons_self).start_le_stop
            omega

end Edit

open Edit

variable {t : Text} {edits : List Edit} {a b : Edit} {err : EditError}

theorem overlap_of_splice_eq_error (hfit : ∀ e ∈ edits, e.Fits t)
    (h : splice t edits = .error err) : ∃ n, err = .overlap n := by
  rw [splice, forM_check_eq_ok_iff.2 hfit] at h
  cases hlast : lastOverlap? (ordered edits) with
  | none =>
      rw [hlast] at h
      cases h
  | some n =>
      rw [hlast] at h
      cases h
      exact ⟨n, rfl⟩

theorem exists_splice_of_clear (hfit : ∀ e ∈ edits, e.Fits t) (hclear : edits.Pairwise Clear) :
    ∃ after, splice t edits = .ok after :=
  ⟨_, splice_eq_ok_iff.2 ⟨hfit, isChain_ordered_of_clear hclear, rfl⟩⟩

theorem before_or_before_of_splice {after : Text} (h : splice t edits = .ok after) (ha : a ∈ edits)
    (hb : b ∈ edits) (hne : a ≠ b) : Before a b ∨ Before b a := by
  obtain ⟨hfit, hchain, -⟩ := splice_eq_ok_iff.1 h
  have hmem : ∀ {e}, e ∈ ordered edits ↔ e ∈ edits := (perm_ordered edits).mem_iff
  have hpairs := pairwise_of_isChain (fun e he => hfit e (hmem.1 he)) hchain
  have hsymm : Std.Symm fun a b : Edit => Before a b ∨ Before b a := ⟨fun _ _ => Or.symm⟩
  have heither : (ordered edits).Pairwise fun a b => Before a b ∨ Before b a := hpairs.imp Or.inl
  exact heither.forall (hmem.2 ha) (hmem.2 hb) hne

end Scaffold
