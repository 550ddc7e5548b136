import Scaffold.Proofs.Insertion.Outcomes
import Scaffold.Proofs.Recipe.Marks

namespace Scaffold

namespace Wire

variable {w : Wire} {t t' : Tree} {o : Outcome × Option Text}

theorem run_eq_ok_iff : w.run false t = .ok o t' ↔
    (w.styled t).apply w.file false t = .ok o.1 t' ∧ o.2 = manualStep? (w.styled t) o.1 := by
  constructor
  · intro h
    obtain ⟨s, u, hget, h⟩ := Disk.bind_eq_ok_iff.1 h
    cases hget
    obtain ⟨o', v, happly, h⟩ := Disk.bind_eq_ok_iff.1 h
    cases h
    exact ⟨happly, rfl⟩
  · rintro ⟨happly, hstep⟩
    refine Disk.bind_eq_ok_iff.2 ⟨t, t, rfl, Disk.bind_eq_ok_iff.2 ⟨o.1, t', happly, ?_⟩⟩
    rw [← hstep]
    rfl

theorem markers_styled (w : Wire) (t : Tree) : (w.styled t).markers = w.insertion.markers := by
  unfold styled
  split
  · split
    · rfl
    · rfl
  · rfl

theorem isPresent_styled (w : Wire) (t u : Tree) (c : Text) :
    (w.styled t).isPresent c = (w.styled u).isPresent c := by
  rw [Insertion.isPresent, Insertion.isPresent, markers_styled, markers_styled]

theorem run_of_isPresent {c : Text} (hread : t.readText w.file = .ok c)
    (hpresent : (w.styled t).isPresent c = true) :
    w.run false t = .ok (.alreadyApplied w.file, none) t :=
  run_eq_ok_iff.2 ⟨Insertion.apply_of_isPresent hread hpresent, rfl⟩

theorem exists_run_again (hmark : w.HasSturdyMark) (h : w.run false t = .ok o t') :
    ∃ o', w.run false t' = .ok o' t' ∧ o'.1.isChange = false := by
  obtain ⟨happly, -⟩ := run_eq_ok_iff.1 h
  cases ho : o.1.isChange with
  | false =>
      obtain ⟨-, hwrite⟩ := Insertion.apply_eq_ok_iff.1 happly
      rw [Outcome.write_of_not_isChange ho] at hwrite
      cases hwrite
      exact ⟨o, h, ho⟩
  | true =>
      obtain ⟨before, after, edits, anchor, missed, hplan, hsplice, hread⟩ :=
        Insertion.exists_of_isChange happly ho
      -- The style may have changed with the text, but the marks have not.
      have hpresent := Insertion.isPresent_of_plan (hmark.styled t).isMarked hplan hsplice
      rw [isPresent_styled w t t'] at hpresent
      exact ⟨_, run_of_isPresent hread hpresent, rfl⟩

end Wire

/-- Insertions are idempotent. A plan that is carried out comes to a text in which the insertion is
found, if the fragment has one of the marks; and the insertions of all recipes are of this kind, so
that carrying one out again leaves the tree as it is. -/
theorem insertions_are_idempotent :
    (∀ (i : Insertion) (t after : Text) (edits : List Edit) (anchor : Anchor)
      (missed : Option Anchor), i.IsMarked → i.plan t = .edits edits anchor missed →
      splice t edits = .ok after → i.plan after = .present i.presentReason) ∧
    ∀ (p : Product) (l : Layout) (n : Name), ∃ r, p.recipe l n = .ok r ∧ ∀ w ∈ r.wires,
      (∀ t, (w.styled t).IsMarked) ∧ ∀ (t t' : Tree) (o : Outcome × Option Text),
        w.run false t = .ok o t' → ∃ o', w.run false t' = .ok o' t' ∧ o'.1.isChange = false := by
  constructor
  · intro i t after edits anchor missed hmarked hplan hsplice
    exact Insertion.plan_of_isPresent (Insertion.isPresent_of_plan hmarked hplan hsplice)
  · intro p l n
    obtain ⟨r, hr, hsound⟩ := p.exists_recipe l n
    refine ⟨r, hr, fun w hw => ?_⟩
    obtain ⟨-, hmark⟩ := hsound.wires w hw
    exact ⟨fun t => (hmark.styled t).isMarked, fun t t' o => Wire.exists_run_again hmark⟩

theorem insertions_are_idempotent_schema :
    Insertion.plan ⟨.schemas, ["const A "], [], "const A = z;\n"⟩ "const A = z;\n" =
      .present "schema file already contains const A " := by
  have hmarked : Insertion.IsMarked ⟨.schemas, ["const A "], [], "const A = z;\n"⟩ :=
    ⟨_, List.mem_cons_self, by decide⟩
  have hplan : Insertion.plan ⟨.schemas, ["const A "], [], "const A = z;\n"⟩ [] =
      .edits [.insert [] "const A = z;\n"] .textEnd none := by decide
  have hsplice : splice [] [.insert [] "const A = z;\n"] = .ok ("const A = z;\n" : Text) := by
    rw [splice, Edit.ordered, List.mergeSort_singleton]
    rfl
  exact insertions_are_idempotent.1 _ _ _ _ _ _ hmarked hplan hsplice

end Scaffold
