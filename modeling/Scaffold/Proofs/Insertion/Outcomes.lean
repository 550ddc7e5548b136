import Scaffold.Insertion.Apply
import Scaffold.Proofs.Tree.Actions
import Scaffold.Proofs.Tree.Growth

namespace Scaffold

namespace Insertion

variable {i : Insertion} {file : Path} {r : Except FileError Text} {o : Outcome}

/-- The outcomes that there are: nothing is changed, or else a plan was carried out in the text of
the file or in the text that it was created with. -/
inductive Yields (i : Insertion) (file : Path) (r : Except FileError Text) : Outcome → Prop
  | idle {o : Outcome} (h : o.isChange = false) : Yields i file r o
  | applied {before after : Text} {edits : List Edit} {anchor : Anchor} {missed : Option Anchor}
      (hr : r = .ok before) (hplan : i.plan before = .edits edits anchor missed)
      (hsplice : splice before edits = .ok after) (w : Option Warning) :
      Yields i file r (.applied file before after w)
  | created {opening after : Text} {edits : List Edit} {anchor : Anchor} {missed : Option Anchor}
      (hr : r = .error .notFound) (hplan : i.plan opening = .edits edits anchor missed)
      (hsplice : splice opening edits = .ok after) : Yields i file r (.created file after)

theorem of_outcomeFor {t : Text} {creates : Bool} (h : i.outcomeFor file t creates = .ok o) :
    o.isChange = false ∨ ∃ after edits anchor missed w, i.plan t = .edits edits anchor missed ∧
      splice t edits = .ok after ∧
      o = if creates then .created file after else .applied file t after w := by
  unfold outcomeFor at h
  split at h
  · cases h
    exact .inl rfl
  · cases h
    exact .inl rfl
  · next edits anchor missed hplan =>
      split at h
      · cases h
      · next after hsplice =>
          exact .inr ⟨after, edits, anchor, missed, _, hplan, hsplice, (Except.ok.inj h).symm⟩

theorem yields_of_outcome (h : i.outcome file r = .ok o) : Yields i file r o := by
  unfold outcome at h
  split at h
  · next t =>
      rcases of_outcomeFor h with hidle | ⟨after, edits, anchor, missed, w, hplan, hsplice, rfl⟩
      · exact .idle hidle
      · exact .applied rfl hplan hsplice w
  · split at h
    · cases h
      exact .idle rfl
    · next opening _ =>
        rcases of_outcomeFor h with hidle | ⟨after, edits, anchor, missed, w, hplan, hsplice, rfl⟩
        · exact .idle hidle
        · exact .created rfl hplan hsplice
  · cases h

end Insertion

namespace Outcome

variable {t t' : Tree}

theorem write_of_not_isChange {o : Outcome} (h : o.isChange = false) : o.write t = .ok () t := by
  cases o with
  | applied => cases h
  | created => cases h
  | alreadyApplied => rfl
  | skipped => rfl

theorem write_applied {file : Path} {before after : Text} {w : Option Warning}
    (h : (applied file before after w).write t = .ok () t') :
    t.replace file (.text after) = .ok t' := by
  rw [write] at h
  exact mapError_eq_ok_iff.1 (Disk.change_eq_ok_iff.1 h)

theorem write_created {file : Path} {after : Text}
    (h : (created file after).write t = .ok () t') :
    ∃ u, Disk.makeRoom file t = .ok () u ∧ u.replace file (.text after) = .ok t' := by
  obtain ⟨_, u, hroom, h⟩ := Disk.bind_eq_ok_iff.1 h
  exact ⟨u, Disk.adaptExcept_eq_ok_iff.1 hroom, mapError_eq_ok_iff.1 (Disk.change_eq_ok_iff.1 h)⟩

end Outcome

namespace Insertion

variable {i : Insertion} {file : Path} {o : Outcome} {t t' : Tree}

theorem apply_eq_ok_iff : i.apply file false t = .ok o t' ↔
    i.outcome file (t.readText file) = .ok o ∧ o.write t = .ok () t' := by
  constructor
  · intro h
    obtain ⟨o', u, hlook, hrest⟩ := Disk.bind_eq_ok_iff.1 h
    obtain ⟨ho, rfl⟩ := Disk.look_eq_ok_iff.1 hlook
    change (o'.write >>= fun _ => pure o') u = .ok o t' at hrest
    obtain ⟨_, v, hwrite, hdone⟩ := Disk.bind_eq_ok_iff.1 hrest
    cases hdone
    exact ⟨ho, hwrite⟩
  · rintro ⟨ho, hwrite⟩
    refine Disk.bind_eq_ok_iff.2 ⟨o, t, Disk.look_eq_ok_iff.2 ⟨ho, rfl⟩, ?_⟩
    change (o.write >>= fun _ => pure o) t = .ok o t'
    exact Disk.bind_eq_ok_iff.2 ⟨(), t', hwrite, rfl⟩

theorem exists_of_isChange (h : i.apply file false t = .ok o t') (ho : o.isChange = true) :
    ∃ before after edits anchor missed, i.plan before = .edits edits anchor missed ∧
      splice before edits = .ok after ∧ t'.readText file = .ok after := by
  obtain ⟨hout, hwrite⟩ := apply_eq_ok_iff.1 h
  cases yields_of_outcome hout with
  | idle hidle => rw [ho] at hidle; cases hidle
  | applied hr hplan hsplice w =>
      exact ⟨_, _, _, _, _, hplan, hsplice, Tree.readText_replace (Outcome.write_applied hwrite)⟩
  | created hr hplan hsplice =>
      obtain ⟨u, -, hu⟩ := Outcome.write_created hwrite
      exact ⟨_, _, _, _, _, hplan, hsplice, Tree.readText_replace hu⟩

theorem apply_of_isPresent {c : Text} (hread : t.readText file = .ok c)
    (hpresent : i.isPresent c = true) :
    i.apply file false t = .ok (.alreadyApplied file) t := by
  refine apply_eq_ok_iff.2 ⟨?_, rfl⟩
  rw [hread, outcome, outcomeFor, plan, if_pos hpresent]

end Insertion

end Scaffold
