import Scaffold.Proofs.Recipe.Growth
import Scaffold.Proofs.Recipe.Writings

namespace Scaffold

namespace Insertion

variable {i : Insertion} {file : Path} {t : Tree} {o : Outcome}

theorem file_of_outcomeFor {c : Text} {creates : Bool} (h : i.outcomeFor file c creates = .ok o) :
    o.file = file := by
  unfold outcomeFor at h
  split at h
  · cases h; rfl
  · cases h; rfl
  split at h
  · cases h
  · cases h
    cases creates <;> rfl

theorem file_of_outcome {r : Except FileError Text} (h : i.outcome file r = .ok o) :
    o.file = file := by
  unfold outcome at h
  split at h
  · exact file_of_outcomeFor h
  split at h
  · cases h; rfl
  · exact file_of_outcomeFor h
  · cases h

theorem tells_of_outcome (h : i.outcome file (t.readText file) = .ok o) :
    o.Tells i file t := by
  refine ⟨file_of_outcome h, ?_⟩
  unfold outcome at h
  split at h
  · next c hread =>
      rcases of_outcomeFor h with hidle | ⟨after, edits, anchor, missed, w, hplan, hsplice, rfl⟩
      · cases o <;> trivial
      · exact ⟨hread, edits, anchor, missed, hplan, hsplice⟩
  · next hread =>
      split at h
      · cases h; trivial
      · next opening hmissing =>
          rcases of_outcomeFor h with hidle | ⟨after, edits, anchor, missed, w, hplan, hsplice, rfl⟩
          · cases o <;> trivial
          · exact ⟨hread, opening, edits, anchor, missed, hmissing, hplan, hsplice⟩
  · cases h

end Insertion

namespace Wire

variable {w : Wire} {ws : List Wire} {t t' : Tree} {o : Outcome × Option Text}

theorem wrote_run (h : w.run false t = .ok o t') :
    t.WroteOnly o.1.writings t' ∧ o.1.Tells (w.styled t) w.file t := by
  obtain ⟨happly, -⟩ := run_eq_ok_iff.1 h
  obtain ⟨hout, hwrite⟩ := Insertion.apply_eq_ok_iff.1 happly
  exact ⟨Outcome.wrote_write hwrite, Insertion.tells_of_outcome hout⟩

theorem wrote_mapM {done : List (Outcome × Option Text)}
    (h : ws.mapM (Wire.run false) t = .ok done t') :
    t.WroteOnly (done.flatMap (·.1.writings)) t' ∧ done.length = ws.length ∧
      ∀ (k : Nat) w o, ws[k]? = some w → done[k]? = some o →
        ∃ u, t.WroteOnly ((done.take k).flatMap (·.1.writings)) u ∧
          o.1.Tells (w.styled u) w.file u ∧
            u.WroteOnly ((done.drop k).flatMap (·.1.writings)) t' := by
  induction ws generalizing t done with
  | nil => cases h; exact ⟨.refl _, rfl, by simp⟩
  | cons w ws ih =>
      rw [List.mapM_cons] at h
      obtain ⟨o, u, hrun, hrest⟩ := Disk.bind_eq_ok_iff.1 h
      obtain ⟨os, v, hmap, hpure⟩ := Disk.bind_eq_ok_iff.1 hrest
      cases hpure
      obtain ⟨hwrote, htells⟩ := wrote_run hrun
      obtain ⟨hwrote', hlength, hall⟩ := ih hmap
      refine ⟨hwrote.trans hwrote', by simp [hlength], ?_⟩
      intro k w' o' hw' ho'
      cases k with
      | zero =>
          cases hw'
          cases ho'
          exact ⟨t, .refl t, htells, hwrote.trans hwrote'⟩
      | succ k =>
          obtain ⟨x, hx, htells', hrest⟩ := hall k w' o' hw' ho'
          exact ⟨x, hwrote.trans hx, htells', hrest⟩

end Wire

namespace Recipe

variable {l : Layout} {r : Recipe} {t t' : Tree}

theorem wrote_emissions (h : r.emissions t = .ok () t') :
    (∀ g ∈ r.guards, t.has g = false) ∧ t.WroteOnly r.files t' := by
  obtain ⟨_, u, hguards, hfiles⟩ := Disk.bind_eq_ok_iff.1 h
  obtain ⟨hfree, rfl⟩ := Emission.guards_eq_ok_iff.1 hguards
  exact ⟨hfree, Emission.wrote_forM hfiles⟩

/-- Where the guards find nothing, none of the new files is there. -/
theorem IsSound.has_eq_false (hr : r.IsSound l) (hfree : ∀ g ∈ r.guards, t.has g = false) :
    ∀ e ∈ r.files, t.has e.path = false := by
  intro e he
  obtain ⟨g, hg', hpath⟩ := hr.files e he
  rcases hpath with rfl | ⟨name, hname, hpath⟩
  · exact hfree _ hg'
  · rw [Bool.eq_false_iff]
    intro hhas
    obtain ⟨f, seg, hseg, rfl⟩ := hr.guards g hg'
    obtain ⟨entry, hstat⟩ := Tree.has_iff.1 hhas
    obtain ⟨s, hs, -, -⟩ := Tree.stat_eq_ok_iff.1 hstat
    rw [hpath] at hs
    obtain ⟨hsane, above, hleads, -⟩ := Tree.exists_leads_of_join hname hs
    have hg := Path.isSane_of_join hname (Path.join_ne_nil hseg) hsane
    have hdir : t.get? above = some .directory := by
      rw [Path.names_join hseg] at hleads
      obtain ⟨parent, -, hlast⟩ := hleads.append
      cases hlast with
      | here => exact absurd rfl hseg.here
      | up => exact absurd rfl hseg.up
      | down hhere hup hbytes hdir h => cases h; exact hdir
    have hfound := Tree.has_of_leads hg hleads hdir
    rw [hfree _ hg'] at hfound
    cases hfound

end Recipe

/-- A report is the account of its run. The tree afterwards is the tree before with the new files and
then, in order, what the outcomes tell written into it, and apart from directories above these files
nothing else is new or different; each outcome tells what was so when its turn came; and none of the
new files was there before. -/
theorem report_accounts_for_run {p : Product} {l : Layout} {raw : Text} {t t' : Tree}
    {report : Report} (h : p.generate l raw false t = .ok report t') :
    t.WroteOnly (report.files ++ report.outcomes.flatMap Outcome.writings) t' ∧
    (∃ n r, Name.parse raw = .ok n ∧ p.recipe l n = .ok r ∧ report.files = r.files ∧
      report.outcomes.length = r.wires.length ∧
      ∀ (k : Nat) w o, r.wires[k]? = some w → report.outcomes[k]? = some o →
        ∃ u, t.WroteOnly (report.files ++ (report.outcomes.take k).flatMap Outcome.writings) u ∧
          o.Tells (w.styled u) w.file u ∧
          u.WroteOnly ((report.outcomes.drop k).flatMap Outcome.writings) t') ∧
    ∀ e ∈ report.files, t.has e.path = false := by
  obtain ⟨n, r, hparse, hrecipe, hrun⟩ := Product.generate_eq_ok_iff.1 h
  obtain ⟨r', hr', hsound⟩ := p.exists_recipe l n
  obtain rfl : r' = r := Except.ok.inj (hr'.symm.trans hrecipe)
  obtain ⟨u, done, hemit, hwires, rfl⟩ := Recipe.run_eq_ok_iff.1 hrun
  obtain ⟨hfree, hfiles⟩ := Recipe.wrote_emissions hemit
  obtain ⟨hwrote, hlength, hall⟩ := Wire.wrote_mapM hwires
  refine ⟨?_, ⟨n, r', hparse, hrecipe, rfl, by simpa using hlength, ?_⟩, hsound.has_eq_false hfree⟩
  · rw [List.flatMap_map]
    exact hfiles.trans hwrote
  · intro k w o hw ho
    rw [List.getElem?_map] at ho
    obtain ⟨done', hdone, rfl⟩ := Option.map_eq_some_iff.1 ho
    obtain ⟨v, hv, htells, hrest⟩ := hall k w done' hw hdone
    refine ⟨v, ?_, htells, ?_⟩
    · rw [← List.map_take, List.flatMap_map]
      exact hfiles.trans hv
    · rwa [← List.map_drop, List.flatMap_map]

theorem report_accounts_for_run_page :
    let t : Tree := (Tree.empty []).put ["vite.config.ts".toList] (.file (.text "input: \x7b\x7d"))
    ∃ report t', (Product.page .static).generate (.default ⟨[]⟩) "order" false t = .ok report t' ∧
      report.outcomes.all (·.isChange) = true ∧
      t.WroteOnly (report.files ++ report.outcomes.flatMap Outcome.writings) t' := by
  intro t
  have hparse := Name.parse_eq Name.check_order
  obtain ⟨r, hrecipe, -⟩ := (Product.page .static).exists_recipe (.default ⟨[]⟩)
    ⟨"order", Name.check_order⟩
  have hrun : ((Product.recipe (.page .static) (.default ⟨[]⟩) ⟨"order", Name.check_order⟩).toOption.any
      fun r => ((r.run false).run' t).any fun report => report.outcomes.all (·.isChange)) = true := by
    decide +kernel
  rw [hrecipe] at hrun
  obtain ⟨report, hreport, hchanges⟩ := (Option.any_eq_true _ ((r.run false).run' t)).1 hrun
  obtain ⟨t', hreport⟩ := Disk.exists_ok_of_run hreport
  have hgenerate := (Product.generate_of_ok (t := t) hparse hrecipe).trans hreport
  exact ⟨report, t', hgenerate, hchanges, (report_accounts_for_run hgenerate).1⟩

end Scaffold
