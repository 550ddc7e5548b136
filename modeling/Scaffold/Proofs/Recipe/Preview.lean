import Scaffold.Proofs.Recipe.Account
import Scaffold.Proofs.Tree.Looks

namespace Scaffold

theorem Emission.keeps_emit_dry (P : Tree → Prop) (e : Emission) : Disk.Keeps P (e.emit true) :=
  .pure ()

theorem Wire.keeps_run_dry (P : Tree → Prop) (w : Wire) : Disk.Keeps P (w.run true) := by
  refine .bind (fun _ h => h) fun t => .bind ?_ fun o => .pure _
  exact .bind (.look _) fun o => .pure _

theorem Recipe.keeps_run_dry (P : Tree → Prop) (r : Recipe) : Disk.Keeps P (r.run true) := by
  refine .bind (.adaptExcept ?_ _) fun _ => .bind (.adaptExcept ?_ _) fun done => .pure _
  · exact .bind (Emission.keeps_guards P r.guards) fun _ => .forM fun e _ => e.keeps_emit_dry P
  · exact .mapM fun w _ => w.keeps_run_dry P

theorem Product.keeps_generate_dry (P : Tree → Prop) (p : Product) (l : Layout) (raw : Text) :
    Disk.Keeps P (p.generate l raw true) :=
  .bind (.look _) fun _ => .bind (.look _) fun r => r.keeps_run_dry P

namespace Tree

variable {t u : Tree} {es : List Emission}

theorem written_of_ne {l : Location}
    (h : ∀ e ∈ es, ∀ s, t.locate e.path = .ok s → s.location ≠ l)
    (files : Location → Option Contents) : t.written es files l = files l := by
  induction es generalizing files with
  | nil => rfl
  | cons e es ih =>
      obtain ⟨he, hes⟩ := List.forall_mem_cons.1 h
      rw [written]
      cases hs : t.locate e.path with
      | error => exact ih hes _
      | ok s => exact (ih hes _).trans (if_neg (Ne.symm (he s hs)))

theorem file?_eq_some_iff {l : Location} {c : Contents} :
    t.file? l = some c ↔ t.get? l = some (.file c) := by
  rw [file?]
  split
  · next c' h => simp [h]
  · next h => simpa using fun hc => h c hc

theorem Wrote.readText {p : Path} {c : Text} (h : t.Wrote es u) (ht : t.IsRooted) (hp : p.Dotless)
    (hes : ∀ e ∈ es, e.path.Dotless ∧ t.place e.path ≠ t.place p) (hread : u.readText p = .ok c) :
    t.readText p = .ok c := by
  refine h.grown.readText ht hp (fun hfile => ?_) hread
  rw [← file?_eq_some_iff, h.files, written_of_ne, file?_eq_some_iff] at hfile
  · exact hfile
  · intro e he s hs
    obtain ⟨hdotless, hne⟩ := hes e he
    obtain ⟨s', hs', hnamed, -⟩ := h.lands e he
    obtain rfl : s = s' := Except.ok.inj (hs.symm.trans hs')
    rwa [location_eq_place hdotless hs hnamed, h.grown.place]

end Tree

theorem Insertion.of_outcome_ok {i : Insertion} {file : Path} {x : Except FileError Text}
    {o : Outcome} (h : i.outcome file x = .ok o) : (∃ c, x = .ok c) ∨ x = .error .notFound := by
  unfold outcome at h
  split at h
  · exact .inl ⟨_, rfl⟩
  · exact .inr rfl
  · cases h

theorem Outcome.paths_writings (o : Outcome) : (o.writings.map (·.path)).Sublist [o.file] := by
  cases o with
  | applied => exact .refl _
  | created => exact .refl _
  | alreadyApplied => exact List.nil_sublist _
  | skipped => exact List.nil_sublist _

namespace Wire

variable {w : Wire} {t u t' : Tree} {o : Outcome × Option Text}

theorem run_dry_of_outcome
    (hout : (w.styled t).outcome w.file (t.readText w.file) = .ok o.1)
    (hstep : o.2 = manualStep? (w.styled t) o.1) : w.run true t = .ok o t := by
  refine Disk.bind_eq_ok_iff.2 ⟨t, t, rfl, Disk.bind_eq_ok_iff.2 ⟨o.1, t, ?_, ?_⟩⟩
  · exact Disk.bind_eq_ok_iff.2 ⟨o.1, t, Disk.look_eq_ok_iff.2 ⟨hout, rfl⟩, rfl⟩
  · rw [← hstep]
    rfl

theorem styled_congr (h : t.readText w.file = u.readText w.file) : w.styled t = w.styled u := by
  rw [styled, styled, h]

theorem readText_of_run {es : List Emission} (hw : t.Wrote es u) (ht : t.IsRooted)
    (hfile : w.file.Dotless)
    (hes : ∀ e ∈ es, e.path.Dotless ∧ t.place e.path ≠ t.place w.file)
    (h : w.run false u = .ok o t') : t.readText w.file = u.readText w.file := by
  obtain ⟨happly, -⟩ := run_eq_ok_iff.1 h
  obtain ⟨hout, -⟩ := Insertion.apply_eq_ok_iff.1 happly
  rcases Insertion.of_outcome_ok hout with ⟨c, hc⟩ | hmissing
  · rw [hc, hw.readText ht hfile hes hc]
  · rw [hmissing, hw.grown.notFound hmissing]

theorem run_dry_of_run (hread : t.readText w.file = u.readText w.file)
    (h : w.run false u = .ok o t') : w.run true t = .ok o t := by
  obtain ⟨happly, hstep⟩ := run_eq_ok_iff.1 h
  obtain ⟨hout, -⟩ := Insertion.apply_eq_ok_iff.1 happly
  have hstyled := styled_congr hread
  rw [← hread] at hout
  rw [← hstyled] at hout hstep
  exact run_dry_of_outcome hout hstep

theorem mapM_dry_of_mapM {ws : List Wire} {done : List (Outcome × Option Text)}
    {es : List Emission} (ht : t.IsRooted) (hw : t.Wrote es u)
    (hes : ∀ e ∈ es, e.path.Dotless) (hws : ∀ w ∈ ws, w.file.Dotless)
    (hapart : ((es.map (·.path) ++ ws.map (·.file)).map t.place).Nodup)
    (h : ws.mapM (Wire.run false) u = .ok done t') : ws.mapM (Wire.run true) t = .ok done t := by
  -- The writings so far and the files still to come are all in different places.
  induction ws generalizing u es done with
  | nil => cases h; rfl
  | cons w ws ih =>
      rw [List.mapM_cons] at h ⊢
      obtain ⟨o, v, hrun, hrest⟩ := Disk.bind_eq_ok_iff.1 h
      obtain ⟨os, x, hmap, hpure⟩ := Disk.bind_eq_ok_iff.1 hrest
      cases hpure
      obtain ⟨hfile, hws⟩ := List.forall_mem_cons.1 hws
      obtain ⟨hwrote, htells⟩ := wrote_run hrun
      have hread : t.readText w.file = u.readText w.file := by
        refine readText_of_run hw ht hfile (fun e he => ⟨hes e he, ?_⟩) hrun
        rw [List.map_append, List.nodup_append] at hapart
        exact hapart.2.2 _ (List.mem_map_of_mem (List.mem_map_of_mem he)) _ (by simp)
      have hdry := run_dry_of_run hread hrun
      refine Disk.bind_eq_ok_iff.2 ⟨o, t, hdry, Disk.bind_eq_ok_iff.2 ⟨os, t, ?_, rfl⟩⟩
      have hpaths := htells.1 ▸ Outcome.paths_writings o.1
      refine ih (hw.trans hwrote.toWrote) ?_ hws ?_ hmap
      · intro e he
        rcases List.mem_append.1 he with he | he
        · exact hes e he
        · have hpath := hpaths.subset (List.mem_map_of_mem he)
          rwa [List.mem_singleton.1 hpath]
      · refine hapart.sublist (List.Sublist.map _ ?_)
        rw [List.map_append, List.append_assoc]
        exact (List.Sublist.refl _).append (hpaths.append (.refl _))

end Wire

namespace Recipe

variable {l : Layout} {r : Recipe} {t t' : Tree}

/-- The paths by which a recipe writes: those of its new files and those of the files that take
insertions. -/
def targets (r : Recipe) : List Path := r.files.map (·.path) ++ r.wires.map (·.file)

theorem IsSound.dotless_files (hr : r.IsSound l) (hl : l.IsDotless) :
    ∀ e ∈ r.files, e.path.Dotless := by
  intro e he
  obtain ⟨g, hg, hpath⟩ := hr.files e he
  obtain ⟨f, name, hname, rfl⟩ := hr.guards g hg
  have hguard := hl.join f hname
  rcases hpath with hpath | ⟨file, hfile, hpath⟩
  · rwa [hpath]
  · rw [hpath]
    exact Path.dotless_join hguard (Path.dotless_of_isSegment hfile)

theorem emissions_dry (hfree : ∀ g ∈ r.guards, t.has g = false) : (do
    r.guards.forM Emission.guard
    r.files.forM (Emission.emit true) : Disk EmitError Unit) t = .ok () t := by
  have hemit : ∀ es : List Emission, es.forM (Emission.emit true) t = .ok () t := by
    intro es
    induction es with
    | nil => rfl
    | cons e es ih => exact Disk.bind_eq_ok_iff.2 ⟨(), t, rfl, ih⟩
  exact Disk.bind_eq_ok_iff.2
    ⟨(), t, Emission.guards_eq_ok_iff.2 ⟨hfree, rfl⟩, hemit r.files⟩

theorem IsSound.run_dry_of_run {report : Report} (hr : r.IsSound l) (hl : l.IsDotless)
    (ht : t.IsRooted) (hapart : (r.targets.map t.place).Nodup)
    (h : r.run false t = .ok report t') :
    r.run true t = .ok { report with dryRun := true } t := by
  obtain ⟨u, done, hemit, hwires, rfl⟩ := run_eq_ok_iff.1 h
  obtain ⟨hfree, hwrote⟩ := wrote_emissions hemit
  have hdotless : ∀ w ∈ r.wires, w.file.Dotless := by
    intro w hw
    obtain ⟨⟨f, hfile⟩, -⟩ := hr.wires w hw
    exact hfile ▸ hl.path f
  have hdry := Wire.mapM_dry_of_mapM ht hwrote.toWrote (hr.dotless_files hl) hdotless hapart hwires
  refine Disk.bind_eq_ok_iff.2 ⟨(), t, Disk.adaptExcept_eq_ok_iff.2 (emissions_dry hfree), ?_⟩
  exact Disk.bind_eq_ok_iff.2 ⟨done, t, Disk.adaptExcept_eq_ok_iff.2 hdry, rfl⟩

end Recipe

/-- A dry run is a faithful preview. It never changes the tree; and where the files that a run writes
are all in different places and no path leads back up, a run that succeeds would have been told by
the dry run as it then was. -/
theorem dry_run_previews_run (p : Product) (l : Layout) (raw : Text) (t : Tree) :
    (p.generate l raw true).final t = t ∧
    (l.IsDotless → t.IsRooted →
      (∀ n r, Name.parse raw = .ok n → p.recipe l n = .ok r → (r.targets.map t.place).Nodup) →
      ∀ report t', p.generate l raw false t = .ok report t' →
        p.generate l raw true t = .ok { report with dryRun := true } t) := by
  refine ⟨p.keeps_generate_dry (· = t) l raw t rfl, fun hl ht hapart report t' h => ?_⟩
  obtain ⟨n, r, hparse, hrecipe, hrun⟩ := Product.generate_eq_ok_iff.1 h
  obtain ⟨r', hr', hsound⟩ := p.exists_recipe l n
  obtain rfl : r' = r := Except.ok.inj (hr'.symm.trans hrecipe)
  rw [Product.generate_of_ok hparse hrecipe]
  exact hsound.run_dry_of_run hl ht (hapart n r' hparse hrecipe) hrun

theorem dry_run_previews_run_page :
    let t : Tree := (Tree.empty []).put ["vite.config.ts".toList] (.file (.text "input: \x7b\x7d"))
    ∃ report t', (Product.page .static).generate (.default ⟨[]⟩) "order" false t = .ok report t' ∧
      report.outcomes.all (·.isChange) = true ∧
      (Product.page .static).generate (.default ⟨[]⟩) "order" true t =
        .ok { report with dryRun := true } t := by
  intro t
  have hparse := Name.parse_eq Name.check_order
  have hl : (Layout.default ⟨[]⟩).IsDotless := ⟨by decide, fun f => by cases f <;> decide⟩
  have ht : t.IsRooted :=
    (Tree.isRooted_empty []).put_file (Tree.stands_nil _) (by decide) _
  obtain ⟨r, hrecipe, -⟩ := (Product.page .static).exists_recipe (.default ⟨[]⟩)
    ⟨"order", Name.check_order⟩
  have hrun : ((Product.recipe (.page .static) (.default ⟨[]⟩) ⟨"order", Name.check_order⟩).toOption.any
      fun r => (r.targets.map t.place).Nodup && ((r.run false).run' t).any fun report =>
        report.outcomes.all (·.isChange)) = true := by
    decide +kernel
  rw [hrecipe] at hrun
  obtain ⟨hapart, hrun⟩ := Bool.and_eq_true_iff.1 hrun
  have hpaths : ∀ n r, Name.parse "order" = .ok n →
      (Product.page .static).recipe (.default ⟨[]⟩) n = .ok r → (r.targets.map t.place).Nodup := by
    intro n r' hn hr'
    rw [hparse] at hn
    cases hn
    rw [hrecipe] at hr'
    cases hr'
    exact of_decide_eq_true hapart
  obtain ⟨report, hreport, hchanges⟩ := (Option.any_eq_true _ ((r.run false).run' t)).1 hrun
  obtain ⟨t', hreport⟩ := Disk.exists_ok_of_run hreport
  have hgenerate := (Product.generate_of_ok (t := t) hparse hrecipe).trans hreport
  exact ⟨report, t', hgenerate, hchanges,
    (dry_run_previews_run _ _ _ t).2 hl ht hpaths report t' hgenerate⟩

end Scaffold
