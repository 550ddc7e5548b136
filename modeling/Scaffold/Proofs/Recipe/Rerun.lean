import Scaffold.Proofs.Recipe.Growth

namespace Scaffold

namespace Wire

variable {w : Wire} {t t' : Tree}

/-- The wire's file has a sturdy text with one of the insertion's marks. -/
def IsFirm (w : Wire) (t : Tree) : Prop :=
  ∃ m s, Text.Sturdy m ∧ (∃ mark ∈ w.insertion.markers, mark <:+: m) ∧
    t.locate w.file = .ok s ∧ s.slash = false ∧ t.Bears s.location m

theorem IsFirm.mono (h : w.IsFirm t) (ht : t.Grows t') : w.IsFirm t' := by
  obtain ⟨m, s, hm, hmark, hs, hslash, hbears⟩ := h
  exact ⟨m, s, hm, hmark, ht.grown.locate hs, hslash, ht.bears _ _ hm hbears⟩

theorem IsFirm.run (h : w.IsFirm t) : w.run false t = .ok (.alreadyApplied w.file, none) t := by
  obtain ⟨m, s, -, ⟨mark, hmem, hmark⟩, hs, hslash, hbears⟩ := h
  obtain ⟨c, hread, hm⟩ := hbears.exists_readText (.refl t) hs hslash
  refine run_of_isPresent hread (Insertion.isPresent_iff.2 ⟨mark, ?_, hmark.trans hm⟩)
  rwa [markers_styled]

theorem isFirm_of_run {o : Outcome × Option Text} (hmark : w.HasSturdyMark)
    (ht : t'.IsGrounded) (hfile : w.file.Dotless) (h : w.run false t = .ok o t')
    (ho : o.1.isChange = true) : w.IsFirm t' := by
  obtain ⟨happly, -⟩ := run_eq_ok_iff.1 h
  obtain ⟨before, after, edits, anchor, missed, hplan, hsplice, hread⟩ :=
    Insertion.exists_of_isChange happly ho
  obtain ⟨m, hm, hcore, mark, hmem, hmark⟩ := hmark.styled t
  have hafter := hcore.trans (Insertion.isInfix_core_of_plan hplan hsplice)
  obtain ⟨s, hs, hslash, hbears⟩ := Tree.bears_of_readText ht hfile hread hafter
  rw [markers_styled] at hmem
  exact ⟨m, s, hm, ⟨mark, hmem, hmark⟩, hs, hslash, hbears⟩

theorem isFirm_of_mapM {l : Layout} (hl : l.IsDotless) {ws : List Wire}
    {done : List (Outcome × Option Text)} (ht : t.IsGrounded)
    (hws : ∀ w ∈ ws, (∃ f, w.file = l.path f) ∧ w.HasSturdyMark)
    (h : ws.mapM (Wire.run false) t = .ok done t') (hdone : ∀ o ∈ done, o.1.isChange = true) :
    ∀ w ∈ ws, w.IsFirm t' := by
  induction ws generalizing t done with
  | nil => simp
  | cons w ws ih =>
      obtain ⟨⟨⟨f, hfile⟩, hmark⟩, hws⟩ := List.forall_mem_cons.1 hws
      rw [List.mapM_cons] at h
      obtain ⟨o, u, hrun, hrest⟩ := Disk.bind_eq_ok_iff.1 h
      obtain ⟨os, v, hmap, hpure⟩ := Disk.bind_eq_ok_iff.1 hrest
      cases hpure
      obtain ⟨ho, hos⟩ := List.forall_mem_cons.1 hdone
      have hdotless : w.file.Dotless := hfile ▸ hl.path f
      have hgrows : t.Grows u := Disk.of_final (w.grows_run hdotless) hrun
      have hu := ht.mono hgrows.grown
      have hrest : u.Grows _ :=
        Disk.of_final (Wire.keeps_mapM hl (fun w hw => (hws w hw).1) u u (.refl u)) hmap
      have hfirm := isFirm_of_run hmark hu hdotless hrun ho
      exact List.forall_mem_cons.2 ⟨hfirm.mono hrest, ih hu hws hmap hos⟩

theorem mapM_of_isFirm {ws : List Wire} (h : ∀ w ∈ ws, w.IsFirm t) :
    ws.mapM (Wire.run false) t = .ok (ws.map fun w => (.alreadyApplied w.file, none)) t := by
  induction ws with
  | nil => rfl
  | cons w ws ih =>
      obtain ⟨hw, hws⟩ := List.forall_mem_cons.1 h
      rw [List.mapM_cons]
      exact Disk.bind_eq_ok_iff.2 ⟨_, t, hw.run, Disk.bind_eq_ok_iff.2 ⟨_, t, ih hws, rfl⟩⟩

end Wire

namespace Emission

variable {t u : Tree} {e : Emission}

theorem keeps_extends (t : Tree) (e : Emission) : Disk.Keeps t.Extends (e.emit false) := by
  change Disk.Keeps t.Extends e.write
  refine .bind (.adaptExcept (.makeRoom e.path fun v w p _ hv hmake => ?_) _) fun _ =>
    .change fun v w hv hw => ?_
  · obtain ⟨s, -, -, hfree, rfl⟩ := Tree.of_makeDirectory hmake
    exact hv.trans (.put_directory hfree)
  · obtain ⟨s, -, -, -, hdir, rfl⟩ := Tree.of_write (mapError_eq_ok_iff.1 hw)
    exact hv.trans (.put_file hdir _)

theorem readText_of_emit (h : e.emit false t = .ok () u) : u.readText e.path = .ok e.contents := by
  change e.write t = .ok () u at h
  obtain ⟨_, v, -, hwrite⟩ := Disk.bind_eq_ok_iff.1 h
  exact Tree.readText_write (mapError_eq_ok_iff.1 (Disk.change_eq_ok_iff.1 hwrite))

theorem has_of_forM {es : List Emission} {g : Path} (ht : t.IsGrounded) (he : e ∈ es)
    (hg : ∀ v : Tree, v.IsGrounded → v.readText e.path = .ok e.contents → v.has g = true)
    (h : es.forM (Emission.emit false) t = .ok () u) : u.has g = true := by
  induction es generalizing t with
  | nil => simp at he
  | cons a es ih =>
      obtain ⟨_, v, hemit, hrest⟩ := Disk.bind_eq_ok_iff.1 h
      have hv := ht.mono (Disk.of_final (keeps_extends t a t (.refl t)) hemit)
      rcases List.mem_cons.1 he with rfl | he
      · -- From here on files are only added.
        have hkept : Disk.Keeps v.Extends (es.forM (Emission.emit false)) :=
          .forM fun a _ => keeps_extends v a
        exact (Disk.of_final (hkept v (.refl v)) hrest).has (hg v hv (readText_of_emit hemit))
      · exact ih hv he hrest

theorem forM_guard_of_has {guards : List Path} {g : Path} (hg : guards.head? = some g)
    (h : t.has g = true) : guards.forM guard t = .error (.collision g) t := by
  obtain ⟨gs, rfl⟩ := List.head?_eq_some_iff.1 hg
  refine Disk.bind_eq_error ?_
  rw [guard, Disk.look, if_pos h]

end Emission

namespace Recipe

variable {l : Layout} {r : Recipe} {t t' : Tree}

theorem IsSound.isFirm_of_run {report : Report} (hr : r.IsSound l) (hl : l.IsDotless)
    (ht : t.IsGrounded) (h : r.run false t = .ok report t')
    (hdone : ∀ o ∈ report.outcomes, o.isChange = true) : ∀ w ∈ r.wires, w.IsFirm t' := by
  obtain ⟨u, done, hemit, hwires, rfl⟩ := run_eq_ok_iff.1 h
  have hgrows : t.Grows u := Disk.of_final (hr.grows_emissions hl) hemit
  exact Wire.isFirm_of_mapM hl (ht.mono hgrows.grown) hr.wires hwires fun o ho =>
    hdone o.1 (List.mem_map_of_mem ho)

theorem run_of_isFirm (hguards : r.guards = []) (hfiles : r.files = [])
    (h : ∀ w ∈ r.wires, w.IsFirm t) : ∃ report, r.run false t = .ok report t ∧
      report.outcomes = r.wires.map fun w => .alreadyApplied w.file := by
  have hemit : r.emissions t = .ok () t := by
    rw [emissions, hguards, hfiles]
    rfl
  refine ⟨_, run_eq_ok_iff.2 ⟨t, _, hemit, Wire.mapM_of_isFirm h, rfl⟩, ?_⟩
  simp

theorem IsSound.has_of_run {report : Report} {g : Path} (hr : r.IsSound l) (hl : l.IsDotless)
    (ht : t.IsGrounded) (h : r.run false t = .ok report t') {e : Emission} (he : e ∈ r.files)
    (hg : ∀ v : Tree, v.IsGrounded → v.readText e.path = .ok e.contents → v.has g = true) :
    t'.has g = true := by
  obtain ⟨u, done, hemit, hwires, -⟩ := run_eq_ok_iff.1 h
  obtain ⟨_, v, hguards, hfiles⟩ := Disk.bind_eq_ok_iff.1 hemit
  obtain ⟨-, rfl⟩ := Emission.guards_eq_ok_iff.1 hguards
  have hu := Emission.has_of_forM ht he hg hfiles
  have hgrows : u.Grows t' :=
    Disk.of_final (Wire.keeps_mapM hl (fun w hw => (hr.wires w hw).1) u u (.refl u)) hwires
  exact hgrows.grown.has hu

theorem run_of_has {g : Path} (hg : r.guards.head? = some g) (h : t.has g = true) :
    r.run false t = .error (.emit (.collision g)) t := by
  have hguards := Emission.forM_guard_of_has hg h
  exact Disk.bind_eq_error (Disk.adaptExcept_eq_error (Disk.bind_eq_error hguards))

end Recipe

/-- Running again what has succeeded changes nothing, whatever was run in between. A table whose two
insertions were made is found in both files; a page or a webhook is refused for what is there. -/
theorem rerun_changes_nothing {l : Layout} (hl : l.IsDotless) {t : Tree} (ht : t.IsGrounded)
    (raw : Text) (runs : List (Product × Text)) :
    (∀ report t₁, Product.table.generate l raw false t = .ok report t₁ →
      (∀ o ∈ report.outcomes, o.isChange = true) →
      ∃ report', Product.table.generate l raw false (l.after runs t₁) =
          .ok report' (l.after runs t₁) ∧
        report'.outcomes =
          [.alreadyApplied (l.path .schemas), .alreadyApplied (l.path .shard)]) ∧
    (∀ k report t₁, (Product.page k).generate l raw false t = .ok report t₁ →
      ∃ n, Name.parse raw = .ok n ∧ ∀ k', (Product.page k').generate l raw false (l.after runs t₁) =
        .error (.emit (.collision (l.pageDir n))) (l.after runs t₁)) ∧
    (∀ report t₁, Product.webhook.generate l raw false t = .ok report t₁ →
      ∃ n, Name.parse raw = .ok n ∧ Product.webhook.generate l raw false (l.after runs t₁) =
        .error (.emit (.collision (l.webhookModule n))) (l.after runs t₁)) := by
  refine ⟨?_, ?_, ?_⟩
  · intro report t₁ h hdone
    obtain ⟨n, r, hparse, hrecipe, hrun⟩ := Product.generate_eq_ok_iff.1 h
    obtain ⟨r', hr', hguards, hfiles, hwires, hsound⟩ := Recipe.exists_table l n
    obtain rfl : r' = r := Except.ok.inj (hr'.symm.trans hrecipe)
    have hfirm := hsound.isFirm_of_run hl ht hrun hdone
    obtain ⟨report', hrun', houtcomes⟩ := Recipe.run_of_isFirm hguards hfiles fun w hw =>
      (hfirm w hw).mono (l.grows_after hl runs t₁)
    refine ⟨report', Product.generate_eq_ok_iff.2 ⟨n, r', hparse, hrecipe, hrun'⟩, ?_⟩
    have hmap := congrArg (List.map Outcome.alreadyApplied) hwires
    rw [houtcomes]
    rwa [List.map_map] at hmap
  · intro k report t₁ h
    obtain ⟨n, r, hparse, hrecipe, hrun⟩ := Product.generate_eq_ok_iff.1 h
    obtain ⟨r', hr', -, ⟨e, he, hpath⟩, hsound⟩ := Recipe.exists_page l n k
    obtain rfl : r' = r := Except.ok.inj (hr'.symm.trans hrecipe)
    have hindex : Text.IsSegment "index.html" := by decide
    -- The guard asks for the page's directory, which the run has made to put a file in it.
    have hhas := hsound.has_of_run hl ht hrun he fun v hv hread =>
      Tree.has_of_readText_join hv hindex (hl.join .clientDir n.isSegment_kebab)
        (Path.join_ne_nil n.isSegment_kebab) (hpath ▸ hread)
    refine ⟨n, hparse, fun k' => ?_⟩
    obtain ⟨again, hagain, hguard, -, -⟩ := Recipe.exists_page l n k'
    rw [Product.generate_of_ok (p := .page k') hparse hagain]
    exact Recipe.run_of_has hguard ((l.grows_after hl runs t₁).grown.has hhas)
  · intro report t₁ h
    obtain ⟨n, r, hparse, hrecipe, hrun⟩ := Product.generate_eq_ok_iff.1 h
    obtain ⟨r', hr', hguards, ⟨e, he, hpath⟩, hsound⟩ := Recipe.exists_webhook l n
    obtain rfl : r' = r := Except.ok.inj (hr'.symm.trans hrecipe)
    have hhas := hsound.has_of_run hl ht hrun he fun v _ hread =>
      Tree.has_of_readText (hpath ▸ hread)
    refine ⟨n, hparse, ?_⟩
    rw [Product.generate_of_ok (p := .webhook) hparse hr']
    exact Recipe.run_of_has (by rw [hguards]; rfl) ((l.grows_after hl runs t₁).grown.has hhas)

theorem rerun_changes_nothing_order : ∃ (l : Layout) (t t₁ : Tree) (report report' : Report),
    Product.table.generate l "order" false t = .ok report t₁ ∧
      (∀ o ∈ report.outcomes, o.isChange = true) ∧
      Product.table.generate l "order" false (l.after [(.webhook, "order"), (.table, "item")] t₁) =
        .ok report' (l.after [(.webhook, "order"), (.table, "item")] t₁) := by
  have hl : ((Layout.default ⟨[]⟩).override
      ⟨none, some ⟨"schemas.ts"⟩, some ⟨"shard.ts"⟩⟩).IsDotless :=
    ⟨by decide, fun f => by cases f <;> decide⟩
  have ht : ((Tree.empty []).put ["shard.ts"] (.file (.text
      "import type \x7b OrderRow \x7d from './schemas';\nclass Shard \x7b\n\x7d\n"))).IsGrounded :=
    (Tree.isGrounded_empty []).mono (.put_file (by decide) _)
  have hrun : (match Product.table.generate
        ((Layout.default ⟨[]⟩).override ⟨none, some ⟨"schemas.ts"⟩, some ⟨"shard.ts"⟩⟩)
        "order" false ((Tree.empty []).put ["shard.ts"] (.file (.text
          "import type \x7b OrderRow \x7d from './schemas';\nclass Shard \x7b\n\x7d\n"))) with
      | .ok report _ => report.outcomes.all (·.isChange)
      | .error _ _ => false) = true := by
    decide +kernel
  split at hrun
  · next report t₁ hgenerate =>
      rw [List.all_eq_true] at hrun
      obtain ⟨report', hagain, -⟩ := (rerun_changes_nothing hl ht "order"
        [(.webhook, "order"), (.table, "item")]).1 report t₁ hgenerate hrun
      exact ⟨_, _, t₁, report, report', hgenerate, hrun, hagain⟩
  · cases hrun

end Scaffold
