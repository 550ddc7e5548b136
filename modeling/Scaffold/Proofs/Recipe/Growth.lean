import Scaffold.Proofs.Insertion.Outcomes
import Scaffold.Proofs.Recipe.Repeat
import Scaffold.Proofs.Tree.Bearing

namespace Scaffold

namespace Tree

variable {t t' u : Tree} {p : Path}

/-- Nothing is gone, and no sturdy text has left its file. -/
structure Grows (t t' : Tree) : Prop where
  grown : t.Extends t'
  bears : ∀ l m, Text.Sturdy m → t.Bears l m → t'.Bears l m

namespace Grows

theorem refl (t : Tree) : t.Grows t := ⟨.refl t, fun _ _ _ h => h⟩

theorem trans (h : t.Grows t') (h' : t'.Grows u) : t.Grows u :=
  ⟨h.grown.trans h'.grown, fun l m hm hl => h'.bears l m hm (h.bears l m hm hl)⟩

theorem makeDirectory (h : t.Grows t') (hmake : t'.makeDirectory p = .ok u) : t.Grows u := by
  refine ⟨h.grown.trans ?_, fun l m hm hl => (h.bears l m hm hl).makeDirectory hmake⟩
  obtain ⟨s, -, -, hfree, rfl⟩ := of_makeDirectory hmake
  exact .put_directory hfree

theorem put_file {l : Location} (h : t.Grows t') (hl : t'.get? l ≠ some .directory) (c : Contents)
    (hne : ∀ k m, Text.Sturdy m → t.Bears k m → k ≠ l) : t.Grows (t'.put l (.file c)) := by
  have hput := Extends.put_file hl c
  exact ⟨h.grown.trans hput, fun k m hm hk => (h.bears k m hm hk).put_of_ne hput (hne k m hm hk)⟩

theorem keeps_makeRoom (t : Tree) (p : Path) : Disk.Keeps t.Grows (Disk.makeRoom p) :=
  .makeRoom p fun _ _ _ _ h hmake => h.makeDirectory hmake

end Grows

end Tree

namespace Outcome

variable {t t' u : Tree} {file : Path}

theorem grows_replace {before after : Text} {i : Insertion} {edits : List Edit} {anchor : Anchor}
    {missed : Option Anchor} (hread : t.readText file = .ok before)
    (hplan : i.plan before = .edits edits anchor missed) (hsplice : splice before edits = .ok after)
    (h : t.replace file (.text after) = .ok t') : t.Grows t' := by
  obtain ⟨s, hs, hslash, hfile⟩ := Tree.readText_eq_ok_iff.1 hread
  obtain ⟨s', hs', hnamed, -, hdir, rfl⟩ := Tree.of_replace h
  obtain rfl : s = s' := Except.ok.inj (hs.symm.trans hs')
  have hput := Tree.Extends.put_file hdir (.text after)
  refine ⟨hput, fun l m hm hl => ?_⟩
  by_cases hne : l = s.location
  · -- The text that was read is the one that has `m`, and its plan leaves `m` whole.
    subst hne
    obtain ⟨c, hc, hmc⟩ := hl.text
    obtain rfl : c = before := by
      rw [hfile] at hc
      cases hc
      rfl
    exact ⟨hl.way.mono hput, after, Tree.get?_put_self t (Tree.location_ne_nil hs hnamed) _,
      Insertion.isInfix_of_plan hplan hsplice hm hmc⟩
  · exact hl.put_of_ne hput hne

theorem grows_create {after : Text} (hfile : file.Dotless)
    (hread : t.readText file = .error .notFound) (h : t.Grows u)
    (hreplace : u.replace file (.text after) = .ok t') : t.Grows t' := by
  obtain ⟨s, hs, hnamed, hslash, hdir, rfl⟩ := Tree.of_replace hreplace
  refine h.put_file hdir _ fun k m _ hk => ?_
  exact hk.ne_of_locate hfile hnamed hslash h.grown hs fun c hc => by rw [hread] at hc; cases hc

theorem grows_write {i : Insertion} {o : Outcome} (hfile : file.Dotless)
    (ho : Insertion.Yields i file (t.readText file) o) : t.Grows (o.write.final t) := by
  cases ho with
  | idle h =>
      rw [Disk.final_of_eq_ok (write_of_not_isChange h)]
      exact .refl t
  | applied hread hplan hsplice w =>
      rw [write]
      refine Disk.final_change (.refl t) fun u hu => ?_
      exact grows_replace hread hplan hsplice (mapError_eq_ok_iff.1 hu)
  | created hread hplan hsplice =>
      rw [write]
      refine Disk.Keeps.bind (.adaptExcept (Tree.Grows.keeps_makeRoom t file) _)
        (fun _ => .change fun u v hgrows hv => ?_) t (.refl t)
      exact grows_create hfile hread hgrows (mapError_eq_ok_iff.1 hv)

end Outcome

theorem Insertion.grows_apply {t : Tree} (i : Insertion) {file : Path} (hfile : file.Dotless) :
    t.Grows ((i.apply file false).final t) := by
  refine Disk.final_bind (by rw [Disk.final_look]; exact .refl t) fun o u hlook => ?_
  obtain ⟨ho, rfl⟩ := Disk.look_eq_ok_iff.1 hlook
  have hwrite := Outcome.grows_write hfile (yields_of_outcome ho)
  exact Disk.final_bind (f := fun _ => pure o) hwrite fun _ v hv => Disk.of_final hwrite hv

theorem Wire.grows_run {t : Tree} (w : Wire) (hfile : w.file.Dotless) :
    t.Grows ((w.run false).final t) := by
  refine Disk.final_bind (.refl t) fun s u hs => ?_
  cases hs
  have happly := (w.styled t).grows_apply (t := t) hfile
  exact Disk.final_bind happly fun o v hv => Disk.of_final happly hv

structure Layout.IsDotless (l : Layout) : Prop where
  root : l.root.Dotless
  paths : ∀ f, Path.Dotless ⟨l.settings.paths f⟩

namespace Layout.IsDotless

variable {l : Layout}

theorem path (h : l.IsDotless) (f : PathField) : (l.path f).Dotless :=
  Path.dotless_join h.root (h.paths f)

theorem join (h : l.IsDotless) (f : PathField) {name : Text} (hname : Text.IsSegment name) :
    ((l.path f).join ⟨name⟩).Dotless :=
  Path.dotless_join (h.path f) (Path.dotless_of_isSegment hname)

end Layout.IsDotless

theorem Wire.keeps_mapM {l : Layout} (hl : l.IsDotless) {ws : List Wire}
    (hws : ∀ w ∈ ws, ∃ f, w.file = l.path f) (t : Tree) :
    Disk.Keeps t.Grows (ws.mapM (Wire.run false)) := by
  refine .mapM fun w hw u hu => hu.trans (w.grows_run ?_)
  obtain ⟨f, hfile⟩ := hws w hw
  rw [hfile]
  exact hl.path f

namespace Emission

variable {t u : Tree}

theorem guard_eq_ok_iff {g : Path} : guard g t = .ok () u ↔ t.has g = false ∧ u = t := by
  rw [guard, Disk.look_eq_ok_iff]
  cases t.has g <;> simp

theorem guards_eq_ok_iff {guards : List Path} :
    guards.forM guard t = .ok () u ↔ (∀ g ∈ guards, t.has g = false) ∧ u = t := by
  induction guards with
  | nil => exact ⟨fun h => by cases h; simp, fun h => by rw [h.2]; rfl⟩
  | cons g guards ih =>
      constructor
      · intro h
        obtain ⟨_, v, hg, hrest⟩ := Disk.bind_eq_ok_iff.1 h
        obtain ⟨hfree, rfl⟩ := guard_eq_ok_iff.1 hg
        obtain ⟨hall, rfl⟩ := ih.1 hrest
        exact ⟨List.forall_mem_cons.2 ⟨hfree, hall⟩, rfl⟩
      · rintro ⟨hall, rfl⟩
        obtain ⟨hfree, hall⟩ := List.forall_mem_cons.1 hall
        exact Disk.bind_eq_ok_iff.2 ⟨(), u, guard_eq_ok_iff.2 ⟨hfree, rfl⟩, ih.2 ⟨hall, rfl⟩⟩

theorem keeps_guards (P : Tree → Prop) (guards : List Path) : Disk.Keeps P (guards.forM guard) :=
  .forM fun _ _ => .look _

theorem keeps_emit {e : Emission} (hne : ∀ (v : Tree) (s : Tree.Spot), t.Extends v →
      v.locate e.path = .ok s → s.named = true → s.slash = false →
      ∀ k m, Text.Sturdy m → t.Bears k m → k ≠ s.location) :
    Disk.Keeps t.Grows (e.emit false) := by
  change Disk.Keeps t.Grows e.write
  refine .bind (.adaptExcept (Tree.Grows.keeps_makeRoom t e.path) _) fun _ => ?_
  refine .change fun v w hv hw => ?_
  obtain ⟨s, hs, hnamed, hslash, hdir, rfl⟩ := Tree.of_write (mapError_eq_ok_iff.1 hw)
  exact hv.put_file hdir _ (hne v s hv.grown hs hnamed hslash)

end Emission

namespace Recipe

variable {l : Layout} {r : Recipe} {t : Tree}

theorem IsSound.keeps_files (hr : r.IsSound l) (hl : l.IsDotless)
    (hfree : ∀ g ∈ r.guards, t.has g = false) :
    Disk.Keeps t.Grows (r.files.forM (Emission.emit false)) := by
  refine .forM fun e he => Emission.keeps_emit fun v s hv hs hnamed hslash k m _ hk => ?_
  obtain ⟨g, hg, hpath⟩ := hr.files e he
  obtain ⟨f, name, hname, hjoin⟩ := hr.guards g hg
  have hdotless : g.Dotless := hjoin ▸ hl.join f hname
  have hgfree : ¬t.has g = true := by simp [hfree g hg]
  rcases hpath with hpath | ⟨file, hfile, hpath⟩
  · rw [hpath] at hs
    exact hk.ne_of_locate hdotless hnamed hslash hv hs fun c hc =>
      hgfree (Tree.has_of_readText hc)
  · rw [hpath] at hs
    exact hk.ne_of_locate_join hfile hdotless (hjoin ▸ Path.join_ne_nil hname) hgfree hv hs

def emissions (r : Recipe) : Disk EmitError Unit := do
  r.guards.forM Emission.guard
  r.files.forM (Emission.emit false)

theorem IsSound.grows_emissions (hr : r.IsSound l) (hl : l.IsDotless) :
    t.Grows (r.emissions.final t) := by
  refine Disk.final_bind (Emission.keeps_guards t.Grows r.guards t (.refl t)) fun _ u hu => ?_
  obtain ⟨hfree, rfl⟩ := Emission.guards_eq_ok_iff.1 hu
  exact hr.keeps_files hl hfree u (.refl u)

theorem run_eq_ok_iff {report : Report} {t' : Tree} : r.run false t = .ok report t' ↔
    ∃ u done, r.emissions t = .ok () u ∧ r.wires.mapM (Wire.run false) u = .ok done t' ∧
      report = ⟨false, r.files, done.map Prod.fst, done.filterMap Prod.snd ++ r.followUps⟩ := by
  constructor
  · intro h
    obtain ⟨_, u, hemit, hrest⟩ := Disk.bind_eq_ok_iff.1 h
    obtain ⟨done, v, hwires, hdone⟩ := Disk.bind_eq_ok_iff.1 hrest
    cases hdone
    exact ⟨u, done, Disk.adaptExcept_eq_ok_iff.1 hemit, Disk.adaptExcept_eq_ok_iff.1 hwires, rfl⟩
  · rintro ⟨u, done, hemit, hwires, rfl⟩
    refine Disk.bind_eq_ok_iff.2 ⟨(), u, Disk.adaptExcept_eq_ok_iff.2 hemit, ?_⟩
    exact Disk.bind_eq_ok_iff.2 ⟨done, t', Disk.adaptExcept_eq_ok_iff.2 hwires, rfl⟩

theorem IsSound.grows_run (hr : r.IsSound l) (hl : l.IsDotless) :
    t.Grows ((r.run false).final t) := by
  have hemit := hr.grows_emissions (t := t) hl
  refine Disk.final_bind (by rwa [Disk.final_adaptExcept]) fun _ u hu => ?_
  have hgrown : t.Grows u := Disk.of_final hemit (Disk.adaptExcept_eq_ok_iff.1 hu)
  have hwires := Wire.keeps_mapM hl (fun w hw => (hr.wires w hw).1) t u hgrown
  refine Disk.final_bind (by rwa [Disk.final_adaptExcept]) fun done v hv => ?_
  exact Disk.of_final hwires (Disk.adaptExcept_eq_ok_iff.1 hv)

end Recipe

namespace Product

variable {l : Layout} {t t' : Tree}

theorem generate_of_ok {p : Product} {raw : Text} {n : Name} {r : Recipe} {dry : Bool}
    (hparse : Name.parse raw = .ok n) (hrecipe : p.recipe l n = .ok r) :
    p.generate l raw dry t = r.run dry t :=
  (Disk.bind_of_ok (Disk.look_eq_ok_iff.2 ⟨mapError_eq_ok_iff.2 hparse, rfl⟩)).trans
    (Disk.bind_of_ok (Disk.look_eq_ok_iff.2 ⟨hrecipe, rfl⟩))

theorem generate_eq_ok_iff {p : Product} {raw : Text} {report : Report} :
    p.generate l raw false t = .ok report t' ↔
      ∃ n r, Name.parse raw = .ok n ∧ p.recipe l n = .ok r ∧ r.run false t = .ok report t' := by
  constructor
  · intro h
    obtain ⟨n, u, hn, hrest⟩ := Disk.bind_eq_ok_iff.1 h
    obtain ⟨hparse, rfl⟩ := Disk.look_eq_ok_iff.1 hn
    obtain ⟨r, v, hr, hrun⟩ := Disk.bind_eq_ok_iff.1 hrest
    obtain ⟨hrecipe, rfl⟩ := Disk.look_eq_ok_iff.1 hr
    exact ⟨n, r, mapError_eq_ok_iff.1 hparse, hrecipe, hrun⟩
  · rintro ⟨n, r, hparse, hrecipe, hrun⟩
    rwa [generate_of_ok hparse hrecipe]

theorem grows_generate (hl : l.IsDotless) (p : Product) (raw : Text) :
    t.Grows ((p.generate l raw false).final t) := by
  refine Disk.final_bind (by rw [Disk.final_look]; exact .refl t) fun n u hn => ?_
  obtain ⟨-, rfl⟩ := Disk.look_eq_ok_iff.1 hn
  refine Disk.final_bind (by rw [Disk.final_look]; exact .refl u) fun r v hr => ?_
  obtain ⟨hrecipe, rfl⟩ := Disk.look_eq_ok_iff.1 hr
  obtain ⟨r', hr', hsound⟩ := p.exists_recipe l n
  obtain rfl : r' = r := Except.ok.inj (hr'.symm.trans hrecipe)
  exact hsound.grows_run hl

end Product

namespace Layout

/-- The tree after some more runs, of which each may fail. -/
def after (l : Layout) (runs : List (Product × Text)) (t : Tree) : Tree :=
  runs.foldl (fun t (p, raw) => (p.generate l raw false).final t) t

theorem grows_after {l : Layout} (hl : l.IsDotless) (runs : List (Product × Text)) (t : Tree) :
    t.Grows (l.after runs t) := by
  induction runs generalizing t with
  | nil => exact .refl t
  | cons run runs ih => exact (run.1.grows_generate hl run.2).trans (ih _)

end Layout

end Scaffold
