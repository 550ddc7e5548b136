import Scaffold.Proofs.Recipe.Preview
import Scaffold.Proofs.Recipe.Targets

namespace Scaffold

namespace Tree

variable {t u : Tree} {l : Location} {c : Contents} {es : List Emission}

theorem stat_of_file {p : Path} {s : Spot} (hp : p.Dotless) (hu : t.Extends u)
    (hs : u.locate p = .ok s) (hnamed : s.named = true) (hslash : s.slash = false)
    (hway : t.Stands s.location.dropLast) (hfile : t.get? s.location = some (.file c)) :
    t.stat p = .ok (.file c) :=
  stat_eq_ok_iff.2 ⟨s, locate_of_stands hp hnamed hs hu.home hway, hfile, by simp [hslash]⟩

theorem readText_ne_notFound {p : Path} (h : t.stat p = .ok (.file c)) :
    t.readText p ≠ .error .notFound := by
  rw [readText, h]
  intro hread
  cases c with
  | text => cases hread
  | binary => cases hread

theorem Wrote.get?_of_ne (h : t.Wrote es u) (hfile : t.get? l = some (.file c))
    (hne : ∀ e ∈ es, ∀ s, u.locate e.path = .ok s → s.location ≠ l) :
    u.get? l = some (.file c) := by
  rw [← file?_eq_some_iff] at hfile ⊢
  rwa [h.files, written_of_ne hne]

/-- Writings where nothing was leave the files that were there. -/
theorem Wrote.get?_of_has_eq_false (h : t.Wrote es u)
    (hes : ∀ e ∈ es, e.path.Dotless ∧ t.has e.path = false) (hway : t.Stands l.dropLast)
    (hfile : t.get? l = some (.file c)) : u.get? l = some (.file c) := by
  refine h.get?_of_ne hfile fun e he s hs hl => ?_
  obtain ⟨hdotless, hfree⟩ := hes e he
  obtain ⟨s', hs', hnamed, hslash⟩ := h.lands e he
  obtain rfl : s = s' := Except.ok.inj (hs.symm.trans hs')
  subst hl
  have hstat := stat_of_file hdotless h.grown hs hnamed hslash hway hfile
  rw [has_iff.2 ⟨_, hstat⟩] at hfree
  cases hfree

end Tree

namespace Emission

variable {e : Emission} {es : List Emission} {t t' : Tree} {x : EmitError}

theorem of_guards_error {guards : List Path} (h : guards.forM guard t = .error x t') :
    (∃ g ∈ guards, x = .collision g) ∧ t' = t := by
  refine ⟨?_, Disk.of_final_error (P := (· = t)) (keeps_guards (· = t) guards t rfl) h⟩
  obtain ⟨done, g, rest, u, rfl, -, hfail⟩ := Disk.forM_eq_error h
  obtain ⟨hguard, -⟩ := Disk.look_eq_error_iff.1 hfail
  refine ⟨g, by simp, ?_⟩
  split at hguard
  · exact (Except.error.inj hguard).symm
  · cases hguard

theorem of_emit_error (h : e.emit false t = .error x t') :
    (∃ path cause, x = .io path cause) ∧ t.Wrote [] t' := by
  change e.write t = .error x t' at h
  rcases Disk.bind_eq_error_iff.1 h with hroom | ⟨_, u, hroom, hwrite⟩
  · obtain ⟨cause, hfail, rfl⟩ := Disk.adaptExcept_eq_error_iff.1 hroom
    exact ⟨⟨_, _, rfl⟩, .of_makeRoom_error hfail⟩
  · obtain ⟨hfail, rfl⟩ := Disk.change_eq_error_iff.1 hwrite
    refine ⟨?_, Tree.Wrote.makeRoom (Disk.adaptExcept_eq_ok_iff.1 hroom)⟩
    cases hput : t'.write e.path (.text e.contents) with
    | ok v => rw [hput] at hfail; cases hfail
    | error cause => rw [hput] at hfail; cases hfail; exact ⟨_, _, rfl⟩

theorem of_forM_error (h : es.forM (emit false) t = .error x t') :
    (∃ path cause, x = .io path cause) ∧ ∃ done, done <+: es ∧ t.Wrote done t' := by
  obtain ⟨done, e, rest, u, rfl, hdone, hfail⟩ := Disk.forM_eq_error h
  obtain ⟨hx, hwrote⟩ := of_emit_error hfail
  have hall := (wrote_forM hdone).toWrote.trans hwrote
  rw [List.append_nil] at hall
  exact ⟨hx, done, List.prefix_append _ _, hall⟩

end Emission

theorem Outcome.wrote_of_write_error {o : Outcome} {t t' : Tree} {x : PatchError}
    (h : o.write t = .error x t') : t.Wrote [] t' := by
  cases o with
  | applied file before after w =>
      rw [write] at h
      obtain ⟨-, rfl⟩ := Disk.change_eq_error_iff.1 h
      exact .refl _
  | created file after =>
      rcases Disk.bind_eq_error_iff.1 h with hroom | ⟨_, u, hroom, hreplace⟩
      · obtain ⟨cause, hfail, -⟩ := Disk.adaptExcept_eq_error_iff.1 hroom
        exact .of_makeRoom_error hfail
      · obtain ⟨-, rfl⟩ := Disk.change_eq_error_iff.1 hreplace
        exact .makeRoom (Disk.adaptExcept_eq_ok_iff.1 hroom)
  | alreadyApplied => cases h
  | skipped => cases h

namespace Insertion

variable {i : Insertion} {file : Path} {t t' : Tree}

theorem wrote_of_apply_error {dry : Bool} {x : PatchError}
    (h : i.apply file dry t = .error x t') : t.Wrote [] t' := by
  rcases Disk.bind_eq_error_iff.1 h with hlook | ⟨o, u, hlook, hrest⟩
  · obtain ⟨-, rfl⟩ := Disk.look_eq_error_iff.1 hlook
    exact .refl _
  · obtain ⟨-, rfl⟩ := Disk.look_eq_ok_iff.1 hlook
    cases dry with
    | true => cases hrest
    | false =>
        change (o.write >>= fun _ => pure o) u = .error x t' at hrest
        rcases Disk.bind_eq_error_iff.1 hrest with hwrite | ⟨_, v, -, hdone⟩
        · exact Outcome.wrote_of_write_error hwrite
        · cases hdone

theorem eq_of_apply_of_not_isChange {dry : Bool} {o : Outcome} (h : i.apply file dry t = .ok o t')
    (ho : o.isChange = false) : t' = t := by
  cases dry with
  | false =>
      obtain ⟨-, hwrite⟩ := apply_eq_ok_iff.1 h
      rw [Outcome.write_of_not_isChange ho] at hwrite
      cases hwrite
      rfl
  | true =>
      obtain ⟨o', u, hlook, hdone⟩ := Disk.bind_eq_ok_iff.1 h
      obtain ⟨-, rfl⟩ := Disk.look_eq_ok_iff.1 hlook
      cases hdone
      rfl

end Insertion

/-- What insertions make of the file at a place, one after another. Each of them passes the file by,
or the text that it holds becomes the one that the insertion's plan comes to. -/
inductive Patched (t : Tree) (l : Location) : List Wire → Contents → Contents → Prop
  | nil (c : Contents) : Patched t l [] c c
  | pass {w : Wire} {ws : List Wire} {c c' : Contents} (h : Patched t l ws c c') :
      Patched t l (w :: ws) c c'
  | patch {w : Wire} {ws : List Wire} {u : Tree} {before after : Text} {c' : Contents}
      {edits : List Edit} {anchor : Anchor} {missed : Option Anchor} (hplace : t.place w.file = l)
      (hread : u.readText w.file = .ok before)
      (hplan : (w.styled u).plan before = .edits edits anchor missed)
      (hsplice : splice before edits = .ok after) (h : Patched t l ws (.text after) c') :
      Patched t l (w :: ws) (.text before) c'

theorem Patched.eq_of_ne {t : Tree} {l : Location} {ws : List Wire} {c c' : Contents}
    (h : Patched t l ws c c') (hne : ∀ w ∈ ws, t.place w.file ≠ l) : c' = c := by
  induction h with
  | nil c => rfl
  | pass h ih => exact ih (List.forall_mem_cons.1 hne).2
  | patch hplace => exact absurd hplace (List.forall_mem_cons.1 hne).1

namespace Wire

variable {w : Wire} {ws : List Wire} {t u u' : Tree} {l : Location} {c : Contents}
  {o : Outcome × Option Text}

theorem wrote_of_run_error {x : PatchError} (h : w.run false t = .error x u) : t.Wrote [] u := by
  rcases Disk.bind_eq_error_iff.1 h with hget | ⟨s, v, hget, hrest⟩
  · cases hget
  cases hget
  rcases Disk.bind_eq_error_iff.1 hrest with happly | ⟨o, v, -, hdone⟩
  · exact Insertion.wrote_of_apply_error happly
  · cases hdone

theorem get?_of_run (hw : w.file.Dotless) (hu : t.Extends u) (hway : t.Stands l.dropLast)
    (hfile : u.get? l = some (.file c)) (h : w.run false u = .ok o u') :
    u'.get? l = some (.file c) ∨ ∃ before after edits anchor missed, c = .text before ∧
      t.place w.file = l ∧ u.readText w.file = .ok before ∧
      (w.styled u).plan before = .edits edits anchor missed ∧ splice before edits = .ok after ∧
      u'.get? l = some (.file (.text after)) := by
  obtain ⟨hwrote, hname, htells⟩ := wrote_run h
  by_cases hl : ∃ e ∈ o.1.writings, ∃ s, u'.locate e.path = .ok s ∧ s.location = l
  · obtain ⟨e, he, s, hs, rfl⟩ := hl
    obtain ⟨s', hs', hnamed, hslash⟩ := hwrote.lands e he
    obtain rfl : s = s' := Except.ok.inj (hs.symm.trans hs')
    have hpath : e.path = w.file := by
      rw [← hname]
      exact List.mem_singleton.1 ((Outcome.paths_writings o.1).subset (List.mem_map_of_mem he))
    rw [hpath] at hs
    have hplace : t.place w.file = s.location := by
      rw [Tree.location_eq_place hw hs hnamed, hwrote.grown.place, hu.place]
    have hstat := Tree.stat_of_file hw hwrote.grown hs hnamed hslash (hway.mono hu) hfile
    obtain ⟨o, step⟩ := o
    cases o with
    | applied file before after warning =>
        obtain rfl : file = w.file := hname
        obtain ⟨hread, edits, anchor, missed, hplan, hsplice⟩ := htells
        refine .inr ⟨before, after, edits, anchor, missed, ?_, hplace, hread, hplan, hsplice, ?_⟩
        · obtain ⟨s', hs', -, htext⟩ := Tree.readText_eq_ok_iff.1 hread
          obtain rfl := Except.ok.inj ((hwrote.grown.locate hs').symm.trans hs)
          rw [hfile] at htext
          simpa using htext
        · rw [← Tree.file?_eq_some_iff, hwrote.files]
          simp [Outcome.writings, Tree.written, hs]
    | created file after => exact absurd htells.1 (Tree.readText_ne_notFound hstat)
    | alreadyApplied => cases he
    | skipped => cases he
  · refine .inl (hwrote.get?_of_ne hfile fun e he s hs hsl => hl ⟨e, he, s, hs, hsl⟩)

theorem patched_mapM (hws : ∀ w ∈ ws, w.file.Dotless) (hu : t.Extends u)
    (hway : t.Stands l.dropLast) (hfile : u.get? l = some (.file c))
    {done : List (Outcome × Option Text)} (h : ws.mapM (Wire.run false) u = .ok done u') :
    ∃ c', u'.get? l = some (.file c') ∧ Patched t l ws c c' := by
  induction ws generalizing u c done with
  | nil =>
      cases h
      exact ⟨c, hfile, .nil c⟩
  | cons w ws ih =>
      rw [List.mapM_cons] at h
      obtain ⟨o, v, hrun, hrest⟩ := Disk.bind_eq_ok_iff.1 h
      obtain ⟨os, x, hmap, hpure⟩ := Disk.bind_eq_ok_iff.1 hrest
      cases hpure
      obtain ⟨hw, hws⟩ := List.forall_mem_cons.1 hws
      have hv := hu.trans (wrote_run hrun).1.grown
      rcases get?_of_run hw hu hway hfile hrun with hsame |
        ⟨before, after, edits, anchor, missed, rfl, hplace, hread, hplan, hsplice, hafter⟩
      · obtain ⟨c', hc', hpatched⟩ := ih hws hv hsame hmap
        exact ⟨c', hc', .pass hpatched⟩
      · obtain ⟨c', hc', hpatched⟩ := ih hws hv hafter hmap
        exact ⟨c', hc', .patch hplace hread hplan hsplice hpatched⟩

theorem patched_of_mapM_error (hws : ∀ w ∈ ws, w.file.Dotless) (hu : t.Extends u)
    (hway : t.Stands l.dropLast) (hfile : u.get? l = some (.file c)) {x : PatchError}
    (h : ws.mapM (Wire.run false) u = .error x u') :
    ∃ done c', done <+: ws ∧ u'.get? l = some (.file c') ∧ Patched t l done c c' := by
  obtain ⟨done, w, rest, os, v, rfl, hdone, hfail⟩ := Disk.mapM_eq_error h
  obtain ⟨c', hc', hpatched⟩ :=
    patched_mapM (fun w hw => hws w (List.mem_append_left _ hw)) hu hway hfile hdone
  exact ⟨done, c', List.prefix_append _ _, (wrote_of_run_error hfail).get?_of_ne hc' (by simp),
    hpatched⟩

end Wire

namespace Recipe

variable {l : Layout} {r : Recipe} {t t' : Tree}

theorem of_run_error {dry : Bool} {e : RunError} (h : r.run dry t = .error e t') :
    (∃ x, e = .emit x) ∨ ∃ x, e = .patch x := by
  rcases Disk.bind_eq_error_iff.1 h with hemit | ⟨_, u, -, hrest⟩
  · obtain ⟨x, -, rfl⟩ := Disk.adaptExcept_eq_error_iff.1 hemit
    exact .inl ⟨x, rfl⟩
  rcases Disk.bind_eq_error_iff.1 hrest with hwires | ⟨done, v, -, hreport⟩
  · obtain ⟨x, -, rfl⟩ := Disk.adaptExcept_eq_error_iff.1 hwires
    exact .inr ⟨x, rfl⟩
  · cases hreport

theorem IsSound.dotless_wires (hr : r.IsSound l) (hl : l.IsDotless) :
    ∀ w ∈ r.wires, w.file.Dotless := by
  intro w hw
  obtain ⟨⟨f, hfile⟩, -⟩ := hr.wires w hw
  rw [hfile]
  exact hl.path f

theorem of_emissions_error {x : EmitError} (h : r.emissions t = .error x t') :
    ((∃ g, x = .collision g) ∧ t' = t) ∨ (∃ path cause, x = .io path cause) ∧
      (∀ g ∈ r.guards, t.has g = false) ∧ ∃ done, done <+: r.files ∧ t.Wrote done t' := by
  rcases Disk.bind_eq_error_iff.1 h with hguards | ⟨_, u, hguards, hfiles⟩
  · obtain ⟨⟨g, -, rfl⟩, rfl⟩ := Emission.of_guards_error hguards
    exact .inl ⟨⟨g, rfl⟩, rfl⟩
  · obtain ⟨hfree, rfl⟩ := Emission.guards_eq_ok_iff.1 hguards
    obtain ⟨hx, done, hdone, hwrote⟩ := Emission.of_forM_error hfiles
    exact .inr ⟨hx, hfree, done, hdone, hwrote⟩

/-- A run that a guard stops has done nothing. -/
theorem eq_of_collision {g : Path} (h : r.run false t = .error (.emit (.collision g)) t') :
    t' = t := by
  rcases Disk.bind_eq_error_iff.1 h with hemit | ⟨_, u, -, hrest⟩
  · obtain ⟨x, hfail, hx⟩ := Disk.adaptExcept_eq_error_iff.1 hemit
    cases hx
    rcases of_emissions_error hfail with ⟨-, rfl⟩ | ⟨⟨path, cause, hio⟩, -⟩
    · rfl
    · cases hio
  rcases Disk.bind_eq_error_iff.1 hrest with hwires | ⟨done, v, -, hreport⟩
  · obtain ⟨x, -, hx⟩ := Disk.adaptExcept_eq_error_iff.1 hwires
    cases hx
  · cases hreport

/-- Whatever stops a run, a file that was there holds what some of the first insertions have made of
it. -/
theorem IsSound.patched_of_run_error (hr : r.IsSound l) (hl : l.IsDotless) (ht : t.IsRooted)
    {e : RunError} (h : r.run false t = .error e t') {k : Location} {c : Contents}
    (hfile : t.get? k = some (.file c)) :
    ∃ done c', done <+: r.wires ∧ t'.get? k = some (.file c') ∧ Patched t k done c c' := by
  have hway := ht k _ hfile
  -- The new files come where nothing was, and so not where this file is.
  have hapart : (∀ g ∈ r.guards, t.has g = false) →
      ∀ e ∈ r.files, e.path.Dotless ∧ t.has e.path = false :=
    fun hfree e he => ⟨hr.dotless_files hl e he, hr.has_eq_false hfree e he⟩
  rcases Disk.bind_eq_error_iff.1 h with hemit | ⟨_, u, hemit, hrest⟩
  · obtain ⟨x, hfail, -⟩ := Disk.adaptExcept_eq_error_iff.1 hemit
    refine ⟨[], c, List.nil_prefix, ?_, .nil c⟩
    rcases of_emissions_error hfail with ⟨-, rfl⟩ | ⟨-, hfree, done, hdone, hwrote⟩
    · exact hfile
    · exact hwrote.get?_of_has_eq_false (fun e he => hapart hfree e (hdone.subset he)) hway hfile
  rcases Disk.bind_eq_error_iff.1 hrest with hwires | ⟨done, v, -, hreport⟩
  · obtain ⟨x, hfail, -⟩ := Disk.adaptExcept_eq_error_iff.1 hwires
    obtain ⟨hfree, hwrote⟩ := wrote_emissions (Disk.adaptExcept_eq_ok_iff.1 hemit)
    have hkept := hwrote.get?_of_has_eq_false (hapart hfree) hway hfile
    exact Wire.patched_of_mapM_error (hr.dotless_wires hl) hwrote.grown hway hkept hfail
  · cases hreport

end Recipe

namespace Product

variable {p : Product} {l : Layout} {raw : Text} {dry : Bool} {t t' : Tree} {e : RunError}

theorem of_generate_error (h : p.generate l raw dry t = .error e t') :
    ((∃ x, e = .name x) ∧ t' = t) ∨
      ∃ n r, Name.parse raw = .ok n ∧ p.recipe l n = .ok r ∧ r.run dry t = .error e t' := by
  rcases Disk.bind_eq_error_iff.1 h with hname | ⟨n, u, hname, hrest⟩
  · obtain ⟨hparse, rfl⟩ := Disk.look_eq_error_iff.1 hname
    cases hn : Name.parse raw with
    | ok n => rw [hn] at hparse; cases hparse
    | error x => rw [hn] at hparse; cases hparse; exact .inl ⟨⟨x, rfl⟩, rfl⟩
  obtain ⟨hparse, rfl⟩ := Disk.look_eq_ok_iff.1 hname
  obtain ⟨r, hrecipe, -⟩ := p.exists_recipe l n
  rcases Disk.bind_eq_error_iff.1 hrest with hfail | ⟨r', v, hlook, hrun⟩
  · obtain ⟨hfail, -⟩ := Disk.look_eq_error_iff.1 hfail
    rw [hrecipe] at hfail
    cases hfail
  · obtain ⟨hr', rfl⟩ := Disk.look_eq_ok_iff.1 hlook
    exact .inr ⟨n, r', mapError_eq_ok_iff.1 hparse, hr', hrun⟩

theorem error_ne_template (h : p.generate l raw dry t = .error e t') (x : TemplateError) :
    e ≠ .template x := by
  rintro rfl
  rcases of_generate_error h with ⟨⟨_, ⟨⟩⟩, -⟩ | ⟨n, r, -, -, hrun⟩
  rcases Recipe.of_run_error hrun with ⟨_, ⟨⟩⟩ | ⟨_, ⟨⟩⟩

theorem eq_of_generate_dry (h : p.generate l raw true t = .error e t') : t' = t :=
  Disk.of_final_error (P := (· = t)) (p.keeps_generate_dry (· = t) l raw t rfl) h

theorem eq_of_refused (h : p.generate l raw dry t = .error e t')
    (he : (∃ x, e = .name x) ∨ ∃ path, e = .emit (.collision path)) : t' = t := by
  cases dry with
  | true => exact eq_of_generate_dry h
  | false =>
      rcases of_generate_error h with ⟨-, ht'⟩ | ⟨n, r, -, -, hrun⟩
      · exact ht'
      rcases he with ⟨x, rfl⟩ | ⟨path, rfl⟩
      · rcases Recipe.of_run_error hrun with ⟨_, ⟨⟩⟩ | ⟨_, ⟨⟩⟩
      · exact Recipe.eq_of_collision hrun

theorem extends_of_error (hl : l.IsDotless) (h : p.generate l raw dry t = .error e t') :
    t.Extends t' := by
  cases dry with
  | true => exact eq_of_generate_dry h ▸ .refl t
  | false => exact (Disk.of_final_error (grows_generate hl p raw) h).grown

theorem patched_of_error (hl : l.IsDotless) (ht : t.IsRooted)
    (h : p.generate l raw dry t = .error e t') {k : Location} {c : Contents}
    (hfile : t.get? k = some (.file c)) :
    ∃ c', t'.get? k = some (.file c') ∧ (c' = c ∨ ∃ n r done, Name.parse raw = .ok n ∧
      p.recipe l n = .ok r ∧ done <+: r.wires ∧ Patched t k done c c') := by
  cases dry with
  | true =>
      rw [eq_of_generate_dry h]
      exact ⟨c, hfile, .inl rfl⟩
  | false =>
      rcases of_generate_error h with ⟨-, ht'⟩ | ⟨n, r, hparse, hrecipe, hrun⟩
      · rw [ht']
        exact ⟨c, hfile, .inl rfl⟩
      obtain ⟨r', hr', hsound⟩ := p.exists_recipe l n
      obtain rfl : r' = r := Except.ok.inj (hr'.symm.trans hrecipe)
      obtain ⟨done, c', hdone, hc', hpatched⟩ := hsound.patched_of_run_error hl ht hrun hfile
      exact ⟨c', hc', .inr ⟨n, r', done, hparse, hrecipe, hdone, hpatched⟩⟩

end Product

/-- Failures leave what was there. A run never fails for want of a value in a template. One that is
refused, by its name or because something is already there, has changed nothing; any other has taken
nothing away, and each file that was there is as it was or is one of the four that take insertions,
in which some of the run's insertions were then made as a whole. An insertion that fails or has
nothing to do leaves what all files hold. -/
theorem failures_leave_files :
    (∀ (p : Product) (l : Layout) (raw : Text) (dry : Bool) (t t' : Tree) (e : RunError),
      l.IsDotless → t.IsRooted → p.generate l raw dry t = .error e t' →
        (∀ x, e ≠ .template x) ∧
        ((∃ x, e = .name x) ∨ (∃ path, e = .emit (.collision path)) → t' = t) ∧
        t.Extends t' ∧
        ∀ k c, t.get? k = some (.file c) →
          ((∀ kind : FileKind, t.place (l.path kind.field) ≠ k) → t'.get? k = some (.file c)) ∧
          ∃ c', t'.get? k = some (.file c') ∧ (c' = c ∨ ∃ n r done, Name.parse raw = .ok n ∧
            p.recipe l n = .ok r ∧ done <+: r.wires ∧ Patched t k done c c')) ∧
    ∀ (i : Insertion) (file : Path) (dry : Bool) (t t' : Tree),
      (∀ e, i.apply file dry t = .error e t' → t'.file? = t.file?) ∧
      ∀ o, i.apply file dry t = .ok o t' → o.isChange = false → t'.file? = t.file? := by
  refine ⟨?_, fun i file dry t t' => ⟨fun e h => ?_, fun o h ho => ?_⟩⟩
  · intro p l raw dry t t' e hl ht h
    refine ⟨Product.error_ne_template h, Product.eq_of_refused h, Product.extends_of_error hl h, ?_⟩
    intro k c hfile
    obtain ⟨c', hc', hfate⟩ := Product.patched_of_error hl ht h hfile
    refine ⟨fun hne => ?_, c', hc', hfate⟩
    rcases hfate with rfl | ⟨n, r, done, -, hrecipe, hdone, hpatched⟩
    · exact hc'
    · have hnone : ∀ w ∈ done, t.place w.file ≠ k := by
        intro w hw
        obtain ⟨kind, hkind⟩ := Product.exists_isFor hrecipe (hdone.subset hw)
        rw [hkind.file]
        exact hne kind
      rwa [← hpatched.eq_of_ne hnone]
  · exact (Insertion.wrote_of_apply_error h).files
  · rw [Insertion.eq_of_apply_of_not_isChange h ho]

/-- A table whose schema has been added when the shard turns out to be no text. -/
theorem failures_leave_files_table :
    let l := (Layout.default ⟨[]⟩).override ⟨none, some ⟨"schemas.ts"⟩, some ⟨"shard.ts"⟩⟩
    let t := (((Tree.empty []).put ["schemas.ts".toList]
      (.file (.text "import \x7b z \x7d from 'zod';\n"))).put ["shard.ts".toList]
      (.file (.binary [255]))).put ["notes.md".toList] (.file (.text "as before"))
    ∃ e t', Product.table.generate l "order" false t = .error e t' ∧
      t'.get? ["schemas.ts".toList] ≠ t.get? ["schemas.ts".toList] ∧ t.Extends t' ∧
      t'.get? ["notes.md".toList] = some (.file (.text "as before")) := by
  intro l t
  have hl : l.IsDotless := ⟨by decide, fun f => by cases f <;> decide⟩
  have ht : t.IsRooted :=
    (((Tree.isRooted_empty []).put_file (Tree.stands_nil _) (by decide) _).put_file
      (Tree.stands_nil _) (by decide) _).put_file (Tree.stands_nil _) (by decide) _
  have hparse := Name.parse_eq Name.check_order
  obtain ⟨r, hrecipe, -⟩ := Product.table.exists_recipe l ⟨"order", Name.check_order⟩
  have hrun : ((Product.table.recipe l ⟨"order", Name.check_order⟩).toOption.any fun r =>
      match r.run false t with
      | .ok _ _ => false
      | .error _ t' => t'.get? ["schemas.ts".toList] != t.get? ["schemas.ts".toList]) = true := by
    decide +kernel
  rw [hrecipe, Except.toOption, Option.any_some] at hrun
  split at hrun
  · cases hrun
  · next e t' hfails =>
      have hgenerate := (Product.generate_of_ok hparse hrecipe).trans hfails
      obtain ⟨-, -, hgrown, hfiles⟩ := failures_leave_files.1 _ _ _ _ _ _ _ hl ht hgenerate
      refine ⟨e, t', hgenerate, by simpa using hrun, hgrown, ?_⟩
      exact (hfiles ["notes.md".toList] (.text "as before") (by decide)).1
        fun kind => by cases kind <;> decide

end Scaffold
