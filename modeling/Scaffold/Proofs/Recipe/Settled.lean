import Scaffold.Proofs.Insertion.Presence
import Scaffold.Proofs.Recipe.Account
import Scaffold.Proofs.Recipe.Targets

namespace Scaffold

namespace Insertion

variable {i : Insertion} {file : Path} {t t' : Tree} {o : Outcome}

/-- A text has the insertion, or passes for having it by one of the marks. -/
def IsIn (i : Insertion) (t : Text) : Prop := i.core <:+: t ∨ ∃ m ∈ i.markers, m <:+: t

/-- A step that tells the user to make the insertion leaves nothing of it out. -/
structure IsTold (i : Insertion) (file : Path) (step : Text) : Prop where
  file : file.text <:+: step
  fragment : i.core <:+: step
  imports : ∀ r ∈ i.imports, r.statement '\'' <:+: step

/-- The insertion is planned without one of its own anchors, in the text that a look at the file
gives or in the one that the file is created with. -/
def FallsBack (i : Insertion) (r : Except FileError Text) : Prop :=
  ∃ t edits anchor missed, i.plan t = .edits edits anchor (some missed) ∧
    (r = .ok t ∨ r = .error .notFound ∧ i.kind.whenMissing = .create t)

theorem isIn_of_isPresent {t : Text} (h : i.isPresent t = true) : i.IsIn t :=
  .inr (isPresent_iff.1 h)

theorem exists_manualStep (i : Insertion) (file : Path) (w : Warning) (fragment : Text) :
    ∃ step, Wire.manualStep? i (.skipped file w fragment) = some step ∧ file.text <:+: step ∧
      Text.dropFinalNewlines fragment <:+: step ∧
      i.imports.flatMap (·.statement '\'') <:+: step := by
  refine ⟨_, rfl, ?_, (List.suffix_append _ _).isInfix, ?_⟩
  · exact (List.infix_append _ _ _).trans (((List.prefix_append _ _).trans
      (List.prefix_append _ _)).trans (List.prefix_append _ _)).isInfix
  · exact (List.infix_append _ _ _).trans (List.prefix_append _ _).isInfix

theorem isTold_of_manualStep (i : Insertion) (file : Path) (w : Warning) :
    ∃ step, Wire.manualStep? i (.skipped file w i.fragment) = some step ∧ i.IsTold file step := by
  obtain ⟨step, hstep, hfile, hfragment, himports⟩ := i.exists_manualStep file w i.fragment
  refine ⟨step, hstep, hfile, hfragment, fun r hr => ?_⟩
  obtain ⟨before, after, hr⟩ := List.append_of_mem hr
  rw [hr, List.flatMap_append, List.flatMap_cons, ← List.append_assoc] at himports
  exact (List.infix_append _ _ _).trans himports

theorem of_outcomeFor_of_not_isChange {text : Text} {creates : Bool}
    (h : i.outcomeFor file text creates = .ok o) (ho : o.isChange = false) :
    i.isPresent text = true ∨ ∃ w, o = .skipped file w i.fragment := by
  unfold outcomeFor at h
  split at h
  · next reason hplan =>
      refine .inl (Bool.not_eq_false _ ▸ fun habsent => ?_)
      rw [plan, if_neg (by simp [habsent])] at hplan
      split at hplan <;> cases hplan
  · cases h
    exact .inr ⟨_, rfl⟩
  · split at h
    · cases h
    · cases h
      cases creates <;> cases ho

theorem of_outcome_of_not_isChange (hnew : ∀ opening, i.kind.whenMissing = .create opening →
      i.isPresent opening = false) {r : Except FileError Text} (h : i.outcome file r = .ok o)
    (ho : o.isChange = false) :
    (∃ c, r = .ok c ∧ i.isPresent c = true) ∨ ∃ w, o = .skipped file w i.fragment := by
  unfold outcome at h
  split at h
  · next c =>
      refine (of_outcomeFor_of_not_isChange h ho).imp_left fun hpresent => ⟨c, rfl, hpresent⟩
  · split at h
    · cases h
      exact .inr ⟨_, rfl⟩
    · next opening hmissing =>
        refine .inr ((of_outcomeFor_of_not_isChange h ho).resolve_left ?_)
        rw [hnew opening hmissing]
        nofun
  · cases h

theorem isIn_of_apply (hnew : ∀ opening, i.kind.whenMissing = .create opening →
      i.isPresent opening = false) (h : i.apply file false t = .ok o t') :
    (∃ c, t'.readText file = .ok c ∧ i.IsIn c) ∨ ∃ w, o = .skipped file w i.fragment := by
  cases ho : o.isChange with
  | true =>
      obtain ⟨before, after, edits, anchor, missed, hplan, hsplice, hread⟩ :=
        exists_of_isChange h ho
      exact .inl ⟨after, hread, .inl (isInfix_core_of_plan hplan hsplice)⟩
  | false =>
      obtain ⟨hout, hwrite⟩ := apply_eq_ok_iff.1 h
      rw [Outcome.write_of_not_isChange ho] at hwrite
      cases hwrite
      refine (of_outcome_of_not_isChange hnew hout ho).imp_left ?_
      rintro ⟨c, hread, hpresent⟩
      exact ⟨c, hread, isIn_of_isPresent hpresent⟩

theorem missed_of_fallback? {text : Text} {edits : List Edit} {anchor : Anchor}
    {missed : Option Anchor} (hkind : i.kind.fallback? = none)
    (hplan : i.plan text = .edits edits anchor missed) : missed = none := by
  unfold plan at hplan
  split at hplan
  · cases hplan
  split at hplan
  · cases hplan
  · next a k hplace =>
      cases hplan
      refine if_pos ?_
      rw [place?, hkind, Option.bind_none, Option.or_none] at hplace
      obtain ⟨b, hb, hlocated⟩ := List.exists_of_findSome?_eq_some hplace
      obtain ⟨_, -, hab⟩ := Option.map_eq_some_iff.1 hlocated
      cases hab
      exact hb

theorem isSome_warning_of_fallsBack {r : Except FileError Text} (hback : i.FallsBack r)
    (h : i.outcome file r = .ok o) : o.warning?.isSome = true := by
  obtain ⟨text, edits, anchor, missed, hplan, rfl | ⟨rfl, hmissing⟩⟩ := hback
  · simp only [outcome, outcomeFor, hplan] at h
    split at h
    · cases h
    · cases h
      rfl
  · -- Only schema files are created, and these always have their anchor.
    have hkind : i.kind.fallback? = none := by
      cases hk : i.kind <;> rw [hk] at hmissing <;> first | rfl | cases hmissing
    cases missed_of_fallback? hkind hplan

end Insertion

namespace Wire

variable {l : Layout} {n : Name} {w : Wire} {u v : Tree} {o : Outcome × Option Text}

theorem kind_styled (w : Wire) (t : Tree) : (w.styled t).kind = w.insertion.kind := by
  unfold styled
  split
  · split
    · rfl
    · rfl
  · rfl

/-- A turn loses nothing. The file has the insertion afterwards or there is a step that gives it, and
there is a step that names the file where the outcome has a warning or the insertion was made without
an anchor of its own. -/
structure Settles (w : Wire) (u v : Tree) (o : Outcome × Option Text) : Prop where
  found : (∃ c, v.readText w.file = .ok c ∧ (w.styled u).IsIn c) ∨
    ∃ step ∈ o.2, (w.styled u).IsTold w.file step
  warned : (w.styled u).FallsBack (u.readText w.file) ∨ o.1.warning?.isSome = true →
    ∃ step ∈ o.2, w.file.text <:+: step

theorem exists_step_of_warning {i : Insertion} {o : Outcome} (h : o.warning?.isSome = true) :
    ∃ step ∈ manualStep? i o, o.file.text <:+: step := by
  cases o with
  | applied file before after warning =>
      obtain ⟨w, rfl⟩ := Option.isSome_iff_exists.1 h
      exact ⟨_, rfl, "Review ", ": ".toList ++ w.message, by simp only [List.append_assoc]; rfl⟩
  | created => cases h
  | alreadyApplied => cases h
  | skipped file w fragment =>
      obtain ⟨step, hstep, hfile, -⟩ := i.exists_manualStep file w fragment
      exact ⟨step, hstep, hfile⟩

theorem files_of_mapM {ws : List Wire} {done : List (Outcome × Option Text)}
    (h : ws.mapM (Wire.run false) u = .ok done v) :
    (done.map Prod.fst).map Outcome.file = ws.map (·.file) := by
  obtain ⟨-, hlength, htells⟩ := wrote_mapM h
  refine List.ext_getElem (by simpa using hlength) fun k hk hk' => ?_
  simp only [List.length_map] at hk hk'
  obtain ⟨x, -, ⟨hfile, -⟩, -⟩ :=
    htells k ws[k] done[k] (List.getElem?_eq_getElem hk') (List.getElem?_eq_getElem hk)
  simpa using hfile

theorem isPresent_opening (hw : Wired l n w) {opening : Text}
    (hopening : w.insertion.kind.whenMissing = .create opening) :
    w.insertion.isPresent opening = false := by
  cases hw with
  | entry h => rw [Layout.kind_of_entryWire h] at hopening; cases hopening
  | shard _ _ _ h => rw [Layout.kind_of_shardWire h] at hopening; cases hopening
  | routes _ _ _ _ h => rw [Layout.kind_of_routesWire h] at hopening; cases hopening
  | @schema t constant h =>
      rw [Layout.kind_of_schemaWire h] at hopening
      cases hopening
      have hmarkers : w.insertion.markers = ["const ".toList ++ constant ++ " ".toList] := by
        obtain ⟨fragment, -, h⟩ := bind_eq_ok_iff.1 h
        cases h
        rfl
      rw [Bool.eq_false_iff]
      intro hpresent
      obtain ⟨m, hm, hinfix⟩ := Insertion.isPresent_iff.1 hpresent
      rw [hmarkers, List.mem_singleton] at hm
      have hconst : "const ".toList <:+: m := by
        rw [hm, List.append_assoc]
        exact (List.prefix_append _ _).isInfix
      exact absurd (hconst.trans hinfix) (by decide)

theorem settles_of_run (hw : Wired l n w) (h : w.run false u = .ok o v) : w.Settles u v o := by
  obtain ⟨happly, hstep⟩ := run_eq_ok_iff.1 h
  obtain ⟨hout, -⟩ := Insertion.apply_eq_ok_iff.1 happly
  have hfile := Insertion.file_of_outcome hout
  have hnew : ∀ opening, (w.styled u).kind.whenMissing = .create opening →
      (w.styled u).isPresent opening = false := by
    intro opening hopening
    rw [kind_styled] at hopening
    rw [Insertion.isPresent, markers_styled]
    exact isPresent_opening hw hopening
  constructor
  · refine (Insertion.isIn_of_apply hnew happly).imp_right ?_
    rintro ⟨warning, hskipped⟩
    obtain ⟨step, hmanual, htold⟩ := (w.styled u).isTold_of_manualStep w.file warning
    rw [hstep, hskipped, hmanual]
    exact ⟨step, rfl, htold⟩
  · intro hwarned
    have hwarning : o.1.warning?.isSome = true :=
      hwarned.elim (fun hback => Insertion.isSome_warning_of_fallsBack hback hout) id
    rw [hstep, ← hfile]
    exact exists_step_of_warning hwarning

end Wire

/-- No insertion is lost. A run that succeeds has made one outcome for each file that takes an
insertion of the product, in their order; each insertion is in its file when its turn is over or
there is a step that gives it in full; one that was made without an anchor of its own has a step that
names the file; and these steps come in the order of the turns, before those of the product itself. -/
theorem no_insertion_is_lost {p : Product} {l : Layout} {raw : Text} {t t' : Tree} {report : Report}
    (h : p.generate l raw false t = .ok report t') :
    ∃ n r u done, Name.parse raw = .ok n ∧ p.recipe l n = .ok r ∧ r.emissions t = .ok () u ∧
      r.wires.mapM (Wire.run false) u = .ok done t' ∧
      report.outcomes = done.map Prod.fst ∧
      report.outcomes.map Outcome.file = p.kinds.map (fun kind => l.path kind.field) ∧
      report.nextSteps = done.filterMap Prod.snd ++ r.followUps ∧
      ∀ (k : Nat) (w : Wire), r.wires[k]? = some w → ∃ o before after, done[k]? = some o ∧
        (r.wires.take k).mapM (Wire.run false) u = .ok (done.take k) before ∧
        w.run false before = .ok o after ∧ w.Settles before after o := by
  obtain ⟨n, r, hparse, hrecipe, hrun⟩ := Product.generate_eq_ok_iff.1 h
  obtain ⟨u, done, hemit, hwires, rfl⟩ := Recipe.run_eq_ok_iff.1 hrun
  refine ⟨n, r, u, done, hparse, hrecipe, hemit, hwires, rfl, ?_, rfl, ?_⟩
  · rw [← Product.files_of_recipe hrecipe]
    exact Wire.files_of_mapM hwires
  · intro k w hw
    obtain ⟨o, before, after, ho, hearlier, hturn, -⟩ := Disk.exists_turn_of_mapM hwires hw
    have hwired := Product.wired_of_recipe hrecipe (List.mem_of_getElem? hw)
    exact ⟨o, before, after, ho, hearlier, hturn, Wire.settles_of_run hwired hturn⟩

/-- A table for a project that has no shard: the schema file is created, and what the shard lacks is
left to the user. -/
theorem no_insertion_is_lost_table :
    let l := (Layout.default ⟨[]⟩).override ⟨none, some ⟨"schemas.ts"⟩, some ⟨"shard.ts"⟩⟩
    ∃ report t', Product.table.generate l "order" false (.empty []) = .ok report t' ∧
      report.outcomes.map (·.isChange) = [true, false] ∧
      report.outcomes.map Outcome.file = [⟨"schemas.ts"⟩, ⟨"shard.ts"⟩] := by
  intro l
  have hparse := Name.parse_eq Name.check_order
  obtain ⟨r, hrecipe, -⟩ := Product.table.exists_recipe l ⟨"order", Name.check_order⟩
  have hrun : ((Product.table.recipe l ⟨"order", Name.check_order⟩).toOption.any fun r =>
      ((r.run false).run' (.empty [])).any fun report =>
        report.outcomes.map (·.isChange) == [true, false]) = true := by
    decide +kernel
  rw [hrecipe] at hrun
  obtain ⟨report, hreport, hchanges⟩ := (Option.any_eq_true _ ((r.run false).run' (.empty []))).1 hrun
  obtain ⟨t', hreport⟩ := Disk.exists_ok_of_run hreport
  have hgenerate := (Product.generate_of_ok hparse hrecipe).trans hreport
  obtain ⟨-, -, -, -, -, -, -, -, -, hfiles, -⟩ := no_insertion_is_lost hgenerate
  refine ⟨report, t', hgenerate, by simpa using hchanges, hfiles.trans ?_⟩
  decide

end Scaffold
