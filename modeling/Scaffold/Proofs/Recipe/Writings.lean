import Scaffold.Proofs.Insertion.Outcomes
import Scaffold.Proofs.Recipe.Repeat

namespace Scaffold

namespace Tree

variable {t t' u : Tree} {es es' : List Emission}

def file? (t : Tree) (l : Location) : Option Contents :=
  match t.get? l with
  | some (.file c) => some c
  | _ => none

/-- What files hold after the writings, made in their order where the tree's paths lead. -/
def written (t : Tree) : List Emission → (Location → Option Contents) → Location → Option Contents
  | [], files => files
  | e :: es, files =>
    match t.locate e.path with
    | .ok s => written t es fun l => if l = s.location then some (.text e.contents) else files l
    | .error _ => written t es files

/-- A tree has grown by the writings and by directories. -/
structure Wrote (t : Tree) (es : List Emission) (t' : Tree) : Prop where
  grown : t.Extends t'
  lands : ∀ e ∈ es, ∃ s, t'.locate e.path = .ok s ∧ s.named = true ∧ s.slash = false
  files : t'.file? = t'.written es t.file?

/-- A tree has grown by the writings and by directories that lie above what is written. -/
structure WroteOnly (t : Tree) (es : List Emission) (t' : Tree) : Prop extends t.Wrote es t' where
  directories : ∀ l, t'.get? l = some .directory → t.get? l = some .directory ∨
    ∃ e ∈ es, ∃ q s, e.path.IsBelow q ∧ t'.locate q = .ok s ∧ s.location = l

theorem file?_put_of_file (t : Tree) {l : Location} (hl : l ≠ []) (c : Contents) :
    (t.put l (.file c)).file? = fun k => if k = l then some c else t.file? k := by
  funext k
  by_cases hk : k = l
  · rw [if_pos hk, file?, hk, get?_put_self t hl]
  · rw [if_neg hk, file?, file?, get?_put_of_ne t hk]

theorem file?_put_directory {l : Location} (hl : t.get? l = none) :
    (t.put l .directory).file? = t.file? := by
  have hroot : l ≠ [] := by
    rintro rfl
    cases hl
  funext k
  by_cases hk : k = l
  · rw [file?, file?, hk, get?_put_self t hroot, hl]
  · rw [file?, file?, get?_put_of_ne t hk]

theorem written_append (t : Tree) (es es' : List Emission) (files : Location → Option Contents) :
    t.written (es ++ es') files = t.written es' (t.written es files) := by
  induction es generalizing files with
  | nil => rfl
  | cons e es ih =>
      rw [List.cons_append, written, written]
      split
      · exact ih _
      · exact ih _

theorem written_congr (h : ∀ e ∈ es, t.locate e.path = t'.locate e.path)
    (files : Location → Option Contents) : t.written es files = t'.written es files := by
  induction es generalizing files with
  | nil => rfl
  | cons e es ih =>
      obtain ⟨he, hes⟩ := List.forall_mem_cons.1 h
      rw [written, written, he]
      split
      · exact ih hes _
      · exact ih hes _

namespace Wrote

theorem refl (t : Tree) : t.Wrote [] t := ⟨.refl t, by simp, rfl⟩

theorem trans (h : t.Wrote es u) (h' : u.Wrote es' t') : t.Wrote (es ++ es') t' := by
  refine ⟨h.grown.trans h'.grown, ?_, ?_⟩
  · intro e he
    rcases List.mem_append.1 he with he | he
    · obtain ⟨s, hs, hnamed, hslash⟩ := h.lands e he
      exact ⟨s, h'.grown.locate hs, hnamed, hslash⟩
    · exact h'.lands e he
  · have hsame : ∀ e ∈ es, u.locate e.path = t'.locate e.path := by
      intro e he
      obtain ⟨s, hs, -, -⟩ := h.lands e he
      rw [hs, h'.grown.locate hs]
    rw [written_append, ← written_congr hsame, ← h.files]
    exact h'.files

theorem put_file {p : Path} {s : Spot} {c : Text} (hs : t.locate p = .ok s)
    (hnamed : s.named = true) (hslash : s.slash = false)
    (hdir : t.get? s.location ≠ some .directory) :
    t.Wrote [⟨p, c⟩] (t.put s.location (.file (.text c))) := by
  have hgrown := Extends.put_file hdir (.text c)
  have hs' := hgrown.locate hs
  refine ⟨hgrown, ?_, ?_⟩
  · intro e he
    rw [List.mem_singleton.1 he]
    exact ⟨s, hs', hnamed, hslash⟩
  · rw [written, hs', file?_put_of_file t (location_ne_nil hs hnamed)]
    rfl

theorem makeDirectory {p : Path} (h : t.makeDirectory p = .ok t') : t.Wrote [] t' := by
  obtain ⟨s, -, -, hfree, rfl⟩ := of_makeDirectory h
  exact ⟨.put_directory hfree, by simp, file?_put_directory hfree⟩

theorem keeps_makeRoom (t : Tree) (p : Path) : Disk.Keeps (t.Wrote []) (Disk.makeRoom p) :=
  .makeRoom p fun _ _ _ _ hu hv => hu.trans (makeDirectory hv)

theorem makeRoom {p : Path} (h : Disk.makeRoom p t = .ok () t') : t.Wrote [] t' :=
  Disk.of_final (keeps_makeRoom t p t (refl t)) h

theorem of_makeRoom_error {p : Path} {e : FileError} (h : Disk.makeRoom p t = .error e t') :
    t.Wrote [] t' :=
  Disk.of_final_error (keeps_makeRoom t p t (refl t)) h

end Wrote

def MadeRoom (t : Tree) (p : Path) (u : Tree) : Prop :=
  ∀ l, u.get? l = some .directory → t.get? l = some .directory ∨
    ∃ q s, p.IsBelow q ∧ u.locate q = .ok s ∧ s.location = l

theorem MadeRoom.makeDirectory {p q : Path} (h : t.MadeRoom p u) (hq : p.IsBelow q)
    (hmake : u.makeDirectory q = .ok t') : t.MadeRoom p t' := by
  intro l hl
  obtain ⟨s, hs, -, hfree, rfl⟩ := of_makeDirectory hmake
  have hgrown := Extends.put_directory hfree
  by_cases hne : l = s.location
  · exact .inr ⟨q, s, hq, hgrown.locate hs, hne.symm⟩
  · rw [get?_put_of_ne u hne] at hl
    exact (h l hl).imp_right fun ⟨r, s', hr, hs', hl'⟩ => ⟨r, s', hr, hgrown.locate hs', hl'⟩

theorem madeRoom {p : Path} (h : Disk.makeRoom p t = .ok () u) : t.MadeRoom p u := by
  have hkeeps : Disk.Keeps (t.MadeRoom p) (Disk.makeRoom p) :=
    .makeRoom p fun _ _ _ hq hu hmake => hu.makeDirectory hq hmake
  exact Disk.of_final (hkeeps t fun _ hl => .inl hl) h

namespace WroteOnly

theorem refl (t : Tree) : t.WroteOnly [] t := ⟨.refl t, fun _ h => .inl h⟩

theorem trans (h : t.WroteOnly es u) (h' : u.WroteOnly es' t') : t.WroteOnly (es ++ es') t' := by
  refine ⟨h.toWrote.trans h'.toWrote, fun l hl => ?_⟩
  rcases h'.directories l hl with hu | ⟨e, he, q, s, hq, hs, hl⟩
  · rcases h.directories l hu with ht | ⟨e, he, q, s, hq, hs, hl⟩
    · exact .inl ht
    · exact .inr ⟨e, List.mem_append_left _ he, q, s, hq, h'.grown.locate hs, hl⟩
  · exact .inr ⟨e, List.mem_append_right _ he, q, s, hq, hs, hl⟩

theorem put_file {p : Path} {s : Spot} {c : Text} (hs : t.locate p = .ok s)
    (hnamed : s.named = true) (hslash : s.slash = false)
    (hdir : t.get? s.location ≠ some .directory) :
    t.WroteOnly [⟨p, c⟩] (t.put s.location (.file (.text c))) := by
  refine ⟨.put_file hs hnamed hslash hdir, fun l hl => .inl ?_⟩
  by_cases hne : l = s.location
  · rw [hne, get?_put_self t (location_ne_nil hs hnamed)] at hl
    cases hl
  · rwa [get?_put_of_ne t hne] at hl

/-- The directories above a file are new only where the file is written then. -/
theorem of_makeRoom {p : Path} {c : Text} (h : Disk.makeRoom p t = .ok () u)
    (h' : u.WroteOnly [⟨p, c⟩] t') : t.WroteOnly [⟨p, c⟩] t' := by
  refine ⟨(Wrote.makeRoom h).trans h'.toWrote, fun l hl => ?_⟩
  rcases h'.directories l hl with hu | hnew
  · refine (madeRoom h l hu).imp_right fun ⟨q, s, hq, hs, hl⟩ => ?_
    exact ⟨_, List.mem_cons_self, q, s, hq, h'.grown.locate hs, hl⟩
  · exact .inr hnew

end WroteOnly

end Tree

namespace Emission

variable {t t' : Tree}

theorem wrote_emit {e : Emission} (h : e.emit false t = .ok () t') : t.WroteOnly [e] t' := by
  change e.write t = .ok () t' at h
  obtain ⟨_, u, hroom, hwrite⟩ := Disk.bind_eq_ok_iff.1 h
  obtain ⟨s, hs, hnamed, hslash, hdir, rfl⟩ :=
    Tree.of_write (mapError_eq_ok_iff.1 (Disk.change_eq_ok_iff.1 hwrite))
  exact .of_makeRoom (Disk.adaptExcept_eq_ok_iff.1 hroom) (.put_file hs hnamed hslash hdir)

theorem wrote_forM {es : List Emission} (h : es.forM (Emission.emit false) t = .ok () t') :
    t.WroteOnly es t' := by
  induction es generalizing t with
  | nil => cases h; exact .refl _
  | cons e es ih =>
      obtain ⟨_, u, hemit, hrest⟩ := Disk.bind_eq_ok_iff.1 h
      exact (wrote_emit hemit).trans (ih hrest)

end Emission

namespace Outcome

variable {t t' : Tree} {o : Outcome}

def writings : Outcome → List Emission
  | applied file _ after _ | created file after => [⟨file, after⟩]
  | _ => []

theorem wrote_replace {file : Path} {after : Text} (h : t.replace file (.text after) = .ok t') :
    t.WroteOnly [⟨file, after⟩] t' := by
  obtain ⟨s, hs, hnamed, hslash, hdir, rfl⟩ := Tree.of_replace h
  exact .put_file hs hnamed hslash hdir

theorem wrote_write (h : o.write t = .ok () t') : t.WroteOnly o.writings t' := by
  cases o with
  | applied file before after w => exact wrote_replace (write_applied h)
  | created file after =>
      obtain ⟨u, hroom, hu⟩ := write_created h
      exact .of_makeRoom hroom (wrote_replace hu)
  | alreadyApplied file => cases h; exact .refl _
  | skipped file w fragment => cases h; exact .refl _

/-- What an outcome tells is so in the tree in which the insertion was made: a text that it gives as
the one before is what the file held, a file that was created was not found, and a text that it
gives as the one after is what the plan comes to. -/
def Tells (o : Outcome) (i : Insertion) (file : Path) (t : Tree) : Prop :=
  o.file = file ∧
    match o with
    | applied _ before after _ => t.readText file = .ok before ∧
        ∃ edits anchor missed, i.plan before = .edits edits anchor missed ∧
          splice before edits = .ok after
    | created _ after => t.readText file = .error .notFound ∧
        ∃ opening edits anchor missed, i.kind.whenMissing = .create opening ∧
          i.plan opening = .edits edits anchor missed ∧ splice opening edits = .ok after
    | _ => True

end Outcome

end Scaffold
