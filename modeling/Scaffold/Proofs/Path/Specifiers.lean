import Scaffold.Proofs.Path.Steps

namespace Scaffold

open Text

namespace Path

variable {p q : Path} {ss ss' : List Text} {name : Text}

theorem intercalate_isPrefix {sep : Text} (h : ss <+: ss') :
    List.intercalate sep ss <+: List.intercalate sep ss' := by
  obtain ⟨more, rfl⟩ := h
  induction ss with
  | nil => exact List.nil_prefix
  | cons s ss ih =>
      cases ss with
      | nil =>
          cases more with
          | nil => exact List.prefix_refl _
          | cons t more =>
              rw [List.singleton_append, List.intercalate_cons_cons, List.intercalate_singleton,
                List.append_assoc]
              exact List.prefix_append _ _
      | cons t ss =>
          rw [List.cons_append, List.cons_append, List.intercalate_cons_cons,
            List.intercalate_cons_cons]
          exact List.prefix_append_right_inj _ |>.2 ih

theorem dropVoidEnd_isPrefix (ss : List Text) : dropVoidEnd ss <+: ss := by
  rw [← List.reverse_suffix, dropVoidEnd, List.reverse_reverse]
  exact List.dropWhile_suffix _

theorem fileName?_eq_some_iff : p.fileName? = some name ↔
    name ≠ ['.', '.'] ∧ ∃ ss, dropVoidEnd p.segments = ss ++ [name] := by
  rw [fileName?, ← List.getLast?_eq_some_iff]
  cases (dropVoidEnd p.segments).getLast? with
  | none => simp
  | some last =>
      simp only [ite_eq_iff, reduceCtorEq, and_false, false_or, Option.some.injEq]
      constructor
      · rintro ⟨hne, rfl⟩
        exact ⟨hne, rfl⟩
      · rintro ⟨hne, rfl⟩
        exact ⟨hne, rfl⟩

theorem isAbsolute_of_isPrefix (h : q.text <+: p.text) (hne : p.isAbsolute = true → q.text ≠ []) :
    q.isAbsolute = p.isAbsolute := by
  by_cases hq : q.text = []
  · have hp : ¬p.isAbsolute = true := fun hp => hne hp hq
    rw [Bool.eq_false_iff.2 hp, isAbsolute, hq]
    rfl
  · obtain ⟨w, hw⟩ := h
    rw [isAbsolute, isAbsolute, ← hw, List.head?_append_of_ne_nil _ hq]

theorem opening_ne_nil (h : p.isAbsolute = true) : p.opening ≠ [] := by
  rw [opening, if_pos h]
  decide

theorem isAbsolute_directory (h : p.fileName?.isSome = true) :
    p.directory.isAbsolute = p.isAbsolute := by
  obtain ⟨name, hname⟩ := Option.isSome_iff_exists.1 h
  obtain ⟨-, ss, hss⟩ := fileName?_eq_some_iff.1 hname
  have hdirectory : p.directory = ⟨p.opening ++ List.intercalate "/" (dropVoidEnd ss)⟩ := by
    rw [directory, parent?, hss]
    simp
  have hsegments : dropVoidEnd ss <+: p.segments :=
    ((dropVoidEnd_isPrefix ss).trans ⟨_, hss.symm⟩).trans (dropVoidEnd_isPrefix _)
  rw [hdirectory]
  refine isAbsolute_of_isPrefix ?_ fun habs => List.append_ne_nil_of_left_ne_nil (opening_ne_nil habs) _
  conv => rhs; rw [← p.opening_append_segments]
  exact (List.prefix_append_right_inj _).2 (intercalate_isPrefix hsegments)

theorem exists_of_splitExtension? {stem extension : Text}
    (h : splitExtension? name = some (stem, extension)) : stem <+: name ∧ extension <:+ name := by
  rw [splitExtension?] at h
  split at h
  · cases h
  · cases h
    refine ⟨List.take_prefix _ _, ?_⟩
    rw [← List.reverse_prefix, List.reverse_reverse]
    exact List.takeWhile_prefix _

theorem isAbsolute_upToStem (p : Path) : p.upToStem.isAbsolute = p.isAbsolute := by
  rw [upToStem]
  cases hname : p.fileName? with
  | none => rfl
  | some name =>
      obtain ⟨-, ss, hss⟩ := fileName?_eq_some_iff.1 hname
      have hstem : ((splitExtension? name).map Prod.fst).getD name <+: name := by
        cases hsplit : splitExtension? name with
        | none => exact List.prefix_refl name
        | some split => exact (exists_of_splitExtension? hsplit).1
      refine isAbsolute_of_isPrefix ?_ fun habs =>
        List.append_ne_nil_of_left_ne_nil (opening_ne_nil habs) _
      conv => rhs; rw [← p.opening_append_segments]
      refine (List.prefix_append_right_inj _).2 (List.IsPrefix.trans ?_
        (intercalate_isPrefix (dropVoidEnd_isPrefix p.segments)))
      rw [hss, List.dropLast_concat, Text.intercalate_concat, Text.intercalate_concat]
      exact (List.prefix_append_right_inj _).2 hstem

theorem isAbsolute_dropExtension (p : Path) : p.dropExtension.isAbsolute = p.isAbsolute := by
  rw [dropExtension]
  cases hsplit : p.fileName?.bind splitExtension? with
  | none => exact p.isAbsolute_upToStem
  | some split =>
      obtain ⟨stem, extension⟩ := split
      obtain ⟨name, hname, hsplit⟩ := Option.bind_eq_some_iff.1 hsplit
      obtain ⟨-, ss, hss⟩ := fileName?_eq_some_iff.1 hname
      obtain ⟨u, hu⟩ := (exists_of_splitExtension? hsplit).2
      refine (isAbsolute_upToStem _).trans (isAbsolute_of_isPrefix ⟨_, takeBytes_append_dropBytes _ _⟩
        fun habs => ?_)
      -- The slash at the root is not in the extension, so it is not taken away.
      obtain ⟨v, hv⟩ := List.head?_eq_some_iff.1 (beq_iff_eq.1 habs)
      have hmem : name ∈ p.segments := (dropVoidEnd_isPrefix _).subset (by rw [hss]; simp)
      have hwhole := p.opening_append_segments
      have hopening : p.opening = "/".toList := if_pos habs
      obtain ⟨a, b, hab⟩ : name <:+: List.intercalate "/" p.segments := isInfix_intercalate hmem
      have hbytes := congrArg bytes hwhole
      rw [← hab, ← hu, hopening] at hbytes
      simp only [bytes_append] at hbytes
      have hslash : bytes "/".toList = 1 := by decide
      have hone : '/'.utf8Size ≤ bytes p.text - bytes extension := by
        have hsize : '/'.utf8Size = 1 := by decide
        omega
      simp only [hv] at hone ⊢
      rw [takeBytes, if_pos hone]
      exact List.cons_ne_nil _ _

theorem exists_name_of_dotless (h : p.Dotless) {c : Component} (hc : c ∈ p.steps) :
    ∃ s, c = .name s := by
  cases isStep_of_mem_steps hc with
  | up => exact absurd hc (dotless_iff_steps.1 h)
  | @name s hs => exact ⟨s, rfl⟩

theorem normalize_dotless (h : p.Dotless) : normalize p.components = p.start ++ p.steps := by
  rw [normalize_components, foldl_extend_names fun c hc => exists_name_of_dotless h hc]

theorem relative_dotless (hstart : p.isAbsolute = q.isAbsolute) (hp : p.Dotless) (hq : q.Dotless) :
    relative (normalize p.components) (normalize q.components) = relative p.steps q.steps := by
  have hsame : q.start = p.start := by rw [start, start, hstart]
  rw [normalize_dotless hp, normalize_dotless hq, hsame, relative_append_append]

theorem exists_way (hstart : p.isAbsolute = q.isAbsolute) (hp : p.Dotless) (hq : q.Dotless) :
    ∃ k ds fs, p.steps = k ++ ds ∧ q.steps = k ++ fs ∧
      relative (normalize p.components) (normalize q.components) =
        List.replicate ds.length .up ++ fs := by
  have hroot : .root ∉ q.steps := fun h => nomatch isStep_of_mem_steps h
  rw [relative_dotless hstart hp hq]
  exact exists_relative _ hroot

theorem foldl_extend_relative (hstart : p.isAbsolute = q.isAbsolute) (hp : p.Dotless)
    (hq : q.Dotless) :
    (relative (normalize p.components) (normalize q.components)).foldl extend
      (normalize p.components) = normalize q.components := by
  obtain ⟨k, ds, fs, hds, hfs, hway⟩ := exists_way hstart hp hq
  have hup : ∀ c ∈ ds, ∃ s, c = .name s := fun c hc =>
    exists_name_of_dotless hp (hds ▸ List.mem_append_right k hc)
  have hdown : ∀ c ∈ fs, ∃ s, c = .name s := fun c hc =>
    exists_name_of_dotless hq (hfs ▸ List.mem_append_right k hc)
  rw [hway, normalize_dotless hp, hds, ← List.append_assoc, List.foldl_append, foldl_extend_ups hup,
    foldl_extend_names hdown, normalize_dotless hq, hfs, start, start, hstart, List.append_assoc]

theorem isStep_of_mem_way (hstart : p.isAbsolute = q.isAbsolute) (hp : p.Dotless) (hq : q.Dotless)
    {c : Component} (hc : c ∈ relative (normalize p.components) (normalize q.components)) :
    c.IsStep := by
  rw [relative_dotless hstart hp hq] at hc
  exact isStep_of_mem_relative (fun c hc => isStep_of_mem_steps hc) hc

theorem isAbsolute_wayFrom (hstart : p.isAbsolute = q.isAbsolute) (hp : p.Dotless)
    (hq : q.Dotless) : ¬isAbsolute ⟨wayFrom p q⟩ = true := by
  rw [wayFrom]
  exact isAbsolute_slashed fun c hc => isStep_of_mem_way hstart hp hq hc

theorem steps_wayFrom (hstart : p.isAbsolute = q.isAbsolute) (hp : p.Dotless) (hq : q.Dotless) :
    steps ⟨wayFrom p q⟩ = relative (normalize p.components) (normalize q.components) := by
  rw [wayFrom]
  exact steps_slashed fun c hc => isStep_of_mem_way hstart hp hq hc

theorem normalize_join_wayFrom (hstart : p.isAbsolute = q.isAbsolute) (hp : p.Dotless)
    (hq : q.Dotless) : normalize (p.join ⟨wayFrom p q⟩).components = normalize q.components := by
  rw [normalize_join (isAbsolute_wayFrom hstart hp hq), steps_wayFrom hstart hp hq,
    foldl_extend_relative hstart hp hq]

def IsDescent (t : Text) : Prop :=
  (List.splitOn '/' t).Pairwise fun s s' => IsSegment s → s' ≠ ['.', '.']

instance (t : Text) : Decidable (IsDescent t) := inferInstanceAs (Decidable (List.Pairwise _ _))

theorem isDescent_slashed {ds fs : List Component} (hfs : ∀ c ∈ fs, ∃ s, IsSegment s ∧ c = .name s) :
    IsDescent (slashed (List.replicate ds.length .up ++ fs)) := by
  have hsteps : ∀ c ∈ List.replicate ds.length .up ++ fs, c.IsStep := by
    intro c hc
    rcases List.mem_append.1 hc with hc | hc
    · rw [List.eq_of_mem_replicate hc]
      exact .up
    · obtain ⟨s, hs, rfl⟩ := hfs c hc
      exact .name hs
  by_cases hne : List.replicate ds.length .up ++ fs = []
  · rw [hne]
    decide
  rw [IsDescent, splitOn_slashed hsteps hne, List.map_append, List.pairwise_append]
  have hup : ∀ s ∈ (List.replicate ds.length Component.up).map Component.text, ¬IsSegment s := by
    intro s hs hsegment
    obtain ⟨c, hc, rfl⟩ := List.mem_map.1 hs
    rw [List.eq_of_mem_replicate hc] at hsegment
    exact hsegment.up rfl
  have hdown : ∀ s ∈ fs.map Component.text, s ≠ ['.', '.'] := by
    intro s hs
    obtain ⟨c, hc, rfl⟩ := List.mem_map.1 hs
    obtain ⟨n, hn, rfl⟩ := hfs c hc
    exact hn.up
  refine ⟨?_, ?_, fun s hs _ _ hsegment => absurd hsegment (hup s hs)⟩
  · exact List.Pairwise.imp_of_mem (fun hs _ _ hsegment => absurd hsegment (hup _ hs))
      (List.pairwise_of_forall fun _ _ => trivial)
  · exact List.Pairwise.imp_of_mem (fun _ hs _ _ => hdown _ hs)
      (List.pairwise_of_forall fun _ _ => trivial)

theorem isDescent_here {t : Text} (h : IsDescent t) : IsDescent ("./" ++ t) := by
  have hhere : List.splitOn '/' ("./" ++ t) = ['.'] :: List.splitOn '/' t :=
    List.splitOn_append_cons_self_of_not_mem (show '/' ∉ ['.'] by decide) t
  rw [IsDescent, hhere]
  exact List.pairwise_cons.2 ⟨fun _ _ hdot => absurd rfl hdot.here, h⟩

theorem isDescent_wayFrom (hstart : p.isAbsolute = q.isAbsolute) (hp : p.Dotless) (hq : q.Dotless) :
    IsDescent (wayFrom p q) := by
  obtain ⟨k, ds, fs, -, hfs, hway⟩ := exists_way hstart hp hq
  rw [wayFrom, hway]
  refine isDescent_slashed fun c hc => ?_
  have hmem : c ∈ q.steps := hfs ▸ List.mem_append_right k hc
  cases isStep_of_mem_steps hmem with
  | up => exact absurd hmem (dotless_iff_steps.1 hq)
  | @name s hs => exact ⟨s, hs, rfl⟩

variable {file target : Path}

theorem moduleSpecifier_begins (file target : Path) :
    "./".toList <+: moduleSpecifier file target ∨ "../".toList <+: moduleSpecifier file target := by
  rcases moduleSpecifier_cases file target with ⟨hup, h⟩ | h
  · exact .inr (h ▸ hup)
  · exact .inl (h ▸ List.prefix_append _ _)

theorem isAbsolute_dropExtension_eq (hstart : file.isAbsolute = target.isAbsolute)
    (hfile : file.fileName?.isSome = true) :
    file.directory.isAbsolute = target.dropExtension.isAbsolute := by
  rw [isAbsolute_directory hfile, isAbsolute_dropExtension, hstart]

theorem isDescent_moduleSpecifier (hstart : file.isAbsolute = target.isAbsolute)
    (hfile : file.fileName?.isSome = true) (hdir : file.directory.Dotless)
    (htarget : target.dropExtension.Dotless) : IsDescent (moduleSpecifier file target) := by
  have hway := isDescent_wayFrom (isAbsolute_dropExtension_eq hstart hfile) hdir htarget
  rcases moduleSpecifier_cases file target with ⟨-, h⟩ | h
  · rwa [h]
  · rw [h]
    exact isDescent_here hway

/-- What a file calls a module leads there from the file's directory. -/
theorem normalize_join_moduleSpecifier (hstart : file.isAbsolute = target.isAbsolute)
    (hfile : file.fileName?.isSome = true) (hdir : file.directory.Dotless)
    (htarget : target.dropExtension.Dotless) :
    normalize (file.directory.join ⟨moduleSpecifier file target⟩).components =
      normalize target.dropExtension.components := by
  have hsame := isAbsolute_dropExtension_eq hstart hfile
  have hway := normalize_join_wayFrom hsame hdir htarget
  rcases moduleSpecifier_cases file target with ⟨-, h⟩ | h
  · rw [h]
    exact hway
  · -- The dot in front of a way is not a step.
    have hhere : ¬isAbsolute ⟨"./" ++ wayFrom file.directory target.dropExtension⟩ = true :=
      Bool.false_ne_true
    rw [normalize_join (isAbsolute_wayFrom hsame hdir htarget)] at hway
    rw [h, normalize_join hhere, steps_here, hway]

theorem exists_segments_join {s : Text} (hs : IsSegment s) (p : Path) :
    ∃ ss, (p.join ⟨s⟩).segments = ss ++ [s] := by
  rcases text_join (p := p) (isAbsolute_of_isSegment hs) with ⟨-, htext⟩ | ⟨u, -, htext⟩ | ⟨hne, htext⟩
  · exact ⟨[], (congrArg (fun t => segments ⟨t⟩) htext).trans (segments_segment hs)⟩
  · by_cases hu : u = []
    · refine ⟨[], (congrArg (fun t => segments ⟨t⟩) htext).trans ?_⟩
      rw [hu, segments, opening, if_pos (show isAbsolute ⟨[] ++ '/' :: s⟩ = true from rfl)]
      exact List.splitOn_eq_singleton hs.slash
    · exact ⟨_, (congrArg (fun t => segments ⟨t⟩) htext).trans (segments_concat hu hs)⟩
  · exact ⟨_, (congrArg (fun t => segments ⟨t⟩) htext).trans (segments_concat hne hs)⟩

theorem getLast?_join {s : Text} (hs : IsSegment s) (p : Path) :
    (p.join ⟨s⟩).text.getLast? ≠ some '/' := by
  rcases text_join (p := p) (isAbsolute_of_isSegment hs) with ⟨-, htext⟩ | ⟨u, -, htext⟩ | ⟨-, htext⟩
  · rw [htext]
    exact fun h => hs.slash (List.mem_of_getLast? h)
  · rw [htext]
    exact getLast?_concat hs u
  · rw [htext]
    exact getLast?_concat hs p.text

theorem moduleSpecifier_beside {s stem extension : Text} (hs : IsSegment s) (hname : IsSegment name)
    (hstem : IsSegment stem) (hdot : '.' ∉ extension) (hslash : '/' ∉ extension) (p : Path) :
    moduleSpecifier ((p.join ⟨s⟩).join ⟨name⟩) ((p.join ⟨s⟩).join ⟨stem ++ '.' :: extension⟩) =
      "./" ++ stem := by
  obtain ⟨ss, hss⟩ := exists_segments_join hs p
  have hlast := getLast?_join hs p
  have hu : (p.join ⟨s⟩).text ≠ [] := join_ne_nil hs
  generalize p.join ⟨s⟩ = dir at hss hlast hu
  obtain ⟨u⟩ := dir
  have hend : dropVoidEnd (segments ⟨u⟩) = segments ⟨u⟩ := by rw [hss, dropVoidEnd_concat hs]
  have hway : wayFrom ⟨u⟩ ⟨u ++ '/' :: stem⟩ = stem := by
    rw [wayFrom, components_concat hu hstem]
    change slashed (relative _ (normalize (_ ++ [stem].map .name))) = _
    rw [normalize_append_names, relative_append (by simp)]
    exact List.intercalate_singleton
  have hdown : ¬List.isPrefixOf "../".toList stem = true := by
    intro h
    exact hstem.slash ((List.isPrefixOf_iff_prefix.1 h).subset (by simp))
  rw [join_append hu hlast hname, join_append hu hlast (isSegment_extended hstem hslash),
    moduleSpecifier, directory_append hu hname hend, dropExtension_concat hu hstem hdot hslash, hway]
  exact if_neg hdown

end Path

end Scaffold
