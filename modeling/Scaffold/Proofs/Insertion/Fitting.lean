import Scaffold.Proofs.Edit.Clear
import Scaffold.Proofs.Edit.Insertions
import Scaffold.Proofs.Insertion.Slicing

namespace Scaffold

theorem IsLineRest.head?_ne {t : Text} (h : IsLineRest t) : t.head? ≠ some '{' := by
  obtain ⟨b, r, rfl, hb, hr⟩ := h
  cases b with
  | cons c b =>
      intro hc
      obtain rfl : c = '{' := by simpa using hc
      exact absurd (hb '{' (by simp)) (by decide)
  | nil =>
      rw [List.nil_append]
      rcases hr with rfl | hr | hr | ⟨u, rfl⟩
      · decide
      · rw [hr]
        decide
      · rw [hr]
        decide
      · exact fun hc => absurd (Option.some.inj hc) (by decide)

namespace Cut

theorem head?_lineStart_ne {k : Cut} (hclose : k.after.head? = some '}')
    (hstarts : k.startsLine = true) : k.lineStart.after.head? ≠ some '{' := by
  have hrest : IsLineRest k.lineStart.after :=
    ⟨k.lineHead, k.after, rfl, List.all_eq_true.1 hstarts, .inr (.inr (.inl hclose))⟩
  exact hrest.head?_ne

end Cut

namespace Shape

variable {c : Char} {t : Text}

theorem indent_cons (hc : (c == ' ' || c == '\t') = false) : indent (c :: t) = c :: t :=
  List.dropWhile_cons_of_neg (by simp [hc])

theorem catchAllRoute_brace (t : Text) : catchAllRoute ('{' :: t) = none := by
  have hword : many isWord ('{' :: t) = none := by
    rw [many, one, if_neg (by decide), Option.map_none]
  rw [catchAllRoute, indent_cons (by decide), hword]
  rfl

theorem defaultExport_brace (t : Text) : defaultExport ('{' :: t) = none := by
  rw [defaultExport, indent_cons (by decide)]
  rfl

end Shape

namespace Anchor

variable {a : Anchor} {t : Text} {k : Cut}

theorem head?_ne_of_lastLine? {p : Shape} (hp : ∀ t, p ('{' :: t) = none)
    (h : Text.lastLine? (fun r => (p r).isSome) t = some k) : k.after.head? ≠ some '{' := by
  have hk := Text.of_lastCut? h
  rw [Bool.and_eq_true] at hk
  intro hhead
  obtain ⟨u, hu⟩ := List.head?_eq_some_iff.1 hhead
  have hread : (p k.after).isSome = true := hk.2
  rw [hu, hp] at hread
  cases hread

theorem head?_ne_of_locateClassEnd (h : locateClassEnd t = some k) : k.after.head? ≠ some '{' := by
  simp only [locateClassEnd, Option.bind_eq_bind, Option.bind_eq_some_iff, Option.some.injEq] at h
  obtain ⟨declaration, -, header, -, rest, hrest, rfl⟩ := h
  have hclose : (Cut.ofRest t rest).after.head? = some '}' := (Brace.suffix_of_close? hrest).2
  split
  · next hstarts => exact Cut.head?_lineStart_ne hclose hstarts
  · rw [hclose]
    decide

theorem head?_ne_of_locate (ha : a ≠ .firstImport) (h : a.locate t = some k) :
    k.after.head? ≠ some '{' := by
  cases a with
  | inputMapping =>
      rw [(closing_of_inputMapping h).2]
      decide
  | catchAllRoute => exact head?_ne_of_lastLine? Shape.catchAllRoute_brace h
  | defaultExport => exact head?_ne_of_lastLine? Shape.defaultExport_brace h
  | classEnd => exact head?_ne_of_locateClassEnd h
  | textEnd =>
      cases h
      exact fun hc => by cases hc
  | firstImport => exact absurd rfl ha

end Anchor

namespace Mapping

theorem head?_ne_of_mem_edits {close : Cut} {entry : Text} {e : Edit}
    (hclose : close.after.head? = some '}') (he : e ∈ edits close entry) :
    ∃ (k : Cut) (new : Text),
      e = .insert k.before new ∧ k.whole = close.whole ∧ k.after.head? ≠ some '{' := by
  have hbody := take_append_of_suffix (suffix_body close)
  simp only [edits] at he
  generalize (Text.afterLast? "\x7b" close.before).getD [] = body at he hbody
  generalize close.before.take (close.before.length - body.length) = head at he hbody
  rcases List.mem_append.1 he with he | he
  · obtain ⟨entries, rest, hrest, hline, -, rfl⟩ := exists_of_commaEdit? (Option.mem_toList.1 he)
    refine ⟨⟨head ++ entries, rest ++ close.after⟩, ",", rfl, ?_, ?_⟩
    · rw [Cut.whole, Cut.whole, ← hbody, hrest]
      simp
    · exact (isLineRest_append hline (.inr hclose)).head?_ne
  · obtain rfl := List.mem_singleton.1 he
    unfold entryEdit
    split
    · next h =>
        exact ⟨close.lineStart, _, rfl, Cut.whole_lineStart close,
          Cut.head?_lineStart_ne hclose h.2⟩
    · refine ⟨close, _, rfl, rfl, ?_⟩
      rw [hclose]
      decide

end Mapping

namespace Insertion

variable {i : Insertion} {t : Text} {edits : List Edit} {a anchor : Anchor} {missed : Option Anchor}
  {k : Cut} {e : Edit}

theorem ne_firstImport_of_place? (h : i.place? t = some (a, k)) : a ≠ .firstImport := by
  obtain ⟨-, hmem⟩ := mem_of_place? h
  rintro rfl
  cases hkind : i.kind <;> rw [hkind] at hmem <;> exact absurd hmem (by decide)

theorem place?_schemas (hkind : i.kind = .schemas) (t : Text) :
    i.place? t = some (.textEnd, ⟨t, []⟩) := by
  rw [place?, hkind]
  rfl

theorem exists_of_mem_fragmentEdits (hplace : i.place? t = some (a, k))
    (he : e ∈ i.fragmentEdits k) :
    ∃ (j : Cut) (new : Text),
      e = .insert j.before new ∧ j.whole = t ∧ j.after.head? ≠ some '{' := by
  obtain ⟨hlocate, hbundle⟩ := exists_of_place? hplace
  have hwhole := (Anchor.isJoint_of_locate hlocate).1
  have hhead := Anchor.head?_ne_of_locate (ne_firstImport_of_place? hplace) hlocate
  unfold fragmentEdits at he
  split at he
  · next hkind =>
      rw [hbundle hkind] at hlocate
      obtain ⟨j, new, hj, hjwhole, hjhead⟩ :=
        Mapping.head?_ne_of_mem_edits (Anchor.closing_of_inputMapping hlocate).2 he
      exact ⟨j, new, hj, hjwhole.trans hwhole, hjhead⟩
  · obtain rfl := List.mem_singleton.1 he
    exact ⟨k, _, rfl, hwhole, hhead⟩
  · split at he
    · obtain rfl := List.mem_singleton.1 he
      exact ⟨k, _, rfl, hwhole, hhead⟩
    · obtain rfl := List.mem_singleton.1 he
      exact ⟨k, _, rfl, hwhole, hhead⟩

theorem isInsertion_of_mem_fragmentEdits (hplace : i.place? t = some (a, k))
    (he : e ∈ i.fragmentEdits k) : e.isInsertion = true := by
  obtain ⟨j, new, rfl, -⟩ := exists_of_mem_fragmentEdits hplace he
  exact beq_self_eq_true _

theorem pairwise_fragmentEdits (hplace : i.place? t = some (a, k)) :
    (i.fragmentEdits k).Pairwise Edit.Clear := by
  apply List.pairwise_of_forall_mem_list
  intro e he f hf
  exact Edit.clear_of_isInsertion (isInsertion_of_mem_fragmentEdits hplace he)
    (isInsertion_of_mem_fragmentEdits hplace hf)

/-- A planned edit spans a part of the text and expects that part. -/
theorem Planned.exists_span (h : Planned i t e) :
    ∃ before old after, t = before ++ old ++ after ∧ e = .replace before old e.replacement := by
  cases h with
  | @insert k hk hjoint new =>
      exact ⟨k.before, [], k.after, by rw [List.append_nil]; exact hk.symm, rfl⟩
  | merge hr s =>
      obtain ⟨below, hbelow, -⟩ := s.exists_below
      exact ⟨s.head, s.list, below, hbelow, rfl⟩

theorem Planned.fits (h : Planned i t e) : e.Fits t := by
  obtain ⟨before, old, after, rfl, he⟩ := h.exists_span
  rw [he]
  exact Edit.fits_replace before old after _

theorem exists_splice_of_imports_nil (himports : i.imports = [])
    (hplan : i.plan t = .edits edits anchor missed) : ∃ after, splice t edits = .ok after := by
  have hplanned := planned_of_plan hplan
  obtain ⟨-, k, hplace, rfl⟩ := of_plan hplan
  rw [himports, List.filterMap_nil, List.nil_append] at hplanned ⊢
  exact exists_splice_of_clear (fun e he => (hplanned e he).fits) (pairwise_fragmentEdits hplace)

/-- A fragment in the midst of the list that an import makes longer. -/
def Parts (i : Insertion) (t : Text) (k : Cut) (r : ImportRequest) : Prop :=
  ∃ s : NamedImport r.source t,
    r.plan? t = some (.replace s.head s.list (Import.renderList s.list (r.merged s))) ∧
    ∃ e ∈ i.fragmentEdits k,
      Text.bytes s.head < e.start ∧ e.start < Text.bytes (s.head ++ s.list)

theorem clear_merge {source : Text} (s : NamedImport source t) {j : Cut} (hj : j.whole = t)
    (hhead : j.after.head? ≠ some '{') (list new : Text)
    (hout : ¬(Text.bytes s.head < Text.bytes j.before ∧
      Text.bytes j.before < Text.bytes (s.head ++ s.list))) :
    Edit.Clear (.replace s.head s.list list) (.insert j.before new) := by
  have hne : Text.bytes s.head ≠ Text.bytes j.before := by
    intro heq
    obtain ⟨below, hbelow, -⟩ := s.exists_below
    have hsplit : j.before ++ j.after = s.head ++ (s.list ++ below) := by
      rw [← List.append_assoc, ← hbelow]
      exact hj
    have hdrop := congrArg (Text.dropBytes (Text.bytes j.before)) hsplit
    rw [Text.dropBytes_bytes_append, ← heq, Text.dropBytes_bytes_append] at hdrop
    exact hhead (by rw [hdrop]; rfl)
  rw [Text.bytes_append] at hout
  constructor
  · intro hle
    have hle : Text.bytes s.head ≤ Text.bytes j.before := hle
    change Text.bytes s.head + Text.bytes s.list ≤ Text.bytes j.before
    omega
  · exact fun hle => hle

/-- Where the fragment does not go into the list that an import makes longer, the edits keep clear of
one another. -/
theorem pairwise_clear_of_not_parts {r : ImportRequest} (himports : i.imports = [r])
    (hplace : i.place? t = some (anchor, k)) (hparts : ¬i.Parts t k r) :
    ((r.plan? t).toList ++ i.fragmentEdits k).Pairwise Edit.Clear := by
  refine List.pairwise_append.2 ⟨?_, pairwise_fragmentEdits hplace, ?_⟩
  · cases r.plan? t with
    | none => exact .nil
    | some e => exact List.pairwise_singleton _ _
  · intro e he f hf
    have hr := Option.mem_toList.1 he
    obtain ⟨j, new, rfl, hj, hhead⟩ := exists_of_mem_fragmentEdits hplace hf
    cases planned_of_plan? (i := i) (by simp [himports]) hr with
    | insert => exact Edit.clear_of_isInsertion (beq_self_eq_true _) (beq_self_eq_true _)
    | @merge q hq s =>
        rw [himports, List.mem_singleton] at hq
        subst hq
        exact clear_merge s hj hhead _ _ fun hin => hparts ⟨s, hr, _, hf, hin⟩

theorem splice_eq_error_iff_parts {r : ImportRequest} (himports : i.imports = [r])
    (hplan : i.plan t = .edits edits anchor missed) (hplace : i.place? t = some (anchor, k)) :
    (∃ n, splice t edits = .error (.overlap n)) ↔ i.Parts t k r := by
  have hfits : ∀ e ∈ edits, e.Fits t := fun e he => (planned_of_plan hplan e he).fits
  obtain ⟨-, k', hplace', rfl⟩ := of_plan hplan
  obtain rfl : k = k' := congrArg Prod.snd (Option.some.inj (hplace.symm.trans hplace'))
  have hedits : i.imports.filterMap (·.plan? t) = (r.plan? t).toList := by
    rw [himports, List.filterMap_cons, List.filterMap_nil]
    cases r.plan? t <;> rfl
  rw [hedits] at hfits ⊢
  constructor
  · rintro ⟨n, hn⟩
    by_contra hparts
    obtain ⟨after, hafter⟩ :=
      exists_splice_of_clear hfits (pairwise_clear_of_not_parts himports hplace hparts)
    rw [hafter] at hn
    cases hn
  · rintro ⟨s, hr, e, he, hstart, hstop⟩
    cases hsplice : splice t ((r.plan? t).toList ++ i.fragmentEdits k) with
    | error err =>
        obtain ⟨n, rfl⟩ := overlap_of_splice_eq_error hfits hsplice
        exact ⟨n, rfl⟩
    | ok after =>
        -- Edits that are carried out together keep apart, but this one stands within the list.
        have hinsertion : e.start = e.stop :=
          beq_iff_eq.1 (isInsertion_of_mem_fragmentEdits hplace he)
        have hmem := List.mem_append_left (i.fragmentEdits k) (Option.mem_toList.2 hr)
        have hapart := before_or_before_of_splice hsplice hmem (List.mem_append_right _ he)
        rw [Text.bytes_append] at hstop
        rcases hapart (by rintro rfl; exact Nat.lt_irrefl _ hstart) with h | h
        · change Text.bytes s.head + Text.bytes s.list ≤ e.start at h
          omega
        · change e.stop ≤ Text.bytes s.head at h
          omega

theorem not_parts_of_schemas {r : ImportRequest} (hkind : i.kind = .schemas)
    (hplace : i.place? t = some (anchor, k)) : ¬i.Parts t k r := by
  rintro ⟨s, -, e, he, -, hstop⟩
  rw [place?_schemas hkind] at hplace
  cases hplace
  have hstart : e.start = Text.bytes t := by
    rw [fragmentEdits, hkind] at he
    obtain rfl := List.mem_singleton.1 he
    rfl
  obtain ⟨below, hbelow, -⟩ := s.exists_below
  have hbytes := congrArg Text.bytes hbelow
  rw [Text.bytes_append] at hbytes
  omega

/-- What is planned for a text fits it. The text is sliced only between characters, and every edit
spans a part of the text and expects that part, so that only an overlap can be told when the plan is
carried out. There is none without imports, nor for one import with a schema at the end of the file,
and for one import with any other fragment there is one just if the import makes a list longer in
whose midst the fragment goes. -/
theorem plans_fit_their_text (i : Insertion) (t : Text) : i.planAt t = .ok (i.plan t) ∧
    ∀ edits anchor missed, i.plan t = .edits edits anchor missed →
      ∃ k, i.place? t = some (anchor, k) ∧ k.whole = t ∧
        edits = i.imports.filterMap (·.plan? t) ++ i.fragmentEdits k ∧
        (∀ e ∈ i.fragmentEdits k, e.isInsertion = true) ∧
        (∀ e ∈ edits, e.check t = .ok () ∧ ∃ before old after,
          t = before ++ old ++ after ∧ e = .replace before old e.replacement) ∧
        (∀ err, splice t edits = .error err → ∃ n, err = .overlap n) ∧
        (i.imports = [] → ∃ after, splice t edits = .ok after) ∧
        ∀ r, i.imports = [r] →
          (i.kind = .schemas → ∃ after, splice t edits = .ok after) ∧
          ((∃ err, splice t edits = .error err) ↔ ∃ s : NamedImport r.source t,
            r.plan? t = some (.replace s.head s.list (Import.renderList s.list (r.merged s))) ∧
            ∃ e ∈ i.fragmentEdits k,
              Text.bytes s.head < e.start ∧ e.start < Text.bytes (s.head ++ s.list)) := by
  refine ⟨planAt_eq i t, fun edits anchor missed hplan => ?_⟩
  have hplanned := planned_of_plan hplan
  have hfits : ∀ e ∈ edits, e.Fits t := fun e he => (hplanned e he).fits
  have hoverlap : ∀ err, splice t edits = .error err → ∃ n, err = .overlap n :=
    fun err => overlap_of_splice_eq_error hfits
  obtain ⟨-, k, hplace, hedits⟩ := of_plan hplan
  have hwhole := (Anchor.isJoint_of_locate (exists_of_place? hplace).1).1
  refine ⟨k, hplace, hwhole, hedits, fun e => isInsertion_of_mem_fragmentEdits hplace, ?_, hoverlap,
    fun himports => exists_splice_of_imports_nil himports hplan, fun r himports => ?_⟩
  · exact fun e he => ⟨Edit.check_eq_ok_iff.2 (hfits e he), (hplanned e he).exists_span⟩
  · have hiff := splice_eq_error_iff_parts himports hplan hplace
    refine ⟨fun hkind => ?_, ⟨?_, fun h => ?_⟩⟩
    · cases hsplice : splice t edits with
      | ok after => exact ⟨after, rfl⟩
      | error err =>
          obtain ⟨n, rfl⟩ := hoverlap err hsplice
          exact absurd (hiff.1 ⟨n, hsplice⟩) (not_parts_of_schemas hkind hplace)
    · rintro ⟨err, herr⟩
      obtain ⟨n, rfl⟩ := hoverlap err herr
      exact hiff.1 ⟨n, herr⟩
    · obtain ⟨n, hn⟩ := hiff.2 h
      exact ⟨_, hn⟩

/-- A route that stands in the list of an import. -/
theorem plans_fit_their_text_route :
    ∃ edits, Insertion.planAt
        ⟨.routes, ["newsRoute"], [⟨"./api", ["news"], false⟩], "app.get('/news', news);"⟩
        "import \x7b\napp.get('*', x)\n\x7d from './api';\n" =
          .ok (.edits edits .catchAllRoute none) ∧
      ∃ err, splice "import \x7b\napp.get('*', x)\n\x7d from './api';\n" edits = .error err := by
  have hplan : Insertion.plan
      ⟨.routes, ["newsRoute"], [⟨"./api", ["news"], false⟩], "app.get('/news', news);"⟩
      "import \x7b\napp.get('*', x)\n\x7d from './api';\n" =
        .edits [.replace "import ".toList "\x7b\napp.get('*', x)\n\x7d".toList
            "\x7b\napp.get('*',\nx),\nnews,\n\x7d",
          .insert "import \x7b\n".toList "app.get('/news', news);\n\n"] .catchAllRoute none := by
    decide +kernel
  obtain ⟨hplanAt, hfits⟩ := plans_fit_their_text _ _
  obtain ⟨k, hplace, -, -, -, -, -, -, himport⟩ := hfits _ _ _ hplan
  have hk : Insertion.place?
      ⟨.routes, ["newsRoute"], [⟨"./api", ["news"], false⟩], "app.get('/news', news);"⟩
      "import \x7b\napp.get('*', x)\n\x7d from './api';\n" =
        some (.catchAllRoute, ⟨"import \x7b\n", "app.get('*', x)\n\x7d from './api';\n"⟩) := by
    decide +kernel
  rw [hk] at hplace
  cases hplace
  let s : NamedImport "./api" "import \x7b\napp.get('*', x)\n\x7d from './api';\n" :=
    { above := [], gap := " ", typeGap := none, body := "\napp.get('*', x)\n", fromGap := " "
      quoteGap := " ", opening := '\'', closing := '\'', below := ";\n"
      above_lines := .inl rfl
      gap_blank := ⟨by decide, by simp; decide⟩
      typeGap_blank := by simp
      body_open := by decide
      fromGap_blank := by simp; decide
      quoteGap_blank := by simp; decide
      quotes := by decide
      whole := by decide }
  refine ⟨_, hplanAt.trans (congrArg _ hplan), (himport _ rfl).2.2 ⟨s, by decide +kernel,
    .insert "import \x7b\n".toList "app.get('/news', news);\n\n", by decide +kernel, by decide,
    by decide⟩⟩

end Insertion

end Scaffold
