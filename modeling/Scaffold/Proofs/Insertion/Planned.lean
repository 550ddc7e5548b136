import Scaffold.Insertion.Plan
import Scaffold.Proofs.Anchor.Places
import Scaffold.Proofs.Import.Statements

namespace Scaffold

theorem Text.suffix_of_afterLast? {pattern t rest : Text}
    (h : Text.afterLast? pattern t = some rest) : rest <:+ t := by
  induction t with
  | nil => cases h
  | cons c t ih =>
      rw [Text.afterLast?] at h
      split at h
      · next r hr =>
          cases h
          exact (ih hr).trans (List.suffix_cons c t)
      · split at h
        · cases h
          exact List.drop_suffix _ _
        · cases h

theorem Text.afterLast?_eq_none {pattern t : Text} {c : Char} (hc : c ∈ pattern) (ht : c ∉ t) :
    Text.afterLast? pattern t = none := by
  induction t with
  | nil => rfl
  | cons d t ih =>
      have hprefix : ¬pattern.isPrefixOf (d :: t) = true := fun h =>
        ht ((List.isPrefixOf_iff_prefix.1 h).subset hc)
      rw [Text.afterLast?, ih fun h => ht (List.mem_cons_of_mem d h)]
      exact if_neg hprefix

namespace Mapping

theorem codeFrom_split (quote : Option Char) (escaped : Bool) (line : Text) :
    ∃ r, line = codeFrom quote escaped line ++ r ∧ (r = [] ∨ "//".toList <+: r) := by
  fun_induction codeFrom quote escaped line with
  | case1 => exact ⟨[], rfl, .inl rfl⟩
  | case2 | case3 | case4 | case5 | case6 | case8 =>
      rename_i ih
      obtain ⟨r, hr, hrest⟩ := ih
      exact ⟨r, congrArg _ hr, hrest⟩
  | case7 =>
      rename_i hslash
      obtain ⟨rfl, hnext⟩ := hslash
      obtain ⟨u, rfl⟩ := List.head?_eq_some_iff.1 hnext
      exact ⟨_, rfl, .inr ⟨u, rfl⟩⟩

theorem line_split (line : Text) :
    ∃ rest, line = Text.trimEnd (code line) ++ rest ∧ IsLineRest rest := by
  obtain ⟨r, hr, hrest⟩ := codeFrom_split none false line
  obtain ⟨b, hb, hblank⟩ := Text.trimEnd_split (code line)
  refine ⟨b ++ r, by rw [← List.append_assoc, ← hb]; exact hr, b, r, rfl, hblank, ?_⟩
  rcases hrest with h | h
  · exact .inl h
  · exact .inr (.inr (.inr h))

theorem isLineRest_append {rest t : Text} (h : IsLineRest rest)
    (ht : t.head? = some '\n' ∨ t.head? = some '}') : IsLineRest (rest ++ t) := by
  obtain ⟨b, r, rfl, hb, hr⟩ := h
  refine ⟨b, r ++ t, by rw [List.append_assoc], hb, ?_⟩
  rcases hr with rfl | hr | hr | ⟨u, rfl⟩
  · exact .inr (ht.imp_right .inl)
  · exact .inr (.inl (by rw [List.head?_append, hr, Option.some_or]))
  · exact .inr (.inr (.inl (by rw [List.head?_append, hr, Option.some_or])))
  · exact .inr (.inr (.inr ⟨u ++ t, by rw [List.append_assoc]⟩))

theorem upToCode?_split {lines : List Text} {entries : Text} (h : upToCode? lines = some entries) :
    ∃ rest, List.intercalate "\n" lines.reverse = entries ++ rest ∧ IsLineRest rest := by
  induction lines with
  | nil => cases h
  | cons line earlier ih =>
      rw [List.reverse_cons]
      simp only [upToCode?] at h
      split at h
      · obtain ⟨rest, hrest, hline⟩ := ih h
        have hne : earlier.reverse ≠ [] := by
          intro hnil
          rw [List.reverse_eq_nil_iff.1 hnil] at h
          cases h
        refine ⟨rest ++ '\n' :: line, ?_, isLineRest_append hline (.inl rfl)⟩
        rw [Text.intercalate_append_line _ hne, hrest, List.append_assoc]
      · obtain ⟨rest, hrest, hline⟩ := line_split line
        refine ⟨rest, ?_, hline⟩
        conv => lhs; rw [hrest, Text.intercalate_append_singleton]
        rw [← Option.some.inj h]

theorem take_append_of_suffix {body t : Text} (h : body <:+ t) :
    t.take (t.length - body.length) ++ body = t := by
  obtain ⟨head, rfl⟩ := h
  simp

theorem suffix_body (close : Cut) :
    (Text.afterLast? "\x7b" close.before).getD [] <:+ close.before := by
  cases h : Text.afterLast? "\x7b" close.before with
  | none => exact List.nil_suffix
  | some body => exact Text.suffix_of_afterLast? h

theorem getLast?_of_upToCode? {lines : List Text} {entries : Text}
    (h : upToCode? lines = some entries) :
    ∃ c, entries.getLast? = some c ∧ isBlank c = false := by
  induction lines with
  | nil => cases h
  | cons line earlier ih =>
      simp only [upToCode?] at h
      split at h
      · exact ih h
      · next hblank =>
          have hne : Text.trimEnd (code line) ≠ [] := fun hnil => hblank (by rw [hnil]; rfl)
          have hlast := List.getLast?_eq_some_getLast hne
          have hjoin :=
            Text.intercalate_append_singleton earlier.reverse [] (Text.trimEnd (code line))
          rw [List.nil_append] at hjoin
          refine ⟨_, ?_, Text.getLast?_dropEndWhile hlast⟩
          rw [← Option.some.inj h, hjoin, List.getLast?_append, hlast, Option.some_or]

theorem exists_of_commaEdit? {head body : Text} {e : Edit} (h : commaEdit? head body = some e) :
    ∃ entries rest, body = entries ++ rest ∧ IsLineRest rest ∧
      (∃ c, entries.getLast? = some c ∧ isBlank c = false) ∧ e = .insert (head ++ entries) "," := by
  simp only [commaEdit?, Option.bind_eq_bind, Option.bind_eq_some_iff] at h
  obtain ⟨entries, hentries, he⟩ := h
  obtain ⟨rest, hrest, hline⟩ := upToCode?_split hentries
  rw [List.reverse_reverse, show "\n".toList = ['\n'] from rfl, List.intercalate_splitOn] at hrest
  split at he
  · cases he
  · exact ⟨entries, rest, hrest, hline, getLast?_of_upToCode? hentries, (Option.some.inj he).symm⟩

theorem isJoint_of_mem_edits {close : Cut} {entry : Text} {e : Edit}
    (hclose : close.after.head? = some '}') (he : e ∈ edits close entry) :
    ∃ (k : Cut) (new : Text), e = .insert k.before new ∧ k.whole = close.whole ∧ k.IsJoint := by
  have hbody := take_append_of_suffix (suffix_body close)
  simp only [edits] at he
  generalize (Text.afterLast? "\x7b" close.before).getD [] = body at he hbody
  generalize close.before.take (close.before.length - body.length) = head at he hbody
  rcases List.mem_append.1 he with he | he
  · obtain ⟨entries, rest, hrest, hline, -, rfl⟩ := exists_of_commaEdit? (Option.mem_toList.1 he)
    refine ⟨⟨head ++ entries, rest ++ close.after⟩, ",", rfl, ?_, ?_⟩
    · rw [Cut.whole, Cut.whole, ← hbody, hrest]
      simp
    · exact .inr (.inr (isLineRest_append hline (.inr hclose)))
  · obtain rfl := List.mem_singleton.1 he
    unfold entryEdit
    split
    · exact ⟨close.lineStart, _, rfl, Cut.whole_lineStart close,
        Cut.isJoint_of_beginsLine (Cut.beginsLine_lineStart close)⟩
    · exact ⟨close, _, rfl, rfl, Cut.isJoint_of_closing hclose⟩

end Mapping

namespace Insertion

variable {i : Insertion} {t : Text}

/-- The edits of which the plan of an insertion is made. -/
inductive Planned (i : Insertion) (t : Text) : Edit → Prop
  | insert {k : Cut} (hk : k.whole = t) (hjoint : k.IsJoint) (new : Text) :
      Planned i t (.insert k.before new)
  | merge {r : ImportRequest} (hr : r ∈ i.imports) (s : NamedImport r.source t) :
      Planned i t (.replace s.head s.list (Import.renderList s.list (r.merged s)))

theorem planned_of_plan? {r : ImportRequest} {e : Edit} (hr : r ∈ i.imports)
    (h : r.plan? t = some e) : Planned i t e := by
  unfold ImportRequest.plan? at h
  split at h
  · next f hf =>
      obtain ⟨s, rfl⟩ := r.exists_of_join? (List.mem_of_find?_eq_some hf) h
      exact .merge hr s
  · obtain rfl := Option.some.inj h
    unfold ImportRequest.addStatement
    simp only
    split
    · next k hk =>
        obtain ⟨hwhole, hjoint⟩ := Anchor.isJoint_of_locate hk
        exact .insert hwhole hjoint _
    · exact .insert (k := ⟨[], t⟩) rfl (.inl rfl) _

theorem mem_of_place? {a : Anchor} {k : Cut} (h : i.place? t = some (a, k)) :
    a.locate t = some k ∧ (a ∈ i.kind.anchors ∨ i.kind.fallback? = some a) := by
  rw [place?, Option.or_eq_some_iff] at h
  rcases h with h | ⟨-, h⟩
  · obtain ⟨b, hb, hlocated⟩ := List.exists_of_findSome?_eq_some h
    obtain ⟨j, hj, hab⟩ := Option.map_eq_some_iff.1 hlocated
    cases hab
    exact ⟨hj, .inl hb⟩
  · obtain ⟨b, hb, hlocated⟩ := Option.bind_eq_some_iff.1 h
    obtain ⟨j, hj, hab⟩ := Option.map_eq_some_iff.1 hlocated
    cases hab
    exact ⟨hj, .inr hb⟩

theorem exists_of_place? {a : Anchor} {k : Cut} (h : i.place? t = some (a, k)) :
    a.locate t = some k ∧ (i.kind = .bundle → a = .inputMapping) := by
  obtain ⟨hlocate, hmem⟩ := mem_of_place? h
  refine ⟨hlocate, fun hkind => ?_⟩
  rw [hkind] at hmem
  simpa [FileKind.anchors, FileKind.mainAnchor, FileKind.fallback?] using hmem

theorem planned_of_mem_fragmentEdits {a : Anchor} {k : Cut} {e : Edit}
    (h : i.place? t = some (a, k)) (he : e ∈ i.fragmentEdits k) : Planned i t e := by
  obtain ⟨hlocate, hbundle⟩ := exists_of_place? h
  obtain ⟨hwhole, hjoint⟩ := Anchor.isJoint_of_locate hlocate
  unfold fragmentEdits at he
  split at he
  · next hkind =>
      rw [hbundle hkind] at hlocate
      obtain ⟨-, hclose⟩ := Anchor.closing_of_inputMapping hlocate
      obtain ⟨j, new, rfl, hj, hjj⟩ := Mapping.isJoint_of_mem_edits hclose he
      exact .insert (hj.trans hwhole) hjj new
  · obtain rfl := List.mem_singleton.1 he
    exact .insert hwhole hjoint _
  · split at he
    · obtain rfl := List.mem_singleton.1 he
      exact .insert hwhole hjoint _
    · obtain rfl := List.mem_singleton.1 he
      exact .insert hwhole hjoint _

theorem of_plan {edits : List Edit} {anchor : Anchor} {missed : Option Anchor}
    (h : i.plan t = .edits edits anchor missed) :
    i.isPresent t = false ∧ ∃ k, i.place? t = some (anchor, k) ∧
      edits = i.imports.filterMap (·.plan? t) ++ i.fragmentEdits k := by
  unfold plan at h
  split at h
  · cases h
  · next hpresent =>
      split at h
      · cases h
      · next a k hplace =>
          cases h
          exact ⟨by simpa using hpresent, k, hplace, rfl⟩

theorem planned_of_plan {edits : List Edit} {anchor : Anchor} {missed : Option Anchor}
    (h : i.plan t = .edits edits anchor missed) : ∀ e ∈ edits, Planned i t e := by
  obtain ⟨-, k, hplace, rfl⟩ := of_plan h
  intro e he
  rcases List.mem_append.1 he with he | he
  · obtain ⟨r, hr, hplan⟩ := List.mem_filterMap.1 he
    exact planned_of_plan? hr hplan
  · exact planned_of_mem_fragmentEdits hplace he

end Insertion

end Scaffold
