import Scaffold.Proofs.Import.Lists
import Scaffold.Proofs.Insertion.Keeping
import Scaffold.Proofs.Insertion.Presence
import Scaffold.Proofs.Text.Sturdy

namespace Scaffold

namespace Text

theorem Sturdy.not_isLineRest {a b v : Text} (h : Sturdy (a ++ b)) (ha : a ≠ []) (hb : b ≠ []) :
    ¬IsLineRest (b ++ v) := by
  rintro ⟨blanks, r, hsplit, hblanks, hr⟩
  obtain ⟨d, hd, hdblank⟩ := h.solid.last
  have hdb : b.getLast? = some d := by
    rwa [List.getLast?_append_of_ne_nil a hb] at hd
  -- The blanks end within `b`, which does not end in one.
  have hlater : ∃ w, b = blanks ++ w ∧ w ≠ [] ∧ r = w ++ v := by
    rcases List.append_eq_append_iff.1 hsplit with ⟨w, hw, hv⟩ | ⟨w, hw, hr⟩
    · have hmem : d ∈ blanks := by
        rw [hw]
        exact List.mem_append_left w (List.mem_of_getLast? hdb)
      exact absurd (hblanks d hmem) (by simp [hdblank])
    · refine ⟨w, hw, ?_, hr⟩
      rintro rfl
      rw [List.append_nil] at hw
      exact absurd (hblanks d (hw ▸ List.mem_of_getLast? hdb)) (by simp [hdblank])
  obtain ⟨w, rfl, hw, rfl⟩ := hlater
  obtain ⟨c, w, rfl⟩ := List.exists_cons_of_ne_nil hw
  have hc : c ∉ breaks := h.whole c (by simp)
  rcases hr with hr | hr | hr | ⟨u, hr⟩
  · simp at hr
  · obtain rfl : c = '\n' := by simpa using hr
    exact hc (by decide)
  · obtain rfl : c = '}' := by simpa using hr
    exact hc (by decide)
  · change '/' :: '/' :: u = c :: (w ++ v) at hr
    obtain ⟨rfl, hw'⟩ := List.cons.inj hr
    cases w with
    | nil => exact h.last (by rw [← List.append_assoc, List.getLast?_concat])
    | cons e w =>
        obtain ⟨rfl, -⟩ := List.cons.inj hw'
        obtain ⟨f, a, rfl⟩ := List.exists_cons_of_ne_nil ha
        have hchain : ('/' :: '/' :: w).IsChain Apart :=
          h.slashes.suffix ⟨a ++ blanks, by simp⟩
        exact (List.isChain_cons_cons.1 hchain).1 ⟨rfl, rfl⟩

end Text

namespace Cut

theorem IsJoint.spares {k : Cut} {u m v : Text} (hk : k.whole = u ++ m ++ v) (hjoint : k.IsJoint)
    (hm : Text.Sturdy m) (new : Text) : (Edit.insert k.before new).Spares u m := by
  rw [Cut.whole, List.append_assoc] at hk
  rcases List.append_eq_append_iff.1 hk with ⟨w, hu, hafter⟩ | ⟨a, hbefore, hafter⟩
  · exact .before (by rw [hu, Text.bytes_append]; exact Nat.le_add_right _ _)
  · rcases List.append_eq_append_iff.1 hafter with ⟨b, ha, hv⟩ | ⟨b, hma, hb⟩
    · have hprefix : k.before = u ++ m ++ b := by rw [hbefore, ha, List.append_assoc]
      refine .after ?_
      rw [Edit.insert, hprefix, Text.bytes_append _ b]
      exact Nat.le_add_right _ _
    · subst hma
      by_cases hane : a = []
      · subst hane
        exact .before (by rw [Edit.insert, hbefore, List.append_nil])
      by_cases hbne : b = []
      · subst hbne
        exact .after (by rw [Edit.insert, hbefore, List.append_nil])
      rcases hjoint with hnil | hline | hrest
      · rw [hbefore, List.append_eq_nil_iff] at hnil
        exact absurd hnil.2 hane
      · rw [hbefore, List.getLast?_append_of_ne_nil u hane] at hline
        have hmem := List.mem_append_left b (List.mem_of_getLast? hline)
        exact absurd (by decide) (hm.whole '\n' hmem)
      · rw [hb] at hrest
        exact absurd hrest (hm.not_isLineRest hane hbne)

end Cut

namespace NamedImport

variable {source u m v : Text}

theorem isInfix_list {list : Text} {es : List Text} (hes : ∀ e ∈ Import.entries list, e ∈ es)
    (hm : Text.Sturdy m) (h : m <:+: list) : m <:+: Import.renderList list es := by
  obtain ⟨e, he, hme⟩ := Import.exists_mem_entries h hm.solid
    (fun hc => hm.whole _ hc (by decide)) (fun hc => hm.whole _ hc (by decide))
    (fun hc => hm.whole _ hc (by decide))
  exact Import.isInfix_renderList ⟨e, hes e he, hme⟩

theorem spares (s : NamedImport source (u ++ m ++ v)) {es : List Text}
    (hes : ∀ e ∈ Import.entries s.list, e ∈ es) (hm : Text.Sturdy m) :
    (Edit.replace s.head s.list (Import.renderList s.list es)).Spares u m := by
  obtain ⟨below, hwhole, -⟩ := s.exists_below
  have hstart : ∃ body, s.list = '{' :: body := ⟨_, rfl⟩
  have hstop : s.list.getLast? = some '}' := List.getLast?_concat
  have hentries := @isInfix_list m s.list es hes hm
  generalize Import.renderList s.list es = new at hentries ⊢
  generalize s.head = head at *
  generalize s.list = list at *
  rw [List.append_assoc, List.append_assoc] at hwhole
  -- The part is behind the list, before it or within it; it would have a brace if it crossed one.
  rcases List.append_eq_append_iff.1 hwhole with ⟨w, rfl, hrest⟩ | ⟨w, rfl, hrest⟩
  · rcases List.append_eq_append_iff.1 hrest with ⟨x, rfl, -⟩ | ⟨x, rfl, hlist⟩
    · refine .after ?_
      rw [Edit.replace, ← List.append_assoc, Text.bytes_append _ x]
      exact Nat.le_add_right _ _
    · cases x with
      | nil => exact .after (by rw [Edit.replace, List.append_nil])
      | cons c x =>
          obtain ⟨body, rfl⟩ := hstart
          obtain ⟨rfl, -⟩ := List.cons.inj hlist
          exact absurd (by decide) (hm.whole '{' (by simp))
  · rcases List.append_eq_append_iff.1 hrest with ⟨x, rfl, -⟩ | ⟨x, rfl, hm'⟩
    · refine .before ?_
      simp only [Edit.replace, Text.bytes_append]
      omega
    · rcases List.append_eq_append_iff.1 hm' with ⟨y, rfl, -⟩ | ⟨y, rfl, -⟩
      · refine .within (by simp [Edit.replace]) ?_ (hentries ⟨w, y, by simp⟩)
        simp only [Edit.replace, Text.bytes_append]
        omega
      · cases x with
        | nil =>
            refine .before ?_
            simp only [Edit.replace, Text.bytes_append, Text.bytes_nil]
            omega
        | cons c x =>
            rw [List.getLast?_append_of_ne_nil w (List.cons_ne_nil c x)] at hstop
            have hmem := List.mem_append_left y (List.mem_of_getLast? hstop)
            exact absurd (by decide) (hm.whole '}' hmem)

end NamedImport

namespace Insertion

variable {i : Insertion} {t : Text}

theorem Planned.spares {u m v : Text} {e : Edit} (he : Planned i (u ++ m ++ v) e)
    (hm : Text.Sturdy m) : e.Spares u m := by
  cases he with
  | insert hk hjoint new => exact hjoint.spares hk hm new
  | merge hr s => exact s.spares (fun _ => List.mem_append_left _) hm

/-- What is sturdy outlives every insertion. -/
theorem isInfix_of_plan {after m : Text} {edits : List Edit} {anchor : Anchor}
    {missed : Option Anchor} (hplan : i.plan t = .edits edits anchor missed)
    (hsplice : splice t edits = .ok after) (hm : Text.Sturdy m) (hmt : m <:+: t) :
    m <:+: after := by
  obtain ⟨u, v, rfl⟩ := hmt
  obtain ⟨hlaid, rfl⟩ := laid_of_splice hsplice
  refine Edit.isInfix_weave_of_spares hlaid (Nat.zero_le _) fun e he => ?_
  have hmem : e ∈ edits := (Edit.perm_ordered edits).mem_iff.1 he
  exact (planned_of_plan hplan e hmem).spares hm

def HasSturdyMark (i : Insertion) : Prop :=
  ∃ m, Text.Sturdy m ∧ m <:+: i.core ∧ ∃ mark ∈ i.markers, mark <:+: m

theorem HasSturdyMark.isMarked (h : i.HasSturdyMark) : i.IsMarked := by
  obtain ⟨m, -, hcore, mark, hmem, hmark⟩ := h
  exact ⟨mark, hmem, Text.contains_iff.2 (hmark.trans hcore)⟩

theorem hasSturdyMark_of_isInfix {m mark : Text} (hm : Text.Sturdy m)
    (hfragment : m <:+: i.fragment) (hmem : mark ∈ i.markers) (hmark : mark <:+: m) :
    i.HasSturdyMark := by
  obtain ⟨c, hc, hblank⟩ := hm.solid.last
  have hline : (c == '\n') = false := by
    apply beq_eq_false_iff_ne.2
    rintro rfl
    exact absurd hblank (by decide)
  exact ⟨m, hm, Text.isInfix_dropEndWhile hfragment ⟨c, hc, hline⟩, mark, hmem, hmark⟩

end Insertion

end Scaffold
