import Scaffold.Proofs.Anchor.Shapes

namespace Scaffold

def IsLineRest (t : Text) : Prop :=
  ∃ b r, t = b ++ r ∧ (∀ c ∈ b, isBlank c = true) ∧
    (r = [] ∨ r.head? = some '\n' ∨ r.head? = some '}' ∨ "//".toList <+: r)

namespace Cut

/-- A place at the beginning of a line or after all of a line's code. -/
def IsJoint (k : Cut) : Prop :=
  k.before = [] ∨ k.before.getLast? = some '\n' ∨ IsLineRest k.after

theorem isJoint_of_closing {k : Cut} (h : k.after.head? = some '}') : k.IsJoint :=
  .inr (.inr ⟨[], k.after, rfl, by simp, .inr (.inr (.inl h))⟩)

theorem isJoint_of_end {k : Cut} (h : k.after = []) : k.IsJoint :=
  .inr (.inr ⟨[], [], by simpa using h, by simp, .inl rfl⟩)

theorem isJoint_of_beginsLine {k : Cut} (h : Text.beginsLine k.before.getLast? = true) :
    k.IsJoint := by
  cases hk : k.before.getLast? with
  | none => exact .inl (List.getLast?_eq_none_iff.1 hk)
  | some c =>
      rw [hk] at h
      exact .inr (.inl (by rw [hk, beq_iff_eq.1 h]))

theorem beginsLine_lineStart (k : Cut) : Text.beginsLine k.lineStart.before.getLast? = true := by
  cases hk : k.lineStart.before.getLast? with
  | none => rfl
  | some c =>
      have := Text.getLast?_dropEndWhile hk
      simpa [Text.beginsLine] using this

end Cut

namespace Text

theorem of_lastCut? {p : Option Char → Text → Bool} {prev : Option Char} {t : Text} {k : Cut}
    (h : lastCut? p prev t = some k) : p (k.before.getLast?.or prev) k.after = true := by
  induction t generalizing k prev with
  | nil =>
      rw [lastCut?] at h
      split at h
      · next hp => cases h; exact hp
      · cases h
  | cons c t ih =>
      rw [lastCut?] at h
      split at h
      · next j hj =>
          cases h
          have hp := ih hj
          rw [List.getLast?_cons]
          cases hlast : j.before.getLast? with
          | none => simpa [hlast] using hp
          | some d => simpa [hlast] using hp
      · split at h
        · next hp => cases h; exact hp
        · cases h

theorem isJoint_of_lastLine? {p : Text → Bool} {t : Text} {k : Cut} (h : lastLine? p t = some k) :
    k.whole = t ∧ k.IsJoint := by
  have hp := of_lastCut? h
  rw [Option.or_none, Bool.and_eq_true] at hp
  exact ⟨whole_of_lastCut? h, Cut.isJoint_of_beginsLine hp.1⟩

end Text

namespace Brace

theorem suffix_of_afterLiteral? {q : Char} {t u : Text} (h : afterLiteral? q t = some u) :
    u <:+ t := by
  fun_induction afterLiteral? q t with
  | case1 => cases h
  | case2 => cases h
  | case3 _ _ ih => exact (ih h).trans ((List.suffix_cons _ _).trans (List.suffix_cons _ _))
  | case4 => cases h
  | case5 => cases h; exact List.suffix_cons _ _
  | case6 _ _ _ _ _ ih => exact (ih h).trans (List.suffix_cons _ _)

theorem suffix_of_afterComment? {t u : Text} (h : afterComment? t = some u) : u <:+ t := by
  fun_induction afterComment? t with
  | case1 => cases h
  | case2 => cases h; exact (List.drop_suffix _ _).trans (List.suffix_cons _ _)
  | case3 _ _ _ ih => exact (ih h).trans (List.suffix_cons _ _)

theorem suffix_cons_of_suffix {c : Char} {t u v : Text} (hv : v <:+ t)
    (h : u <:+ v ∧ u.head? = some '}') : u <:+ c :: t ∧ u.head? = some '}' :=
  ⟨h.1.trans (hv.trans (List.suffix_cons c t)), h.2⟩

theorem suffix_of_close? {depth : Nat} {t u : Text} (h : close? depth t = some u) :
    u <:+ t ∧ u.head? = some '}' := by
  -- Whatever is skipped on the way, the search goes on in a suffix.
  fun_induction close? depth t with
  | case1 => cases h
  | case2 _ _ ih => exact suffix_cons_of_suffix (List.suffix_refl _) (ih h)
  | case3 => cases h
  | case4 => cases h; exact ⟨List.suffix_refl _, rfl⟩
  | case5 _ _ _ ih => exact suffix_cons_of_suffix (List.suffix_refl _) (ih h)
  | case6 => cases h
  | case7 _ _ _ _ _ _ _ hliteral ih =>
      exact suffix_cons_of_suffix (suffix_of_afterLiteral? hliteral) (ih h)
  | case8 _ _ _ _ _ _ _ ih => exact suffix_cons_of_suffix (List.dropWhile_suffix _) (ih h)
  | case9 => cases h
  | case10 _ _ _ _ _ _ _ _ _ hcomment ih =>
      exact suffix_cons_of_suffix
        ((suffix_of_afterComment? hcomment).trans (List.drop_suffix 1 _)) (ih h)
  | case11 _ _ _ _ _ _ _ _ ih => exact suffix_cons_of_suffix (List.suffix_refl _) (ih h)

end Brace

namespace Anchor

theorem whole_ofRest_after {t rest : Text} {k : Cut} (hk : k.whole = t) (h : rest <:+ k.after) :
    (Cut.ofRest t rest).whole = t := by
  apply Cut.whole_ofRest
  rw [← hk]
  exact h.trans (List.suffix_append _ _)

theorem closing_of_inputMapping {t : Text} {k : Cut} (h : locate t inputMapping = some k) :
    k.whole = t ∧ k.after.head? = some '}' := by
  simp only [locate, Option.bind_eq_bind, Option.bind_eq_some_iff, Option.map_eq_some_iff] at h
  obtain ⟨start, hstart, rest, hrest, rfl⟩ := h
  obtain ⟨hsuffix, hclose⟩ := Shape.suffix_of_inputMapping hrest
  exact ⟨whole_ofRest_after (Text.whole_of_firstCut? hstart) hsuffix, hclose⟩

theorem isJoint_of_firstImport {t : Text} {k : Cut} (h : locate t firstImport = some k) :
    k.whole = t ∧ k.IsJoint := by
  simp only [locate, Option.bind_eq_bind, Option.bind_eq_some_iff, Option.map_eq_some_iff] at h
  obtain ⟨start, hstart, rest, hrest, rfl⟩ := h
  obtain rfl : start.whole = t := Text.whole_of_firstCut? hstart
  obtain ⟨w, hafter, hline⟩ := Shape.of_importStatement hrest
  have hcut : Cut.ofRest start.whole rest = ⟨start.before ++ w, rest⟩ := by
    rw [Cut.whole, hafter, ← List.append_assoc, Cut.ofRest_append]
  rw [hcut]
  refine ⟨by rw [Cut.whole, Cut.whole, hafter, List.append_assoc], ?_⟩
  rcases hline with hline | hend
  · exact .inr (.inl (by rw [List.getLast?_append, hline, Option.some_or]))
  · exact Cut.isJoint_of_end hend

theorem isJoint_of_locateClassEnd {t : Text} {k : Cut} (h : locateClassEnd t = some k) :
    k.whole = t ∧ k.IsJoint := by
  simp only [locateClassEnd, Option.bind_eq_bind, Option.bind_eq_some_iff, Option.some.injEq] at h
  obtain ⟨declaration, hdeclaration, header, hheader, rest, hrest, rfl⟩ := h
  obtain ⟨hsuffix, hclose⟩ := Brace.suffix_of_close? hrest
  have hwhole : (Cut.ofRest t rest).whole = t :=
    whole_ofRest_after (Text.whole_of_firstCut? hdeclaration)
      (hsuffix.trans ((List.dropWhile_suffix _).trans (Shape.suffix_of_classDeclaration hheader)))
  split
  · exact ⟨by rw [Cut.whole_lineStart, hwhole],
      Cut.isJoint_of_beginsLine (Cut.beginsLine_lineStart _)⟩
  · exact ⟨hwhole, Cut.isJoint_of_closing hclose⟩

theorem isJoint_of_locate {a : Anchor} {t : Text} {k : Cut} (h : a.locate t = some k) :
    k.whole = t ∧ k.IsJoint := by
  cases a with
  | inputMapping =>
      obtain ⟨hwhole, hclose⟩ := closing_of_inputMapping h
      exact ⟨hwhole, Cut.isJoint_of_closing hclose⟩
  | catchAllRoute => exact Text.isJoint_of_lastLine? h
  | defaultExport => exact Text.isJoint_of_lastLine? h
  | classEnd => exact isJoint_of_locateClassEnd h
  | textEnd =>
      cases h
      exact ⟨by simp [Cut.whole], Cut.isJoint_of_end rfl⟩
  | firstImport => exact isJoint_of_firstImport h

end Anchor

end Scaffold
