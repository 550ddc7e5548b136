import Scaffold.Proofs.Import.Statements

namespace Scaffold.Import

/-- What stands before the clause of an import that binds a name outside of a list: the name alone, or
before a list, or a star that goes by the name. -/
inductive BindsWhole (name : Text) : Text → Prop
  | default {gap : Text} (hne : gap ≠ []) (hgap : ∀ c ∈ gap, isBlank c = true) :
      BindsWhole name (name ++ gap)
  | besides {gap listGap body : Text} (hgap : ∀ c ∈ gap, isBlank c = true)
      (hlistGap : ∀ c ∈ listGap, isBlank c = true) (hbody : '}' ∉ body) :
      BindsWhole name (name ++ gap ++ ',' :: listGap ++ '{' :: body ++ ['}'])
  | star {asGap gap clauseGap : Text} (hasGap : ∀ c ∈ asGap, isBlank c = true)
      (hne : gap ≠ [] ∧ clauseGap ≠ []) (hgap : ∀ c ∈ gap ++ clauseGap, isBlank c = true) :
      BindsWhole name ('*' :: asGap ++ "as" ++ gap ++ name ++ clauseGap)

/-- An import of a default or of a whole module that begins a line and binds `name`. The name does
not stand in a list right behind the word `import`, so this is never among the statements that are
looked for. -/
structure UnlistedImport (source name t : Text) where
  above : Text
  gap : Text
  binding : Text
  clause : Text
  below : Text
  above_lines : above = [] ∨ above.getLast? = some '\n'
  gap_blank : gap ≠ [] ∧ ∀ c ∈ gap, isBlank c = true
  binds : BindsWhole name binding
  isClause : IsClause source clause
  whole : t = above ++ "import" ++ gap ++ binding ++ clause ++ below

variable {source name t binding : Text}

theorem BindsWhole.head? (h : BindsWhole name binding) (hname : name ≠ []) :
    binding.head? = name.head? ∨ binding.head? = some '*' := by
  obtain ⟨c, name, rfl⟩ := List.exists_cons_of_ne_nil hname
  cases h with
  | default | besides => exact .inl rfl
  | star => exact .inr rfl

theorem UnlistedImport.above_ne (u : UnlistedImport source name t) (s : NamedImport source t)
    (hname : ∃ c, name.head? = some c ∧ isBlank c = false ∧ c ≠ '{' ∧ c ≠ 't') :
    s.above ≠ u.above := by
  intro habove
  obtain ⟨c, hc, hvisible, hbrace, htype⟩ := hname
  have hne : name ≠ [] := by
    rintro rfl
    cases hc
  obtain ⟨d, hd, hdvisible, hdother⟩ : ∃ d, u.binding.head? = some d ∧ isBlank d = false ∧
      d ≠ '{' ∧ d ≠ 't' := by
    rcases u.binds.head? hne with h | h
    · exact ⟨c, h.trans hc, hvisible, hbrace, htype⟩
    · exact ⟨'*', h, by decide, by decide, by decide⟩
  obtain ⟨e, x, hx, hevisible, heother⟩ : ∃ e x, typeWord s.typeGap ++ '{' :: s.body = e :: x ∧
      isBlank e = false ∧ (e = '{' ∨ e = 't') := by
    cases s.typeGap with
    | none => exact ⟨'{', _, rfl, by decide, .inl rfl⟩
    | some g => exact ⟨'t', _, rfl, by decide, .inr rfl⟩
  -- Behind the word and the blanks both go on with the same character.
  obtain ⟨y, hy⟩ : ∃ y, s.gap ++ e :: y = u.gap ++ (u.binding ++ (u.clause ++ u.below)) := by
    have hwhole := s.whole.symm.trans u.whole
    rw [habove] at hwhole
    simp only [List.append_assoc, List.append_cancel_left_eq] at hwhole
    refine ⟨x ++ ("\x7d" ++ (s.fromGap ++ ("from" ++ (s.quoteGap ++
      s.opening :: (source ++ s.closing :: s.below))))), ?_⟩
    rw [← hwhole, ← List.cons_append, ← hx]
    simp
  have hrest := congrArg (List.dropWhile isBlank) hy
  rw [List.dropWhile_append_of_pos s.gap_blank.2, List.dropWhile_append_of_pos u.gap_blank.2,
    List.dropWhile_cons_of_neg (by simp [hevisible]),
    Text.dropWhile_append_of_head ⟨d, hd, hdvisible⟩] at hrest
  have hhead := congrArg List.head? hrest
  rw [List.head?_append, hd, Option.some_or, List.head?_cons] at hhead
  obtain rfl := Option.some.inj hhead
  exact heother.elim hdother.1 hdother.2

end Scaffold.Import
