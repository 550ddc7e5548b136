import Scaffold.Proofs.Path.Modules

namespace Scaffold

open Text

namespace Path

variable {p : Path} {s : Text}

theorem components_segment (hs : IsSegment s) : components ⟨s⟩ = [.name s] := by
  rw [components, if_neg (isAbsolute_of_isSegment hs), segments_segment hs, opening_segment hs]
  simp [ofSegment?_of_isSegment hs]

theorem components_trailing (u : Text) (hu : u ≠ []) : components ⟨u ++ ['/']⟩ = components ⟨u⟩ := by
  rw [components_append hu]
  simp [Component.ofSegment?]

theorem components_join (hs : IsSegment s) : (p.join ⟨s⟩).components = p.components ++ [.name s] := by
  obtain ⟨text⟩ := p
  obtain ⟨hp, htext⟩ | ⟨u, hu, htext⟩ | ⟨hne, htext⟩ :=
    text_join (p := ⟨text⟩) (isAbsolute_of_isSegment hs)
  all_goals
    generalize join ⟨text⟩ ⟨s⟩ = q at htext
    obtain ⟨t⟩ := q
    simp only at htext
  · subst hp htext
    exact components_segment hs
  · simp only at hu
    subst hu htext
    by_cases hnil : u = []
    · subst hnil
      have habsolute : isAbsolute ⟨[] ++ '/' :: s⟩ = true := rfl
      rw [components, if_pos habsolute, segments, opening, if_pos habsolute]
      simp [List.splitOn_eq_singleton hs.slash, ofSegment?_of_isSegment hs]
      rfl
    · rw [components_concat hnil hs, components_trailing u hnil]
  · subst htext
    exact components_concat hne hs

theorem shared_le (dir file : List Component) : shared dir file ≤ file.length := by
  fun_induction shared dir file with
  | case1 a as bs ih => simpa using ih
  | case2 => simp
  | case3 => simp

theorem shared_append_of_not_prefix {dir file : List Component} {c : Component}
    (h : ¬file ++ [c] <+: dir) (cs : List Component) : shared dir (file ++ c :: cs) = shared dir file := by
  induction file generalizing dir with
  | nil =>
      cases dir with
      | nil => rfl
      | cons d dir =>
          have hne : d ≠ c := by
            rintro rfl
            exact h ⟨dir, rfl⟩
          exact if_neg hne
  | cons f file ih =>
      cases dir with
      | nil => rfl
      | cons d dir =>
          rw [List.cons_append, shared, shared]
          split
          · next heq =>
              subst heq
              rw [ih]
              rintro ⟨rest, rfl⟩
              exact h ⟨rest, rfl⟩
          · rfl

theorem relative_append_of_not_prefix {dir file : List Component} {c : Component} (hc : c ≠ .root)
    (h : ¬file ++ [c] <+: dir) (cs : List Component) :
    relative dir (file ++ c :: cs) = relative dir file ++ c :: cs := by
  have hle := shared_le dir file
  have hhead : ((file.drop (shared dir file)) ++ c :: cs).head? = some .root ↔
      (file.drop (shared dir file)).head? = some .root := by
    cases file.drop (shared dir file) with
    | nil => simpa using hc
    | cons d ds => simp
  rw [relative, relative, shared_append_of_not_prefix h, List.drop_append_of_le_length hle]
  simp only [hhead]
  split
  · rfl
  · rw [List.append_assoc]

theorem slashed_concat (cs : List Component) (c : Component) :
    slashed (cs ++ [c]) = cs.flatMap (·.text ++ "/".toList) ++ c.text := by
  rw [slashed, List.map_append, List.map_singleton, Text.intercalate_concat, List.flatMap_map]

theorem relative_concat_cases (dir file : List Component) (c : Component) :
    (∃ k, relative dir (file ++ [c]) = List.replicate k .up) ∨
      ∃ cs, relative dir (file ++ [c]) = cs ++ [c] := by
  unfold relative
  obtain hnil | ⟨cs, d, hcs⟩ := List.eq_nil_or_concat ((file ++ [c]).drop (shared dir (file ++ [c])))
  · exact .inl ⟨_, by simp [hnil]; rfl⟩
  · obtain ⟨w, hw⟩ := List.drop_suffix (shared dir (file ++ [c])) (file ++ [c])
    rw [hcs, List.concat_eq_append, ← List.append_assoc] at hw
    obtain ⟨-, hd⟩ := List.append_inj' hw rfl
    cases hd
    simp only [hcs, List.concat_eq_append]
    split
    · exact .inr ⟨cs, rfl⟩
    · exact .inr ⟨_, (List.append_assoc _ _ _).symm⟩

theorem slashed_relative_cases (dir file : List Component) (c : Component) :
    slashed (relative dir (file ++ [c])) = [] ∨
      ∃ d ∈ [.up, c], d.text <:+ slashed (relative dir (file ++ [c])) := by
  rcases relative_concat_cases dir file c with ⟨k, hk⟩ | ⟨cs, hcs⟩
  · rw [hk]
    cases k with
    | zero => exact .inl rfl
    | succ k =>
        rw [List.replicate_succ', slashed_concat]
        exact .inr ⟨.up, by simp, List.suffix_append _ _⟩
  · rw [hcs, slashed_concat]
    exact .inr ⟨c, by simp, List.suffix_append _ _⟩

end Path

end Scaffold
