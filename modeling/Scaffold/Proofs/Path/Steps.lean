import Scaffold.Proofs.Path.Ways

namespace Scaffold

open Text

namespace Component

variable {c : Component} {s : Text}

inductive IsStep : Component → Prop
  | up : IsStep .up
  | name {s : Text} (hs : IsSegment s) : IsStep (.name s)

theorem IsStep.slash (h : c.IsStep) : '/' ∉ c.text := by
  cases h with
  | up => decide
  | name hs => exact hs.slash

theorem IsStep.text_ne_nil (h : c.IsStep) : c.text ≠ [] := by
  cases h with
  | up => decide
  | name hs => exact hs.nonempty

theorem IsStep.ofSegment?_text (h : c.IsStep) : ofSegment? c.text = some c := by
  cases h with
  | up => rfl
  | name hs => exact Path.ofSegment?_of_isSegment hs

theorem isStep_of_ofSegment? (hs : '/' ∉ s) (h : ofSegment? s = some c) : c.IsStep := by
  rw [ofSegment?] at h
  split at h
  · cases h
  · next hvoid =>
      rw [not_or] at hvoid
      split at h
      · cases h
        exact .up
      · next hup =>
          cases h
          exact .name ⟨hvoid.1, hs, hvoid.2, hup⟩

end Component

namespace Path

variable {p q : Path} {c : Component} {cs : List Component}

def start (p : Path) : List Component := if p.isAbsolute then [.root] else []

def steps (p : Path) : List Component := (List.splitOn '/' p.text).filterMap Component.ofSegment?

theorem isStep_of_mem_steps (h : c ∈ p.steps) : c.IsStep := by
  obtain ⟨s, hs, hc⟩ := List.mem_filterMap.1 h
  exact Component.isStep_of_ofSegment? (not_mem_of_mem_splitOn hs) hc

theorem filterMap_segments (p : Path) : p.segments.filterMap Component.ofSegment? = p.steps := by
  rw [segments, opening, steps]
  split
  · next habs =>
      obtain ⟨u, hu⟩ := List.head?_eq_some_iff.1 (beq_iff_eq.1 habs)
      rw [hu]
      simp [Component.ofSegment?]
  split
  · next hdot =>
      obtain ⟨u, ps, hu, hrest, hpieces⟩ := splitOn_of_head_dot hdot
      rw [hpieces, hu]
      simp [hrest, Component.ofSegment?]
  · simp

theorem components_eq (p : Path) :
    p.components = p.start ++ p.steps ∨ p.components = .here :: p.steps ∧ p.start = [] := by
  rw [components, filterMap_segments, start]
  split
  · exact .inl rfl
  split
  · exact .inl rfl
  · exact .inr ⟨rfl, rfl⟩

theorem normalize_components (p : Path) : normalize p.components = p.steps.foldl extend p.start := by
  rw [normalize]
  rcases p.components_eq with h | ⟨h, hstart⟩
  · rw [h, List.foldl_append, start]
    split <;> rfl
  · rw [h, hstart]
    rfl

theorem count_up_components (p : Path) :
    p.components.count .up = p.steps.count .up := by
  rcases p.components_eq with h | ⟨h, -⟩
  · rw [h, List.count_append, start]
    split <;> simp
  · rw [h, List.count_cons_of_ne (by simp)]

theorem dotless_iff_steps : p.Dotless ↔ .up ∉ p.steps := by
  rw [Dotless, ← List.count_eq_zero, count_up_components, List.count_eq_zero]

theorem isAbsolute_join_relative (hq : ¬q.isAbsolute = true) :
    (p.join q).isAbsolute = p.isAbsolute := by
  rcases text_join (p := p) hq with ⟨hp, htext⟩ | ⟨u, hu, htext⟩ | ⟨hp, htext⟩
  · have hrelative : q.isAbsolute = false := Bool.eq_false_iff.2 hq
    rw [isAbsolute, htext, ← isAbsolute, hrelative, isAbsolute, hp]
    rfl
  · rw [isAbsolute, htext, isAbsolute, hu]
    cases u <;> rfl
  · rw [isAbsolute, htext, isAbsolute, List.head?_append_of_ne_nil _ hp]

theorem steps_join (hq : ¬q.isAbsolute = true) : (p.join q).steps = p.steps ++ q.steps := by
  rcases text_join (p := p) hq with ⟨hp, htext⟩ | ⟨u, hu, htext⟩ | ⟨-, htext⟩
  · have hnone : p.steps = [] := by
      rw [steps, hp]
      rfl
    rw [hnone, steps, htext]
    rfl
  · have hsame : p.steps = steps ⟨u⟩ := by
      rw [steps, hu, List.splitOn_append_cons_self, List.filterMap_append]
      simp [steps, Component.ofSegment?]
    rw [hsame, steps, htext, List.splitOn_append_cons_self, List.filterMap_append]
    rfl
  · rw [steps, htext, List.splitOn_append_cons_self, List.filterMap_append]
    rfl

theorem normalize_join (hq : ¬q.isAbsolute = true) :
    normalize (p.join q).components = q.steps.foldl extend (normalize p.components) := by
  rw [normalize_components, steps_join hq, start, isAbsolute_join_relative hq, ← start,
    List.foldl_append, ← normalize_components]

theorem splitOn_slashed (h : ∀ c ∈ cs, c.IsStep) (hne : cs ≠ []) :
    List.splitOn '/' (slashed cs) = cs.map Component.text := by
  refine List.splitOn_intercalate '/' (fun s hs => ?_) (by simpa using hne)
  obtain ⟨c, hc, rfl⟩ := List.mem_map.1 hs
  exact (h c hc).slash

theorem steps_slashed (h : ∀ c ∈ cs, c.IsStep) : steps ⟨slashed cs⟩ = cs := by
  by_cases hne : cs = []
  · rw [hne]
    rfl
  · rw [steps, splitOn_slashed h hne, List.filterMap_map]
    refine (List.filterMap_congr fun c hc => ?_).trans List.filterMap_some
    exact (h c hc).ofSegment?_text

theorem isAbsolute_slashed (h : ∀ c ∈ cs, c.IsStep) : ¬isAbsolute ⟨slashed cs⟩ = true := by
  intro habs
  obtain ⟨u, hu⟩ := List.head?_eq_some_iff.1 (beq_iff_eq.1 habs)
  by_cases hne : cs = []
  · rw [hne] at hu
    cases hu
  · have hpieces := splitOn_slashed h hne
    simp only at hu
    rw [hu, splitOn_cons_self] at hpieces
    obtain ⟨c, hc, hnil⟩ := List.mem_map.1 (hpieces ▸ List.mem_cons_self (l := List.splitOn '/' u))
    exact (h c hc).text_ne_nil hnil

theorem steps_here (t : Text) : steps ⟨"./" ++ t⟩ = steps ⟨t⟩ := by
  have hhere : List.splitOn '/' ("./" ++ t) = ['.'] :: List.splitOn '/' t :=
    List.splitOn_append_cons_self_of_not_mem (show '/' ∉ ['.'] by decide) t
  rw [steps, hhere, List.filterMap_cons_none rfl, steps]

theorem moduleSpecifier_cases (file target : Path) :
    let way := wayFrom file.directory target.dropExtension
    ("../".toList <+: way ∧ moduleSpecifier file target = way) ∨
      moduleSpecifier file target = "./" ++ way := by
  intro way
  rw [moduleSpecifier]
  split
  · next h => exact .inl ⟨List.isPrefixOf_iff_prefix.1 h, rfl⟩
  · exact .inr rfl

variable {k ds fs : List Component}

theorem take_shared (ds fs : List Component) : ds.take (shared ds fs) = fs.take (shared ds fs) := by
  induction ds generalizing fs with
  | nil =>
      cases fs <;> simp [shared]
  | cons d ds ih =>
      cases fs with
      | nil => simp [shared]
      | cons f fs =>
          rw [shared]
          split
          · next heq => rw [heq, List.take_succ_cons, List.take_succ_cons, ih]
          · simp

theorem exists_relative (ds : List Component) (hfs : .root ∉ fs) :
    ∃ k ds' fs', ds = k ++ ds' ∧ fs = k ++ fs' ∧
      relative ds fs = List.replicate ds'.length .up ++ fs' := by
  have hroot : (fs.drop (shared ds fs)).head? ≠ some .root := by
    intro h
    exact hfs (List.mem_of_mem_drop (List.mem_of_mem_head? h))
  refine ⟨ds.take (shared ds fs), ds.drop (shared ds fs), fs.drop (shared ds fs),
    (List.take_append_drop _ _).symm, ?_, ?_⟩
  · rw [take_shared, List.take_append_drop]
  · rw [relative, if_neg hroot, List.length_drop]

theorem foldl_extend_ups (hds : ∀ c ∈ ds, ∃ s, c = .name s) (way : List Component) :
    (List.replicate ds.length .up).foldl extend (way ++ ds) = way := by
  induction ds using List.reverseRecOn with
  | nil => simp
  | append_singleton ds d ih =>
      obtain ⟨s, rfl⟩ := hds d (by simp)
      have hback : extend (way ++ (ds ++ [.name s])) .up = way ++ ds := by
        have hroot : ¬(way ++ (ds ++ [.name s]) = [] ∨ way ++ (ds ++ [.name s]) = [.root]) := by
          rintro (h | h)
          · simp at h
          · simp [← List.append_assoc, List.append_eq_singleton_iff] at h
        rw [extend, if_neg hroot, ← List.append_assoc, List.dropLast_concat]
      rw [List.length_append, List.length_singleton, List.replicate_succ, List.foldl_cons, hback]
      exact ih fun c hc => hds c (List.mem_append_left _ hc)

theorem isStep_of_mem_relative (hfs : ∀ c ∈ fs, c.IsStep) (hc : c ∈ relative ds fs) : c.IsStep := by
  have hroot : .root ∉ fs := fun h => nomatch hfs _ h
  obtain ⟨k, ds', fs', -, rfl, hway⟩ := exists_relative ds hroot
  rw [hway, List.mem_append] at hc
  rcases hc with hc | hc
  · rw [List.eq_of_mem_replicate hc]
    exact .up
  · exact hfs c (List.mem_append_right k hc)

end Path

end Scaffold
