import Scaffold.Project.Settings
import Scaffold.Proofs.Edit.Undo
import Scaffold.Proofs.Import.Lists
import Scaffold.Proofs.Insertion.Planned

namespace Scaffold

namespace NamedImport

variable {source t : Text} (s : NamedImport source t)

theorem found_replace (new : Text) : (Edit.replace s.head s.list new).found t = s.list := by
  obtain ⟨v, hv, -⟩ := s.exists_below
  have hslice := Text.slice_append s.head s.list v
  rwa [← hv, Text.bytes_append] at hslice

end NamedImport

namespace Import

theorem isEntry_type {name : Text} (h : IsEntry name) : IsEntry ("type ".toList ++ name) := by
  obtain ⟨c, hc, hblank⟩ := h.solid.last
  refine ⟨⟨⟨'t', rfl, by decide⟩, ⟨c, ?_, hblank⟩⟩, ?_⟩
  · rw [List.getLast?_append, hc, Option.some_or]
  · rw [List.mem_append, not_or]
    exact ⟨by decide, h.comma⟩

end Import

namespace ImportRequest

variable {r : ImportRequest} {t : Text}

theorem isEntry_of_mem_merged (hplain : ∀ name ∈ r.names, Import.IsEntry name)
    (s : NamedImport r.source t) : ∀ e ∈ r.merged s, Import.IsEntry e := by
  intro e he
  rcases List.mem_append.1 he with he | he
  · exact Import.isEntry_of_mem_entries he
  · obtain ⟨name, hname, rfl⟩ := List.mem_map.1 he
    have hentry := hplain name (List.mem_of_mem_filter hname)
    split
    · exact Import.isEntry_type hentry
    · exact hentry

end ImportRequest

namespace Settings

theorem letter_of_mem_identifier {name : Text} (h : isIdentifier name = true) :
    ∀ c ∈ name, (c.isAlpha || c == '_' || c == '$' || c.isDigit) = true := by
  cases name with
  | nil => simp
  | cons d name =>
      intro c hc
      simp only [isIdentifier, Bool.and_eq_true, List.all_eq_true] at h
      rcases List.mem_cons.1 hc with rfl | hc
      · rw [h.1, Bool.true_or]
      · exact h.2 c hc

theorem toNat_of_mem_identifier {name : Text} (h : isIdentifier name = true) :
    ∀ c ∈ name, 0x20 < c.toNat ∧ c.toNat < 0x7f ∧ c ≠ ',' := by
  intro c hc
  have hletter := letter_of_mem_identifier h c hc
  have hcomma : c ≠ ',' := fun h => absurd (h ▸ hletter) (by decide)
  simp only [Bool.or_eq_true, beq_iff_eq] at hletter
  rcases hletter with ((hletter | rfl) | rfl) | hletter
  · have := toNat_of_isAlpha hletter
    exact ⟨by omega, by omega, hcomma⟩
  · decide
  · decide
  · have := toNat_of_isDigit hletter
    exact ⟨by omega, by omega, hcomma⟩

theorem isEntry_of_isIdentifier {name : Text} (h : isIdentifier name = true) :
    Import.IsEntry name := by
  have hne : name ≠ [] := by
    rintro rfl
    cases h
  have hchars := toNat_of_mem_identifier h
  have hvisible : ∀ c ∈ name, isBlank c = false := fun c hc =>
    isBlank_of_visible (hchars c hc).1 (hchars c hc).2.1
  refine ⟨⟨?_, ?_⟩, fun hcomma => (hchars _ hcomma).2.2 rfl⟩
  · exact ⟨_, List.head?_eq_some_head hne, hvisible _ (List.head_mem hne)⟩
  · exact ⟨_, List.getLast?_eq_some_getLast hne, hvisible _ (List.getLast_mem hne)⟩

end Settings

namespace Insertion

/-- An insertion into a text adds to it and takes nothing away. Each of its edits puts something
between what is there, or else gives the list of one statement that imports from a wanted module the
entries that it had and, after them, the wanted names that it lacked. The edits can be undone. -/
theorem insertion_only_adds {i : Insertion} {t after : Text} {edits : List Edit} {anchor : Anchor}
    {missed : Option Anchor} (hplain : ∀ r ∈ i.imports, ∀ name ∈ r.names, Import.IsEntry name)
    (hplan : i.plan t = .edits edits anchor missed) (hsplice : splice t edits = .ok after) :
    (∀ e ∈ edits, e.isInsertion = true ∨
      ∃ r ∈ i.imports, ∃ (s : NamedImport r.source t) (new : Text),
        e = .replace s.head s.list new ∧ e.found t = s.list ∧
        Import.entries new = Import.entries s.list ++ (r.missing (Import.entries s.list)).map
          fun name => if r.typeOnly && !s.isType then "type ".toList ++ name else name) ∧
    (Edit.undo t edits).map (·.found after) = (Edit.ordered edits).map (·.replacement) ∧
    (Edit.undo t edits).map (·.replacement) = (Edit.ordered edits).map (·.found t) ∧
    splice after (Edit.undo t edits) = .ok t := by
  refine ⟨?_, Edit.splice_undo hsplice⟩
  intro e he
  cases planned_of_plan hplan e he with
  | insert hk hjoint new => exact .inl (beq_self_eq_true _)
  | merge hr s =>
      refine .inr ⟨_, hr, s, _, rfl, s.found_replace _, ?_⟩
      exact Import.entries_renderList s.list
        (ImportRequest.isEntry_of_mem_merged (hplain _ hr) s)

theorem insertion_only_adds_schema :
    splice "import \x7b z, type infer \x7d from 'zod';\n\nconst A = z;\n"
      (Edit.undo "import \x7b z \x7d from 'zod';\n"
        [.replace "import ".toList "\x7b z \x7d".toList "\x7b z, type infer \x7d",
          .insert "import \x7b z \x7d from 'zod';\n".toList "\nconst A = z;\n"]) =
      .ok ("import \x7b z \x7d from 'zod';\n" : Text) := by
  have hplain : ∀ r ∈ [(⟨"zod", ["infer"], true⟩ : ImportRequest)], ∀ name ∈ r.names,
      Import.IsEntry name := by
    simp only [List.mem_singleton, forall_eq]
    exact Settings.isEntry_of_isIdentifier rfl
  have hplan : Insertion.plan ⟨.schemas, ["const A "], [⟨"zod", ["infer"], true⟩], "const A = z;"⟩
      "import \x7b z \x7d from 'zod';\n" =
      .edits [.replace "import ".toList "\x7b z \x7d".toList "\x7b z, type infer \x7d",
        .insert "import \x7b z \x7d from 'zod';\n".toList "\nconst A = z;\n"] .textEnd none := by
    decide +kernel
  have hsplice : splice "import \x7b z \x7d from 'zod';\n"
      [.replace "import ".toList "\x7b z \x7d".toList "\x7b z, type infer \x7d",
        .insert "import \x7b z \x7d from 'zod';\n".toList "\nconst A = z;\n"] =
      .ok ("import \x7b z, type infer \x7d from 'zod';\n\nconst A = z;\n" : Text) := by
    rw [splice, Edit.ordered, List.mergeSort_of_pairwise (by decide +kernel)]
    decide +kernel
  exact (insertion_only_adds hplain hplan hsplice).2.2.2

end Insertion

end Scaffold
