import Scaffold.Proofs.Import.Again
import Scaffold.Proofs.Import.Unlisted
import Scaffold.Proofs.Recipe.Tables

namespace Scaffold

open Import Text

namespace ImportRequest

variable {r : ImportRequest} {t : Text}

theorem plan?_eq_none_iff : r.plan? t = none ↔
    ∃ f, (statements r.source t).find? r.mayJoin = some f ∧ ∀ name ∈ r.names, name ∈ f.bound := by
  unfold plan?
  split
  · next f hfind => simp [hfind, join?_eq_none_iff]
  · next hfind => simp [hfind]

theorem plan?_of_types (hvalue : r.typeOnly = false)
    (h : ∀ s : NamedImport r.source t, s.isType = true) : r.plan? t = some (r.addStatement t) := by
  have hnone : (statements r.source t).find? r.mayJoin = none := by
    refine List.find?_eq_none.2 fun f hf => ?_
    obtain ⟨s, -, htype, -, -⟩ := exists_of_mem_statements hf
    rw [mayJoin, hvalue, ← htype, h s]
    decide
  rw [plan?, hnone]

end ImportRequest

theorem Insertion.plan_of_schemas {i : Insertion} {t : Text} (hkind : i.kind = .schemas)
    (habsent : i.isPresent t = false) : i.plan t =
      .edits (i.imports.filterMap (·.plan? t) ++ [.insert t (i.appended t)]) .textEnd none := by
  have hplace : i.place? t = some (.textEnd, ⟨t, []⟩) := by simp [place?, hkind, FileKind.anchors,
    FileKind.mainAnchor, Anchor.locate]
  have hanchors : Anchor.textEnd ∈ i.kind.anchors := by rw [hkind]; decide
  have hedits : i.fragmentEdits ⟨t, []⟩ = [.insert t (i.appended t)] := by simp [fragmentEdits, hkind]
  simp only [plan, habsent, hplace, if_pos hanchors, hedits, Bool.false_eq_true, if_false]

theorem Product.imports_of_schemas {p : Product} {l : Layout} {n : Name} {r : Recipe} {w : Wire}
    (hr : p.recipe l n = .ok r) (hw : w ∈ r.wires) (hkind : w.insertion.kind = .schemas) :
    w.insertion.imports = [⟨"zod", ["z"], false⟩] := by
  cases p.wired_by_template hr hw with
  | schema hp h => rw [Layout.eq_of_schemaWire h]
  | shard hp h =>
      rw [Layout.eq_of_shardWire h] at hkind
      cases hkind
  | other h => rcases h with h | h <;> rw [h] at hkind <;> cases hkind

/-- A schema is added without an import just if the first list of values that the text imports from
the module binds the name; a list further down is not looked at. Without such a list there is a new
statement, and an import of a default or of the whole module is no such list, even though it binds
the name. -/
theorem schema_import_follows_first_list {p : Product} {l : Layout} {n : Name} {r : Recipe} {w : Wire}
    {t : Text} (hr : p.recipe l n = .ok r) (hw : w ∈ r.wires) (hkind : w.insertion.kind = .schemas)
    (habsent : w.insertion.isPresent t = false) :
    ∃ edits, w.insertion.plan t =
        .edits (edits ++ [.insert t (w.insertion.appended t)]) .textEnd none ∧
      (edits = [] ↔ ∃ f, (statements "zod" t).find? (fun f => !f.isType) = some f ∧
        "z".toList ∈ f.bound) ∧
      ((∀ s : NamedImport "zod" t, s.isType = true) → ∃ above below lead quote trail,
        t = above ++ below ∧ Shape.isQuote quote = true ∧ edits = [.insert above
          (lead ++ ("import \x7b z \x7d from " ++ quote :: "zod".toList ++ [quote, ';', '\n']) ++ trail)]) ∧
      ∀ (u : UnlistedImport "zod" "z" t) (s : NamedImport "zod" t), s.above ≠ u.above := by
  have himports := Product.imports_of_schemas hr hw hkind
  refine ⟨_, Insertion.plan_of_schemas hkind habsent, ?_, fun htypes => ?_, fun u s => ?_⟩
  · have hjoins : ImportRequest.mayJoin ⟨"zod", ["z"], false⟩ = fun f => !f.isType := rfl
    rw [himports, List.filterMap_eq_nil_iff]
    simp only [List.mem_singleton, forall_eq]
    rw [ImportRequest.plan?_eq_none_iff, hjoins]
    simp only [List.mem_singleton, forall_eq]
  · obtain ⟨above, below, lead, trail, quote, ht, hadd, hquote, -⟩ :=
      ImportRequest.exists_place ⟨"zod", ["z"], false⟩ t
    have hplan := ImportRequest.plan?_of_types (r := ⟨"zod", ["z"], false⟩) rfl htypes
    refine ⟨above, below, lead, quote, trail, ht, hquote, ?_⟩
    rw [himports, List.filterMap_cons, hplan, hadd]
    simp [ImportRequest.line_eq, ImportRequest.clause]
  · exact u.above_ne s ⟨'z', rfl, by decide, by decide, by decide⟩

theorem schema_import_follows_first_list_order : ∃ r w,
    Product.table.recipe (.default ⟨"app"⟩) ⟨"order", Name.check_order⟩ = .ok r ∧ w ∈ r.wires ∧
      w.insertion.plan "import \x7b ZodError, string as z \x7d from \"zod\";\n" =
        .edits [.insert "import \x7b ZodError, string as z \x7d from \"zod\";\n".toList
          (w.insertion.appended "import \x7b ZodError, string as z \x7d from \"zod\";\n")] .textEnd none := by
  obtain ⟨steps, hr⟩ := Layout.exists_table (.default ⟨"app"⟩) ⟨"order", Name.check_order⟩
  have habsent : (Layout.tableSchema (.default ⟨"app"⟩) ⟨"order", Name.check_order⟩).isPresent
      "import \x7b ZodError, string as z \x7d from \"zod\";\n" = false := by
    decide +kernel
  obtain ⟨edits, hplan, hnone, -, -⟩ :=
    schema_import_follows_first_list (p := .table) hr List.mem_cons_self rfl habsent
  obtain rfl : edits = [] := hnone.2 ⟨⟨false, "\x7b ZodError, string as z \x7d",
    "\x7b ZodError, string as z \x7d from \"zod\";\n", ";\n"⟩, by decide +kernel, by decide +kernel⟩
  exact ⟨_, _, hr, List.mem_cons_self, hplan⟩

/-- A name that stands for the whole module, or in a second list, is bound once more. -/
theorem schema_import_misses_star : ∃ r w,
    Product.table.recipe (.default ⟨"app"⟩) ⟨"order", Name.check_order⟩ = .ok r ∧ w ∈ r.wires ∧
      w.insertion.kind = .schemas ∧ Nonempty (UnlistedImport "zod" "z" "import * as z from 'zod';\n") ∧
      w.insertion.plan "import * as z from 'zod';\n" =
        .edits [.insert "import * as z from 'zod';\n".toList "import \x7b z \x7d from 'zod';\n",
          .insert "import * as z from 'zod';\n".toList
            (w.insertion.appended "import * as z from 'zod';\n")] .textEnd none ∧
      w.insertion.plan "import \x7b ZodError \x7d from 'zod';\nimport \x7b z \x7d from 'zod';\n" =
        .edits [.replace "import ".toList "\x7b ZodError \x7d".toList "\x7b ZodError, z \x7d",
          .insert "import \x7b ZodError \x7d from 'zod';\nimport \x7b z \x7d from 'zod';\n".toList
            (w.insertion.appended
              "import \x7b ZodError \x7d from 'zod';\nimport \x7b z \x7d from 'zod';\n")] .textEnd none := by
  obtain ⟨steps, hr⟩ := Layout.exists_table (.default ⟨"app"⟩) ⟨"order", Name.check_order⟩
  have hstar : ImportRequest.plan? ⟨"zod", ["z"], false⟩ "import * as z from 'zod';\n" =
      some (.insert "import * as z from 'zod';\n".toList "import \x7b z \x7d from 'zod';\n") := by
    decide +kernel
  have hsecond : ImportRequest.plan? ⟨"zod", ["z"], false⟩
      "import \x7b ZodError \x7d from 'zod';\nimport \x7b z \x7d from 'zod';\n" =
        some (.replace "import ".toList "\x7b ZodError \x7d".toList "\x7b ZodError, z \x7d") := by
    decide +kernel
  refine ⟨_, _, hr, List.mem_cons_self, rfl, ⟨⟨[], " ", "* as z ", "from 'zod'", ";\n", .inl rfl,
    ⟨by decide, blank_space⟩, ?_, ?_, by decide⟩⟩, ?_, ?_⟩
  · exact .star blank_space ⟨List.cons_ne_nil ' ' [], List.cons_ne_nil ' ' []⟩
      (List.all_eq_true.1 (by decide))
  · exact ⟨[], " ", '\'', '\'', by simp, blank_space, rfl, rfl, rfl⟩
  · rw [Insertion.plan_of_schemas rfl (by decide +kernel), Layout.tableSchema, List.filterMap_cons, hstar]
    rfl
  · rw [Insertion.plan_of_schemas rfl (by decide +kernel), Layout.tableSchema, List.filterMap_cons, hsecond]
    rfl

end Scaffold
