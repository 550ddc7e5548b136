import Scaffold.Proofs.Import.Commented

namespace Scaffold.ImportRequest

open Import Text

variable {r : ImportRequest} {t : Text} {f : Found} {e : Edit}

theorem entry_injective (r : ImportRequest) (f : Found) : Function.Injective (r.entry f) := by
  intro a b h
  unfold entry at h
  split at h
  · exact List.append_cancel_left h
  · exact h

theorem quiet_entry (hnames : ∀ name ∈ r.names, IsName name ∧ Quiet name) (f : Found) :
    ∀ e ∈ (r.names.filter (· ∉ f.bound)).map (r.entry f), IsEntry e ∧ Quiet e ∧ '\n' ∉ e := by
  intro e he
  obtain ⟨name, hname, rfl⟩ := List.mem_map.1 he
  obtain ⟨hname, hquiet⟩ := hnames name (List.mem_of_mem_filter hname)
  have hfeed : '\n' ∉ name := fun hmem => absurd (hname.visible _ hmem) (by decide)
  rcases r.entry_eq f name with h | ⟨-, h⟩
  · rw [h]
    exact ⟨hname.isEntry, hquiet, hfeed⟩
  · rw [h]
    refine ⟨isEntry_type hname.isEntry, Quiet.append (a := "type ".toList) ⟨by decide, by decide⟩ hquiet, ?_⟩
    rw [List.mem_append, not_or]
    exact ⟨by decide, hfeed⟩

theorem filter_map_entry_iff (f : Found) (as bs : List Text) :
    (r.names.filter (· ∉ as)).map (r.entry f) = (r.names.filter (· ∉ bs)).map (r.entry f) ↔
      ∀ name ∈ r.names, name ∈ as ↔ name ∈ bs := by
  rw [List.map_inj_right fun _ _ h => r.entry_injective f h]
  constructor
  · intro h name hname
    have hmem : name ∈ r.names.filter (· ∉ as) ↔ name ∈ r.names.filter (· ∉ bs) := by rw [h]
    simpa [hname, not_iff_not] using hmem
  · intro h
    exact List.filter_congr fun name hname => by rw [decide_eq_decide, h name hname]

theorem exists_grown (hnames : ∀ name ∈ r.names, IsName name)
    (hfind : (statements r.source t).find? r.mayJoin = some f) (hplan : r.plan? t = some e) :
    ∃ head below, t = head ++ f.list ++ below ∧ e = .replace head f.list e.replacement ∧
      (r.names.filter (· ∉ f.bound)).map (r.entry f) ≠ [] ∧ e.replacement = renderList f.list
        (Import.entries f.list ++ (r.names.filter (· ∉ f.bound)).map (r.entry f)) := by
  rw [plan?, hfind] at hplan
  obtain ⟨head, below, ht, he, -⟩ := binding_join hnames (List.mem_of_find?_eq_some hfind) hplan
  refine ⟨head, below, ht, he, ?_⟩
  simp only [join?, missing_eq] at hplan
  split at hplan
  · cases hplan
  · next hne =>
      exact ⟨by simpa using hne, by rw [← Option.some.inj hplan]; rfl⟩

/-- What a request makes of a list, read without the comments. Say that every comma but the last one is
read where it is written anew. Then the old entries stay, and the names follow that no entry binds as
the list is taken apart, just if the comma behind the last entry parts them; and these are the names
that no entry binds in code just if both readings of the list agree on all that are requested. A list
without comments always has its entries and then the names that it does not bind. -/
theorem lists_grow_in_code (hnames : ∀ name ∈ r.names, IsName name ∧ Quiet name)
    (hfind : (statements r.source t).find? r.mayJoin = some f) (hplan : r.plan? t = some e) :
    ∃ head below, t = head ++ f.list ++ below ∧ e = .replace head f.list e.replacement ∧
      (∀ ps p s, List.splitOn ',' (inner f.list) = ps ++ [p] → lastStanding? f.list ps p = some s →
        (codeEntries e.replacement =
            codeEntries f.list ++ (r.names.filter (· ∉ f.bound)).map (r.entry f) ↔
          s.isParted f.list p = true) ∧
        (s.isParted f.list p = true → (codeEntries e.replacement =
            codeEntries f.list ++ (r.names.filter (· ∉ f.named)).map (r.entry f) ↔
          ∀ name ∈ r.names, name ∈ f.bound ↔ name ∈ f.named))) ∧
      ('/' ∉ f.list → codeEntries e.replacement =
        codeEntries f.list ++ (r.names.filter (· ∉ f.named)).map (r.entry f)) := by
  obtain ⟨head, below, ht, he, hne, hlist⟩ := exists_grown (fun n hn => (hnames n hn).1) hfind hplan
  have hgrown : ∀ ps p s, List.splitOn ',' (inner f.list) = ps ++ [p] →
      lastStanding? f.list ps p = some s → (codeEntries e.replacement =
          codeEntries f.list ++ (r.names.filter (· ∉ f.bound)).map (r.entry f) ↔
        s.isParted f.list p = true) := by
    intro ps p s hpieces hs
    rw [hlist]
    exact codeEntries_renderList hpieces hs hne (quiet_entry hnames f)
  refine ⟨head, below, ht, he, fun ps p s hpieces hs => ⟨hgrown ps p s hpieces hs, fun hparted => ?_⟩,
    fun hslash => ?_⟩
  · rw [(hgrown ps p s hpieces hs).2 hparted, List.append_cancel_left_eq, filter_map_entry_iff]
  · obtain ⟨ps, p, hpieces⟩ :=
      (List.eq_nil_or_concat _).resolve_left (List.splitOn_ne_nil ',' (inner f.list))
    rw [List.concat_eq_append] at hpieces
    obtain ⟨hs, hparted⟩ := lastStanding?_of_not_mem hpieces hslash
    have hnamed : f.named = f.bound := by rw [Found.named, codeEntries_of_not_mem hslash, Found.bound]
    rw [(hgrown ps p _ hpieces hs).2 hparted, hnamed]

theorem lists_grow_in_code_remarks : ∃ e,
    plan? ⟨"m", ["c"], false⟩ "import \x7b\n  a, // one\n  // b,\n  d, /* e, f */\n\x7d from 'm';\n" = some e ∧
      codeEntries e.replacement = ["a", "d", "c"] := by
  have hnames : ∀ name ∈ ["c".toList], IsName name ∧ Quiet name := by
    simp only [List.mem_singleton, forall_eq]
    exact ⟨isName_of_isIdentifier rfl, by decide, by decide⟩
  have hfind : (statements "m" "import \x7b\n  a, // one\n  // b,\n  d, /* e, f */\n\x7d from 'm';\n").find?
      (mayJoin ⟨"m", ["c"], false⟩) = some ⟨false, "\x7b\n  a, // one\n  // b,\n  d, /* e, f */\n\x7d",
        "\x7b\n  a, // one\n  // b,\n  d, /* e, f */\n\x7d from 'm';\n", ";\n"⟩ := by
    decide +kernel
  obtain ⟨e, hplan⟩ : ∃ e, plan? ⟨"m", ["c"], false⟩
      "import \x7b\n  a, // one\n  // b,\n  d, /* e, f */\n\x7d from 'm';\n" = some e :=
    Option.isSome_iff_exists.1 (by decide +kernel)
  obtain ⟨head, below, -, -, hgrown, -⟩ := lists_grow_in_code (r := ⟨"m", ["c"], false⟩) hnames hfind hplan
  refine ⟨e, hplan, ((hgrown ["\n  a", " // one\n  // b", "\n  d", " /* e"] " f */\n" (.within [])
    (by decide +kernel) (by decide +kernel)).1.2 (by decide +kernel)).trans (by decide +kernel)⟩

/-- The comma behind an entry goes into the comment that follows the entry, and a name that a comment
stands before is added once more. -/
theorem comments_hide_comma_and_name :
    (plan? ⟨"m", ["c"], false⟩ "import \x7b\n  a,\n  b // note\n\x7d from 'm';\n" =
        some (.replace "import ".toList "\x7b\n  a,\n  b // note\n\x7d".toList
          "\x7b\n  a,\n  b // note,\n  c,\n\x7d") ∧
      codeEntries "\x7b\n  a,\n  b // note\n\x7d" = ["a", "b"] ∧
      codeEntries "\x7b\n  a,\n  b // note,\n  c,\n\x7d" ≠ ["a", "b", "c"]) ∧
    plan? ⟨"m", ["b"], false⟩ "import \x7b a, /* x */ b \x7d from 'm';\n" =
        some (.replace "import ".toList "\x7b a, /* x */ b \x7d".toList "\x7b a, /* x */ b, b \x7d") ∧
      codeEntries "\x7b a, /* x */ b \x7d" = ["a", "b"] ∧
      codeEntries "\x7b a, /* x */ b, b \x7d" = ["a", "b", "b"] := by
  decide +kernel

end Scaffold.ImportRequest
