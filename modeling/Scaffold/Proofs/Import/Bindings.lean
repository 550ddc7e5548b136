import Scaffold.Proofs.Import.Changes
import Scaffold.Proofs.Insertion.Keeping

namespace Scaffold

open Text

namespace Import

structure IsName (name : Text) : Prop where
  ne_nil : name ≠ []
  visible : ∀ c ∈ name, isBlank c = false
  unbroken : ∀ c ∈ name, c ∉ breaks

def Found.bound (f : Found) : List Text := (entries f.list).map binding

def bound (source t : Text) : List Text := (statements source t).flatMap Found.bound

variable {name : Text}

namespace IsName

theorem solid (h : IsName name) : Solid name :=
  ⟨⟨_, List.head?_eq_some_head h.ne_nil, h.visible _ (List.head_mem h.ne_nil)⟩,
    ⟨_, List.getLast?_eq_some_getLast h.ne_nil, h.visible _ (List.getLast_mem h.ne_nil)⟩⟩

theorem isEntry (h : IsName name) : IsEntry name :=
  ⟨h.solid, fun hcomma => h.unbroken _ hcomma (by decide)⟩

theorem not_mem_space (h : IsName name) : ' ' ∉ name := fun hmem => by
  have := h.visible ' ' hmem
  exact absurd this (by decide)

theorem afterLast?_as (h : IsName name) : afterLast? " as " name = none :=
  afterLast?_eq_none (by decide) h.not_mem_space

theorem binding_eq (h : IsName name) : binding name = name := by
  have hprefix : ¬List.isPrefixOf "type ".toList name = true := fun hp =>
    h.not_mem_space ((List.isPrefixOf_iff_prefix.1 hp).subset (by decide))
  simp only [binding, dropTypeWord, trim_of_solid h.solid, if_neg hprefix, h.afterLast?_as]

theorem binding_type (h : IsName name) : binding ("type " ++ name) = name := by
  have htyped := trim_of_solid (isEntry_type h.isEntry).solid
  have hdrop : dropTypeWord ("type " ++ name) = name := by
    rw [dropTypeWord, if_pos (List.isPrefixOf_iff_prefix.2 (List.prefix_append _ _))]
    rfl
  simp only [binding, htyped, hdrop, trim_of_solid h.solid, h.afterLast?_as]

end IsName

theorem isName_of_isIdentifier (h : Settings.isIdentifier name = true) : IsName name := by
  refine ⟨?_, fun c hc => ?_, fun c hc hbreak => ?_⟩
  · rintro rfl
    cases h
  · have hchar := Settings.toNat_of_mem_identifier h c hc
    exact isBlank_of_visible hchar.1 hchar.2.1
  · have hletter := Settings.letter_of_mem_identifier h c hc
    simp only [breaks, List.mem_cons, List.not_mem_nil, or_false] at hbreak
    rcases hbreak with rfl | rfl | rfl | rfl <;> exact absurd hletter (by decide)

end Import

namespace ImportRequest

open Import

variable {r : ImportRequest} {t : Text} {f : Found} {later : List Found}

theorem missing_eq (r : ImportRequest) (f : Found) :
    r.missing (entries f.list) = r.names.filter (· ∉ f.bound) := by
  apply List.filter_congr
  intro name _
  rw [Bool.eq_iff_iff]
  simp [Found.bound]

theorem binding_entry (hnames : ∀ name ∈ r.names, IsName name) (f : Found) {name : Text}
    (hname : name ∈ r.names) : binding (r.entry f name) = name := by
  rcases r.entry_eq f name with h | ⟨-, h⟩
  · rw [h, (hnames name hname).binding_eq]
  · rw [h, (hnames name hname).binding_type]

theorem isEntry_entry (hnames : ∀ name ∈ r.names, IsName name) (f : Found) :
    ∀ e ∈ Import.entries f.list ++ (r.missing (Import.entries f.list)).map (r.entry f),
      IsEntry e := by
  intro e he
  rcases List.mem_append.1 he with he | he
  · exact isEntry_of_mem_entries he
  · obtain ⟨name, hname, rfl⟩ := List.mem_map.1 he
    have hentry := (hnames name (List.mem_of_mem_filter hname)).isEntry
    rcases r.entry_eq f name with h | ⟨-, h⟩
    · rwa [h]
    · rw [h]
      exact isEntry_type hentry

theorem join?_eq_none_iff : r.join? t f = none ↔ ∀ name ∈ r.names, name ∈ f.bound := by
  simp only [join?, missing_eq]
  split
  · next h => simpa using h
  · next h => simpa using h

/-- The list that a request makes longer has the entries that it had and then the names that it did
not bind. -/
theorem binding_join {e : Edit} (hnames : ∀ name ∈ r.names, IsName name)
    (hf : f ∈ statements r.source t) (h : r.join? t f = some e) :
    ∃ head below, t = head ++ f.list ++ below ∧ e = .replace head f.list e.replacement ∧
      Import.entries f.list <+: Import.entries e.replacement ∧
      (Import.entries e.replacement).map binding = f.bound ++ r.names.filter (· ∉ f.bound) := by
  obtain ⟨s, hlist, -, htail, -⟩ := exists_of_mem_statements hf
  obtain ⟨below, hbelow, -⟩ := s.exists_below
  have hhead : (Cut.ofRest t f.tail).before = s.head := by
    conv => lhs; rw [htail, Cut.ofRest_append]
  simp only [join?] at h
  split at h
  · cases h
  · obtain rfl := Option.some.inj h
    refine ⟨s.head, below, hlist ▸ hbelow, by rw [hhead]; rfl, ?_⟩
    have hentries := entries_renderList f.list (isEntry_entry hnames f)
    have hadded : ((r.missing (Import.entries f.list)).map (r.entry f)).map binding =
        r.missing (Import.entries f.list) := by
      rw [List.map_map]
      have hsame : ∀ name ∈ r.missing (Import.entries f.list),
          (binding ∘ r.entry f) name = id name :=
        fun name hname => binding_entry hnames f (List.mem_of_mem_filter hname)
      rw [List.map_congr_left hsame, List.map_id]
    constructor
    · rw [Edit.replace, hentries]
      exact List.prefix_append _ _
    · rw [Edit.replace, hentries, List.map_append, hadded, missing_eq, Found.bound]

theorem plan?_of_typeOnly (htype : r.typeOnly = true) (hfound : statements r.source t = f :: later) :
    r.plan? t = r.join? t f := by
  have hjoins : r.mayJoin f = true := by rw [mayJoin, htype, Bool.true_or]
  rw [plan?, hfound, List.find?_cons_of_pos hjoins]

/-- A request for types is met by the first statement for the module, whatever the later ones bind.
There is nothing to do just if that statement binds all the names, and else they are added that it
does not bind, each once, behind the entries that it had. Without a statement no name is bound, and
all of them go into a new one. -/
theorem type_requests_meet_first_statement (htype : r.typeOnly = true)
    (hnames : ∀ name ∈ r.names, IsName name) :
    (statements r.source t = [] → bound r.source t = [] ∧ r.plan? t = some (r.addStatement t)) ∧
    ∀ f later, statements r.source t = f :: later →
      (r.plan? t = none ↔ ∀ name ∈ r.names, name ∈ f.bound) ∧
      (∀ e, r.plan? t = some e → ∃ head below, t = head ++ f.list ++ below ∧
        e = .replace head f.list e.replacement ∧
        Import.entries f.list <+: Import.entries e.replacement ∧
        (Import.entries e.replacement).map binding = f.bound ++ r.names.filter (· ∉ f.bound)) := by
  refine ⟨fun hnone => ⟨by rw [bound, hnone, List.flatMap_nil], by rw [plan?, hnone]; rfl⟩,
    fun f later hfound => ?_⟩
  have hf : f ∈ statements r.source t := by
    rw [hfound]
    exact List.mem_cons_self
  rw [plan?_of_typeOnly htype hfound]
  exact ⟨join?_eq_none_iff, fun e he => binding_join hnames hf he⟩

theorem type_requests_meet_first_statement_type :
    ∃ e, plan? ⟨"./x", ["a", "T"], true⟩ "import \x7b a \x7d from './x';\n" = some e ∧
      (Import.entries e.replacement).map binding = ["a", "T"] := by
  have hnames : ∀ name ∈ ["a".toList, "T".toList], IsName name := by
    simp only [List.mem_cons, List.not_mem_nil, or_false, forall_eq_or_imp, forall_eq]
    exact ⟨isName_of_isIdentifier rfl, isName_of_isIdentifier rfl⟩
  have hfound : statements "./x" "import \x7b a \x7d from './x';\n" =
      [⟨false, "\x7b a \x7d", "\x7b a \x7d from './x';\n", ";\n"⟩] := by
    decide +kernel
  obtain ⟨hnone, hadded⟩ := (type_requests_meet_first_statement
    (r := ⟨"./x", ["a", "T"], true⟩) rfl hnames).2 _ _ hfound
  cases hplan : plan? ⟨"./x", ["a", "T"], true⟩ "import \x7b a \x7d from './x';\n" with
  | none =>
      have hT := hnone.1 hplan "T" (by simp)
      exact absurd hT (by decide +kernel)
  | some e =>
      obtain ⟨head, below, -, -, -, hbinding⟩ := hadded e hplan
      refine ⟨e, rfl, hbinding.trans ?_⟩
      decide +kernel

/-- A type that only a later statement binds is added to the first one. -/
theorem type_bound_later_is_added :
    "T".toList ∈ bound "./x" "import \x7b a \x7d from './x';\nimport type \x7b T \x7d from './x';\n" ∧
      plan? ⟨"./x", ["T"], true⟩
          "import \x7b a \x7d from './x';\nimport type \x7b T \x7d from './x';\n" =
        some (.replace "import ".toList "\x7b a \x7d".toList "\x7b a, type T \x7d") := by
  decide +kernel

end ImportRequest

end Scaffold
