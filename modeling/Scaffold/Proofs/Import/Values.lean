import Scaffold.Proofs.Import.Again

namespace Scaffold

open Text

namespace Import

def saysType (entry : Text) : Bool := List.isPrefixOf "type ".toList (trim entry)

def Found.valued (f : Found) : List Text :=
  ((entries f.list).filter fun e => !saysType e).map binding

def valued (source t : Text) : List Text :=
  ((statements source t).filter fun f => !f.isType).flatMap Found.valued

theorem IsName.saysType_eq {name : Text} (h : IsName name) : saysType name = false := by
  rw [saysType, trim_of_solid h.solid, Bool.eq_false_iff]
  exact fun hp => h.not_mem_space ((List.isPrefixOf_iff_prefix.1 hp).subset (by decide))

theorem valued_of_first {source t : Text} {f : Found} {skipped later : List Found}
    (hfound : statements source t = skipped ++ f :: later)
    (hskipped : ∀ g ∈ skipped, g.isType = true) (hf : f.isType = false) :
    valued source t = f.valued ++ (later.filter fun g => !g.isType).flatMap Found.valued := by
  have hnone : skipped.filter (fun g => !g.isType) = [] :=
    List.filter_eq_nil_iff.2 fun g hg => by simp [hskipped g hg]
  rw [valued, hfound, List.filter_append, hnone, List.nil_append,
    List.filter_cons_of_pos (by simp [hf]), List.flatMap_cons]

end Import

namespace ImportRequest

open Import

variable {r : ImportRequest} {t : Text} {f g : Found} {skipped later : List Found}

theorem entry_of_value (hvalue : r.typeOnly = false) (f : Found) (name : Text) :
    r.entry f name = name := by
  rw [entry, hvalue, Bool.false_and, if_neg Bool.false_ne_true]

/-- A list that a request for values makes longer binds the added names as values. -/
theorem valued_of_list (hvalue : r.typeOnly = false) (hnames : ∀ name ∈ r.names, IsName name)
    (hg : g.list = renderList f.list
      (Import.entries f.list ++ (r.missing (Import.entries f.list)).map (r.entry f))) :
    g.valued = f.valued ++ r.names.filter (· ∉ f.bound) := by
  have hentry : (r.missing (Import.entries f.list)).map (r.entry f) =
      r.names.filter (· ∉ f.bound) := by
    rw [← missing_eq, List.map_congr_left fun name _ => entry_of_value hvalue f name, List.map_id']
  have hadded : ∀ name ∈ r.names.filter (· ∉ f.bound), IsName name :=
    fun name hname => hnames name (List.mem_of_mem_filter hname)
  have hsays : (r.names.filter (· ∉ f.bound)).filter (fun e => !saysType e) =
      r.names.filter (· ∉ f.bound) :=
    List.filter_eq_self.2 fun name hname => by rw [(hadded name hname).saysType_eq]; rfl
  rw [Found.valued, hg, entries_renderList f.list (isEntry_entry hnames f), hentry,
    List.filter_append, hsays, List.map_append,
    List.map_congr_left fun name hname => (hadded name hname).binding_eq, List.map_id']
  rfl

theorem mayJoin_of_value (hvalue : r.typeOnly = false) : r.mayJoin = fun f => !f.isType := by
  funext f
  rw [mayJoin, hvalue, Bool.false_or]

/-- Whether or not there is an edit, the list of the first statement of values has in the end what it
lacked. -/
theorem exists_valued (hvalue : r.typeOnly = false) (hnames : ∀ name ∈ r.names, IsName name)
    (hsource : '{' ∉ r.source ∨ '\n' ∉ r.source)
    (hfind : (statements r.source t).find? (fun g => !g.isType) = some f) :
    ∃ after, splice t (r.plan? t).toList = .ok after ∧ ∀ name, name ∈ valued r.source after ↔
      name ∈ valued r.source t ∨ name ∈ r.names ∧ name ∉ f.bound := by
  obtain ⟨hf, skipped, later, hfound, hskipped⟩ := List.find?_eq_some_iff_append.1 hfind
  have hftype : f.isType = false := by simpa using hf
  have hbefore := valued_of_first hfound (by simpa using hskipped) hftype
  have hmay := mayJoin_of_value hvalue
  have hplan : r.plan? t = r.join? t f := by rw [plan?, hmay, hfind]
  rw [hplan]
  cases hjoin : r.join? t f with
  | none =>
      have hbound := join?_eq_none_iff.1 hjoin
      refine ⟨t, splice_nil t, fun name => ?_⟩
      exact ⟨.inl, fun h => h.resolve_right fun h => h.2 (hbound name h.1)⟩
  | some e =>
      obtain ⟨after, skipped', g, hafter, hfound', htypes, htype, hlist⟩ :=
        exists_joined hnames hsource hfound hjoin
      have hskipped' : ∀ a ∈ skipped', a.isType = true := by
        simpa [hmay] using mayJoin_of_types (r := r) htypes (by simpa [hmay] using hskipped)
      have hgrown := valued_of_list hvalue hnames hlist
      refine ⟨after, hafter, fun name => ?_⟩
      rw [valued_of_first hfound' hskipped' (htype.trans hftype), hgrown, hbefore]
      simp only [List.mem_append, List.mem_filter, decide_eq_true_eq]
      tauto

/-- A request for values is met by the first statement of values: it adds just the names that this
statement does not bind. So it fails for a name just if that statement binds it as a type and no
statement binds it as a value. -/
theorem value_requests_meet_first_statement (hvalue : r.typeOnly = false)
    (hnames : ∀ name ∈ r.names, IsName name) (hsource : '{' ∉ r.source ∨ '\n' ∉ r.source)
    (hvalues : ∃ g ∈ statements r.source t, g.isType = false) :
    ∃ f after, (statements r.source t).find? (fun g => !g.isType) = some f ∧
      splice t (r.plan? t).toList = .ok after ∧
      (∀ name, name ∈ valued r.source after ↔
        name ∈ valued r.source t ∨ name ∈ r.names ∧ name ∉ f.bound) ∧
      ((∀ name ∈ r.names, name ∈ valued r.source after) ↔
        ∀ name ∈ r.names, name ∈ f.bound → name ∈ valued r.source t) := by
  obtain ⟨g, hg, hgtype⟩ := hvalues
  have hsome : ((statements r.source t).find? fun g => !g.isType).isSome :=
    List.find?_isSome.2 ⟨g, hg, by simp [hgtype]⟩
  obtain ⟨f, hfind⟩ := Option.isSome_iff_exists.1 hsome
  obtain ⟨after, hafter, hmem⟩ := exists_valued hvalue hnames hsource hfind
  refine ⟨f, after, hfind, hafter, hmem, ?_⟩
  constructor
  · intro hall name hname hbound
    exact ((hmem name).1 (hall name hname)).resolve_right fun h => h.2 hbound
  · intro hall name hname
    by_cases hbound : name ∈ f.bound
    · exact (hmem name).2 (.inl (hall name hname hbound))
    · exact (hmem name).2 (.inr ⟨hname, hbound⟩)

theorem value_requests_meet_first_statement_alias : ∃ after,
    splice "import type \x7b T \x7d from './m';\nimport \x7b a as b, type U \x7d from './m';\n"
      (plan? ⟨"./m", ["b", "T"], false⟩
        "import type \x7b T \x7d from './m';\nimport \x7b a as b, type U \x7d from './m';\n").toList =
          .ok after ∧
      ∀ name ∈ ["b".toList, "T".toList], name ∈ valued "./m" after := by
  have hnames : ∀ name ∈ ["b".toList, "T".toList], IsName name := by
    simp only [List.mem_cons, List.not_mem_nil, or_false, forall_eq_or_imp, forall_eq]
    exact ⟨isName_of_isIdentifier rfl, isName_of_isIdentifier rfl⟩
  have hvalues : ∃ g ∈ statements "./m"
      "import type \x7b T \x7d from './m';\nimport \x7b a as b, type U \x7d from './m';\n",
      g.isType = false := by
    decide +kernel
  obtain ⟨f, after, hfind, hafter, -, hall⟩ := value_requests_meet_first_statement
    (r := ⟨"./m", ["b", "T"], false⟩) rfl hnames (.inl (by decide)) hvalues
  refine ⟨after, hafter, hall.2 ?_⟩
  obtain rfl : f = ⟨false, "\x7b a as b, type U \x7d", "\x7b a as b, type U \x7d from './m';\n", ";\n"⟩ :=
    Option.some.inj (hfind.symm.trans (by decide +kernel))
  decide +kernel

/-- An entry of a type keeps the value of its name out of the list. -/
theorem type_entry_hides_value :
    plan? ⟨"./m", ["X"], false⟩ "import \x7b type X \x7d from './m';\n" = none ∧
      (∃ g ∈ statements "./m" "import \x7b type X \x7d from './m';\n", g.isType = false) ∧
      "X".toList ∉ valued "./m" "import \x7b type X \x7d from './m';\n" := by
  decide +kernel

end ImportRequest

end Scaffold
