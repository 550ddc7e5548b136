import Scaffold.Proofs.Insertion.Imports
import Scaffold.Proofs.Name.Fused
import Scaffold.Proofs.Recipe.Apart
import Scaffold.Proofs.Recipe.Growth
import Scaffold.Proofs.Recipe.Members
import Scaffold.Proofs.Recipe.Routes
import Scaffold.Proofs.Tree.Replacing

namespace Scaffold

open Text

namespace Layout

variable (root : Path)

theorem endsIn_shared : ((default root).path .schemas).EndsIn "schemas.ts" ∧
    ((default root).path .shard).EndsIn "user-shard.ts" ∧
    Path.moduleSpecifier ((default root).path .shard) ((default root).path .schemas) =
      "../../shared/schemas" := by
  obtain ⟨u, hu, hjoin⟩ := exists_join_source root
  have hschemas : (default root).path .schemas =
      ⟨u ++ '/' :: "shared".toList ++ '/' :: "schemas.ts"⟩ := by
    rw [List.append_assoc]
    exact hjoin "shared/schemas.ts"
  have hshard : (default root).path .shard =
      ⟨u ++ '/' :: "server".toList ++ '/' :: "durable".toList ++ '/' :: "user-shard.ts"⟩ := by
    rw [List.append_assoc, List.append_assoc]
    exact hjoin "server/durable/user-shard.ts"
  refine ⟨⟨by decide, u, "shared", hu, by decide, hschemas⟩,
    ⟨by decide, u ++ '/' :: "server", "durable", by simp, by decide, hshard⟩, ?_⟩
  have hstem : "schemas.ts".toList = "schemas".toList ++ '.' :: "ts".toList := rfl
  rw [hschemas, hshard, hstem]
  exact Path.moduleSpecifier_across hu (by decide) (by decide) (by decide) (by decide) (by decide)
    (by decide) (by decide) (by decide)

end Layout

namespace Wire

variable {w : Wire} {t t' : Tree} {c u : Text}

theorem styled_of_not_resolved (h : w.resolved = none) (t : Tree) : w.styled t = w.insertion := by
  simp [styled, h]

theorem run_of_made {a : Anchor} (hresolved : w.resolved = none)
    (hread : t.readText w.file = .ok c) (hmade : Made a [w.insertion] c u)
    (hreplace : t.replace w.file (.text u) = .ok t') :
    w.run false t = .ok (.applied w.file c u none, none) t' := by
  obtain ⟨_, edits, hplan, hsplice⟩ : ∃ v edits, w.insertion.plan c = .edits edits a none ∧
      splice c edits = .ok u := by
    cases hmade with
    | cons hplan hsplice hrest =>
        cases hrest
        exact ⟨u, _, hplan, hsplice⟩
  refine run_eq_ok_iff.2 ⟨Insertion.apply_eq_ok_iff.2 ⟨?_, ?_⟩, rfl⟩
  · rw [styled_of_not_resolved hresolved, hread, Insertion.outcome, Insertion.outcomeFor, hplan]
    simp [hsplice]
  · rw [Outcome.write]
    exact Disk.change_eq_ok_iff.2 (mapError_eq_ok_iff.2 hreplace)

end Wire

namespace Layout

variable (l : Layout) (n : Name)

def tableSchema : Insertion where
  kind := .schemas
  markers := ["const " ++ (n.pascal ++ "Row" ++ "Schema") ++ " "]
  imports := [⟨"zod", ["z"], false⟩]
  fragment := Template.Table.schema.fill (l.bindings n)

def tableShard (source : Text) : Insertion where
  kind := .shard
  markers := ["// stackgen[" ++ "table" ++ ":" ++ n.kebab ++ "]"]
  imports := [⟨source, [n.pascal ++ "Row"], true⟩]
  fragment := (Template.Table.shard.marked "table").fill (l.bindings n)

theorem exists_table : ∃ steps, Recipe.table l n = .ok ⟨[], [],
    [⟨l.path .schemas, l.tableSchema n, none⟩,
      ⟨l.path .shard, l.tableShard n (Path.moduleSpecifier (l.path .shard) (l.path .schemas)), none⟩],
    steps⟩ := by
  obtain ⟨r, hr, -⟩ := Product.table.exists_recipe l n
  have htable : Recipe.table l n = .ok r := hr
  obtain ⟨schema, hschema, h⟩ := bind_eq_ok_iff.1 hr
  obtain ⟨shard, hshard, h⟩ := bind_eq_ok_iff.1 h
  cases h
  rw [htable, eq_of_schemaWire hschema, eq_of_shardWire hshard]
  exact ⟨_, rfl⟩

variable {l n} {m : Name} {source c u : Text}

theorem hasSturdyMark_table : (l.tableSchema n).HasSturdyMark ∧
    (l.tableShard n (Path.moduleSpecifier (l.path .shard) (l.path .schemas))).HasSturdyMark := by
  obtain ⟨r, hr, hsound⟩ := Product.table.exists_recipe l n
  obtain ⟨steps, hsteps⟩ := l.exists_table n
  obtain rfl := Except.ok.inj (hsteps.symm.trans hr)
  exact ⟨(hsound.wires _ List.mem_cons_self).2.plain,
    (hsound.wires _ (List.mem_cons_of_mem _ List.mem_cons_self)).2.plain⟩

theorem quote_cases {quote : Char} (h : Shape.isQuote quote = true) : quote = '\'' ∨ quote = '"' := by
  simpa [Shape.isQuote] using h

theorem line_zod {quote : Char} (h : Shape.isQuote quote = true) :
    '\n' ∉ ImportRequest.line ⟨"zod", ["z"], false⟩ quote ∧
      'c' ∉ ImportRequest.line ⟨"zod", ["z"], false⟩ quote := by
  rcases quote_cases h with rfl | rfl <;> decide

theorem not_mem_line_row {d quote : Char} (h : Shape.isQuote quote = true) (hd : d ∈ ['\n', '['])
    (hsource : d ∉ source) : d ∉ ImportRequest.line ⟨source, [n.pascal ++ "Row"], true⟩ quote := by
  have hfacts : d.isAlphanum = false ∧ d ∉ "import ".toList ∧ d ∉ "type ".toList ∧
      d ∉ "\x7b ".toList ∧ d ∉ "Row".toList ∧ d ∉ " \x7d from ".toList ∧ d ∉ [quote, ';'] := by
    simp only [List.mem_cons, List.not_mem_nil, or_false] at hd
    rcases hd with rfl | rfl <;> rcases quote_cases h with rfl | rfl <;> decide
  obtain ⟨hpart, himport, htype, hopen, hrow, hfrom, hend⟩ := hfacts
  have hpascal : d ∉ n.pascal := fun hmem => by
    rw [Name.isAlphanum_pascal hmem] at hpart
    cases hpart
  have hquote : d ∉ quote :: source := fun hmem => by
    rcases List.mem_cons.1 hmem with heq | hmem
    · exact hend (heq ▸ List.mem_cons_self)
    · exact hsource hmem
  have hname : d ∉ List.intercalate ", ".toList [n.pascal ++ "Row"] := fun hmem => by
    rw [List.intercalate_singleton] at hmem
    exact (List.mem_append.1 hmem).elim hpascal hrow
  rw [ImportRequest.line_eq, ImportRequest.clause, if_pos rfl]
  simp only [List.mem_append, not_or]
  exact ⟨⟨⟨himport, ⟨⟨htype, hopen⟩, hname⟩, hfrom⟩, hquote⟩, hend⟩

theorem isClassless_row (n : Name) : Shape.IsClassless (n.pascal ++ "Row") := by
  obtain ⟨c, t, hc, -, hpascal⟩ := n.exists_camel
  have hupper : c.toUpper.isUpper = true := by
    rw [Char.isUpper_toUpper_eq_isAlpha]
    simp [Char.isAlpha, hc]
  have hline : '\n' ∉ n.pascal ++ "Row" := by
    rw [List.mem_append, not_or]
    exact ⟨fun hmem => absurd (Name.isAlphanum_pascal hmem) (by decide), by decide⟩
  refine Shape.isClassless_of_head (c := c.toUpper) hline (by rw [hpascal]; rfl) ?_ ?_
  · rw [Bool.or_eq_false_iff, beq_eq_false_iff_ne, beq_eq_false_iff_ne]
    constructor <;> intro heq <;> rw [heq] at hupper <;> exact absurd hupper (by decide)
  · intro hmem
    simp only [Shape.classLetters, List.mem_cons, List.not_mem_nil, or_false] at hmem
    rcases hmem with heq | heq | heq | heq <;> rw [heq] at hupper <;> exact absurd hupper (by decide)

theorem isMark_constant (n : Name) : IsMark ("const " ++ (n.pascal ++ "Row" ++ "Schema") ++ " ") := by
  have hmark : IsMark ("const " ++ n.pascal ++ "RowSchema ") :=
    .around (by decide) n.isPlain_pascal (by simp [breaks])
  simpa using hmark

theorem isMark_sign (n : Name) : IsMark ("// stackgen[" ++ "table" ++ ":" ++ n.kebab ++ "]") :=
  IsMark.around (x := "// stackgen[table:") (by decide) n.isPlain_kebab (by simp [breaks])

/-- The constant of a row schema has the name's form in one word, and so it is found in what the
schema file got for another name exactly when the two forms are the same. -/
theorem isPresent_tableSchema_iff (hmade : Made .textEnd [l.tableSchema n] c u)
    (hadds : (l.tableSchema n).AddsNoMark ⟨"zod", ["z"], false⟩ c u)
    (hm : (l.tableSchema m).isPresent c = false) :
    (l.tableSchema m).isPresent u = true ↔ n.pascal = m.pascal := by
  constructor
  · intro hpresent
    by_contra hne
    obtain ⟨k, hk, hku⟩ := Insertion.isPresent_iff.1 hpresent
    obtain rfl := List.mem_singleton.1 hk
    refine hadds _ (isMark_constant m) ⟨'c', by simp, fun quote h => (line_zod h).2⟩ ?_ ?_ hku
    · have happart := Product.not_isInfix_of_constant (p := .table) (q := .table) (l := l)
        (t := Template.Table.schema) (.inr (Ne.symm hne)) rfl
        (by simp [Product.schemaTemplates, Product.schema?])
      rw [tableSchema]
      simpa using happart
    · intro hkc
      rw [Insertion.isPresent_iff.2 ⟨_, hk, hkc⟩] at hm
      cases hm
  · intro heq
    have hsame : (l.tableSchema m).isPresent u = (l.tableSchema n).isPresent u := by
      rw [Insertion.isPresent, Insertion.isPresent, tableSchema, tableSchema, heq]
    rw [hsame]
    cases hmade with
    | cons hplan hsplice hrest =>
        cases hrest
        exact Insertion.isPresent_of_plan hasSturdyMark_table.1.isMarked hplan hsplice

/-- The comment over a table's methods has the whole name. -/
theorem isPresent_tableShard (hne : n.kebab ≠ m.kebab) (hsource : '[' ∉ source)
    (hadds : (l.tableShard n source).AddsNoMark ⟨source, [n.pascal ++ "Row"], true⟩ c u)
    (hm : (l.tableShard m source).isPresent c = false) :
    (l.tableShard m source).isPresent u = false := by
  rw [← Bool.not_eq_true]
  intro hpresent
  obtain ⟨k, hk, hku⟩ := Insertion.isPresent_iff.1 hpresent
  obtain rfl := List.mem_singleton.1 hk
  refine hadds _ (isMark_sign m) ⟨'[', by simp, fun quote h =>
    not_mem_line_row h (by decide) hsource⟩ ?_ ?_ hku
  · exact Product.not_isInfix_of_sign (p := .table) (q := .table) (.inr (Ne.symm hne)) rfl
      (by simp [Product.shardTemplates, Product.shard?])
  · intro hkc
    rw [Insertion.isPresent_iff.2 ⟨_, hk, hkc⟩] at hm
    cases hm

variable {t t' v : Tree} {raw S C top header body tail head members margin : Text}
  {o o' : Outcome × Option Text}

theorem generate_table (hparse : Name.parse raw = .ok n)
    (hsource : Path.moduleSpecifier (l.path .shard) (l.path .schemas) = source)
    (hschema : Wire.run false ⟨l.path .schemas, l.tableSchema n, none⟩ t = .ok o t')
    (hshard : Wire.run false ⟨l.path .shard, l.tableShard n source, none⟩ t' = .ok o' v) :
    ∃ r, Product.table.generate l raw false t = .ok r v ∧ r.outcomes = [o.1, o'.1] := by
  obtain ⟨steps, hsteps⟩ := l.exists_table n
  rw [hsource] at hsteps
  refine ⟨⟨false, [], [o.1, o'.1], [o, o'].filterMap Prod.snd ++ steps⟩,
    Product.generate_eq_ok_iff.2 ⟨n, _, hparse, hsteps, ?_⟩, rfl⟩
  refine Recipe.run_eq_ok_iff.2 ⟨t, [o, o'], rfl, ?_, rfl⟩
  rw [List.mapM_cons]
  refine Disk.bind_eq_ok_iff.2 ⟨o, t', hschema, Disk.bind_eq_ok_iff.2 ⟨[o'], v, ?_, rfl⟩⟩
  rw [List.mapM_cons]
  exact Disk.bind_eq_ok_iff.2 ⟨o', v, hshard, rfl⟩

theorem isBalanced_tableShard (l : Layout) (n : Name) :
    Brace.IsBalanced (l.tableShard n
      (Path.moduleSpecifier (l.path .shard) (l.path .schemas))).member := by
  obtain ⟨steps, hsteps⟩ := l.exists_table n
  exact (Recipe.wired_of_table hsteps (List.mem_cons_of_mem _ List.mem_cons_self)).isBalanced rfl

theorem suffix_member_tableShard (l : Layout) (n : Name) (source : Text) :
    "\x7d\n".toList <:+ (l.tableShard n source).member := by
  have hfill : ∃ b, (l.tableShard n source).fragment = Template.Table.shard.fill b :=
    ⟨_, by rw [tableShard, Template.marked, Template.fill_expand]⟩
  obtain ⟨b, hb⟩ := hfill
  obtain ⟨u, hlines⟩ := Template.nests_tableShard.exists_lines b
  rw [Insertion.member_of_lines (hb.trans hlines), hb, hlines]
  exact ⟨'\n' :: (u ++ "  "), by simp⟩

def schemasModule : Text := "../../shared/schemas"

theorem exists_generate {root : Path} (hparse : Name.parse raw = .ok n)
    (hS : t.readText ((default root).path .schemas) = .ok S)
    (hC : t.readText ((default root).path .shard) = .ok C) {C' : Text}
    (hshard : Made .classEnd [(default root).tableShard n schemasModule] C C') :
    (∀ S', Made .textEnd [(default root).tableSchema n] S S' →
      ∃ r t', Product.table.generate (default root) raw false t = .ok r t' ∧
        r.outcomes = [.applied ((default root).path .schemas) S S' none,
          .applied ((default root).path .shard) C C' none] ∧
        t'.readText ((default root).path .schemas) = .ok S' ∧
        t'.readText ((default root).path .shard) = .ok C') ∧
    (((default root).tableSchema n).isPresent S = true →
      ∃ r t', Product.table.generate (default root) raw false t = .ok r t' ∧
        r.outcomes = [.alreadyApplied ((default root).path .schemas),
          .applied ((default root).path .shard) C C' none]) := by
  obtain ⟨hends, hends', hsource⟩ := endsIn_shared root
  constructor
  · intro S' hschema
    obtain ⟨u, hu, hread, hothers⟩ := Tree.exists_replace hends hS S'
    have hCu := hothers _ _ _ hends' (by decide) hC
    obtain ⟨v, hv, hread', hothers'⟩ := Tree.exists_replace hends' hCu C'
    obtain ⟨r, hrun, hr⟩ := generate_table hparse hsource (Wire.run_of_made rfl hS hschema hu)
      (Wire.run_of_made rfl hCu hshard hv)
    exact ⟨r, v, hrun, hr, hothers' _ _ _ hends (by decide) hread, hread'⟩
  · intro hpresent
    obtain ⟨v, hv, -⟩ := Tree.exists_replace hends' hC C'
    obtain ⟨r, hrun, hr⟩ := generate_table hparse hsource
      (Wire.run_of_isPresent hS (by rwa [Wire.styled_of_not_resolved rfl]))
      (Wire.run_of_made rfl hC hshard hv)
    exact ⟨r, v, hrun, hr⟩

/-- A project in the default layout with a schema file and a shard, in which there is nothing of the
names' tables yet, and with a class in the shard that the imports keep apart from. -/
structure TakesTables (root : Path) (ns : List Name) (t : Tree) (S C : Text) : Prop where
  schemas : t.readText ((default root).path .schemas) = .ok S
  shard : t.readText ((default root).path .shard) = .ok C
  bare : ∀ n ∈ ns, ∀ r, Product.table.recipe (default root) n = .ok r → ∀ w ∈ r.wires, ∀ c,
    t.readText w.file = .ok c → w.insertion.isPresent c = false
  apart : ∃ top header body tail, ClassApart schemasModule C top header body tail

theorem bare_iff {root : Path} (hS : t.readText ((default root).path .schemas) = .ok S)
    (hC : t.readText ((default root).path .shard) = .ok C) :
    (∀ r, Product.table.recipe (default root) n = .ok r → ∀ w ∈ r.wires, ∀ c,
      t.readText w.file = .ok c → w.insertion.isPresent c = false) ↔
    ((default root).tableSchema n).isPresent S = false ∧
      ((default root).tableShard n schemasModule).isPresent C = false := by
  obtain ⟨steps, hsteps⟩ := (default root).exists_table n
  rw [(endsIn_shared root).2.2] at hsteps
  constructor
  · intro h
    exact ⟨h _ hsteps _ List.mem_cons_self S hS,
      h _ hsteps _ (List.mem_cons_of_mem _ List.mem_cons_self) C hC⟩
  · rintro ⟨hschema, hshard⟩ r hr w hw c hc
    obtain rfl := Except.ok.inj (hsteps.symm.trans hr)
    simp only [List.mem_cons, List.not_mem_nil, or_false] at hw
    rcases hw with rfl | rfl
    · rwa [Except.ok.inj (hc.symm.trans hS)]
    · rwa [Except.ok.inj (hc.symm.trans hC)]

/-- Two tables one after the other. Both get their methods into the shard, and the second one its
schema unless the forms of the names in one word are the same. -/
theorem exists_runs {root : Path} {raw' : Text} (hparse : Name.parse raw = .ok n)
    (hparse' : Name.parse raw' = .ok m) (hne : n.kebab ≠ m.kebab)
    (h : TakesTables root [n, m] t S C) :
    ∃ S₁ C₁ S₂ C₂ r₁ t₁ r₂ t₂,
      Product.table.generate (default root) raw false t = .ok r₁ t₁ ∧
      r₁.outcomes = [.applied ((default root).path .schemas) S S₁ none,
        .applied ((default root).path .shard) C C₁ none] ∧
      Product.table.generate (default root) raw' false t₁ = .ok r₂ t₂ ∧
      r₂.outcomes =
        [if n.pascal = m.pascal then .alreadyApplied ((default root).path .schemas)
          else .applied ((default root).path .schemas) S₁ S₂ none,
        .applied ((default root).path .shard) C₁ C₂ none] := by
  obtain ⟨top, header, body, tail, hclass⟩ := h.apart
  obtain ⟨hschema, hshard⟩ := (bare_iff h.schemas h.shard).1 (h.bare n (by simp))
  obtain ⟨hschema', hshard'⟩ := (bare_iff h.schemas h.shard).1 (h.bare m (by simp))
  have hbalanced := isBalanced_tableShard (default root) n
  rw [(endsIn_shared root).2.2] at hbalanced
  obtain ⟨S₁, hmade, hadds⟩ := Insertion.exists_made_at_end (i := (default root).tableSchema n) rfl rfl
    (fun quote hq => (line_zod hq).1) hschema
  obtain ⟨C₁, head, members, margin, tail', hmade', hgathers, hadds'⟩ :=
    Insertion.exists_made_apart (i := (default root).tableShard n schemasModule) rfl rfl
      (fun quote hq => not_mem_line_row hq (by decide) (by decide))
      (by simpa using isClassless_row n) hbalanced hshard hclass
  -- What the first run has left tells whether the second one finds anything of its own.
  have hpresent := isPresent_tableSchema_iff hmade hadds hschema'
  have habsent := isPresent_tableShard hne (by decide) hadds' hshard'
  have hend := (suffix_member_tableShard (default root) n schemasModule).trans
    (List.suffix_append members _)
  obtain ⟨C₂, hnext⟩ := hgathers.exists_made_with_import
    (i := (default root).tableShard m schemasModule) rfl rfl habsent hend
  obtain ⟨r₁, t₁, hrun, hr, hS₁, hC₁⟩ := (exists_generate hparse h.schemas h.shard hmade').1 S₁ hmade
  by_cases heq : n.pascal = m.pascal
  · obtain ⟨r₂, t₂, hrun', hr'⟩ := (exists_generate hparse' hS₁ hC₁ hnext).2 (hpresent.2 heq)
    exact ⟨S₁, C₁, S₁, C₂, r₁, t₁, r₂, t₂, hrun, hr, hrun', by rw [hr', if_pos heq]⟩
  · obtain ⟨S₂, hmore, -⟩ := Insertion.exists_made_at_end (i := (default root).tableSchema m) rfl rfl
      (fun quote hq => (line_zod hq).1) (Bool.eq_false_iff.2 (mt hpresent.1 heq))
    obtain ⟨r₂, t₂, hrun', hr', -⟩ := (exists_generate hparse' hS₁ hC₁ hnext).1 S₂ hmore
    exact ⟨S₁, C₁, S₂, C₂, r₁, t₁, r₂, t₂, hrun, hr, hrun', by rw [hr', if_neg heq]⟩

/-- What tables declare in the shard. Their names of SQL tables have the whole name, and their methods
its form in one word. -/
theorem declarations_of_tables {l' : Layout} {r r' : Recipe} (hne : n.kebab ≠ m.kebab)
    (hr : Product.table.recipe l n = .ok r) (hr' : Product.table.recipe l' m = .ok r') :
    r.tables.Disjoint r'.tables ∧ (r.members.Disjoint r'.members ↔ n.pascal ≠ m.pascal) := by
  have hput : ∀ {l : Layout} {n : Name} {r : Recipe}, Product.table.recipe l n = .ok r →
      "put".toList ++ (n.pascal ++ "Row") ∈ r.members := by
    intro l n r hr
    obtain ⟨steps, hsteps⟩ := l.exists_table n
    obtain rfl := Except.ok.inj (hsteps.symm.trans hr)
    obtain ⟨hall, -, hlegible, -, hnames, -⟩ := Product.of_symbols .table (Product.mem_all _)
    have htemplates : Product.table.shardTemplates = [Template.Table.shard.marked "table"] := rfl
    rw [htemplates, List.flatMap_singleton] at hnames
    rw [htemplates] at hall hlegible
    have hdeclared := Product.declared_fill (l := l) (n := n)
      (hall _ (List.mem_append_right _ (List.mem_singleton_self _))).1
      (hlegible _ (List.mem_singleton_self _)).1
    have hline : Line.symbols ["put", .slot .pascal, "Row"] ∈
        (Template.Table.shard.marked "table").declared Text.memberLeads := by
      rw [hnames]
      exact List.mem_map_of_mem (by decide)
    refine List.mem_flatMap.2 ⟨_, List.mem_singleton_self _, ?_⟩
    rw [tableShard, hdeclared]
    refine List.mem_map.2 ⟨_, hline, ?_⟩
    have hvalue : l.value n .pascal = n.pascal := rfl
    simp [hvalue, Line.symbols, Piece.symbols, Symbol.fillAll_append, Symbol.fillAll_ofText]
  refine ⟨List.disjoint_of_subset_left (Product.tables_subset hr)
    (List.disjoint_of_subset_right (Product.tables_subset hr') (disjoint_tableNames (.inr hne))),
    fun hdisjoint heq => ?_, fun hpascal => ?_⟩
  · exact hdisjoint (hput hr) (heq ▸ hput hr')
  · exact List.disjoint_of_subset_left (Product.members_subset hr)
      (List.disjoint_of_subset_right (Product.members_subset hr')
        (disjoint_names Product.namesApart_members (.inr hpascal)))

def sampleSchemas : Text := "import \x7b z \x7d from 'zod';\n"

def sampleShard : Text :=
  "import \x7b Base \x7d from 'base';\n\nexport class Shard extends Base \x7b\n\x7d\n"

def sampleTree : Tree where
  home := []
  entries := [(["app"], .directory), (["app", "src"], .directory),
    (["app", "src", "shared"], .directory),
    (["app", "src", "shared", "schemas.ts"], .file (.text sampleSchemas)),
    (["app", "src", "server"], .directory), (["app", "src", "server", "durable"], .directory),
    (["app", "src", "server", "durable", "user-shard.ts"], .file (.text sampleShard))]

theorem classApart_sample : ClassApart schemasModule sampleShard
    "import \x7b Base \x7d from 'base';\n\n" "export class Shard extends Base " "\n" "\n" := by
  have himport : Anchor.locate sampleShard .firstImport = some
      ⟨"import \x7b Base \x7d from 'base';\n",
        "\nexport class Shard extends Base \x7b\n\x7d\n"⟩ := by
    decide +kernel
  have hnone : Import.statements schemasModule sampleShard = [] := by decide +kernel
  refine ⟨⟨rfl, by decide +kernel, Brace.closing?_eq_some_iff.2 ⟨_, _, rfl, rfl, false, by decide⟩⟩,
    by decide +kernel, fun k hk => ?_, by simp [hnone], by simp [hnone]⟩
  rw [himport] at hk
  cases hk
  exact .inl ⟨"\n", rfl⟩

theorem takesTables_sample (n m : Name) :
    TakesTables ⟨"app"⟩ [n, m] sampleTree sampleSchemas sampleShard := by
  have hS : sampleTree.readText ((default ⟨"app"⟩).path .schemas) = .ok sampleSchemas := rfl
  have hC : sampleTree.readText ((default ⟨"app"⟩).path .shard) = .ok sampleShard := rfl
  have habsent : ∀ {i : Insertion} {x c : Text}, (∀ k ∈ i.markers, x <+: k) →
      Text.contains x c = false → i.isPresent c = false := by
    intro i x c hmarkers hx
    rw [← Bool.not_eq_true, Insertion.isPresent_iff]
    rintro ⟨k, hk, hkc⟩
    rw [Text.contains_iff.2 ((hmarkers k hk).isInfix.trans hkc)] at hx
    cases hx
  refine ⟨hS, hC, fun k _ => (bare_iff hS hC).2 ⟨?_, ?_⟩, _, _, _, _, classApart_sample⟩
  · refine habsent (x := "const ") (fun k hk => ?_) (by decide +kernel)
    rw [List.mem_singleton.1 hk, List.append_assoc]
    exact List.prefix_append _ _
  · refine habsent (x := "// stackgen[") (fun k hk => ?_) (by decide +kernel)
    rw [List.mem_singleton.1 hk, List.append_assoc, List.append_assoc, List.append_assoc]
    exact List.prefix_append _ _

end Layout

/-- Tables for two names. The forms in one word tell names apart that differ in more than hyphens
before digits. In a project with a class that the imports keep apart from, a table for the first name
and then one for the second both go into the shard, and into the schema file too if these forms differ;
if not, the second is taken to be in the schema file already. The SQL tables of the two always differ,
and the class members do exactly when the forms do. -/
theorem tables_for_distinct_names {a b : Text} {n m : Name} (ha : Name.parse a = .ok n)
    (hb : Name.parse b = .ok m) (hne : a ≠ b) :
    ((n.pascal = m.pascal ↔ n.fused = m.fused) ∧ (n.camel = m.camel ↔ n.pascal = m.pascal)) ∧
    (∀ (root : Path) (t : Tree) (S C : Text), Layout.TakesTables root [n, m] t S C →
      ∃ S₁ C₁ S₂ C₂ r₁ t₁ r₂ t₂,
        Product.table.generate (.default root) a false t = .ok r₁ t₁ ∧
        r₁.outcomes = [.applied ((Layout.default root).path .schemas) S S₁ none,
          .applied ((Layout.default root).path .shard) C C₁ none] ∧
        Product.table.generate (.default root) b false t₁ = .ok r₂ t₂ ∧
        r₂.outcomes =
          [if n.pascal = m.pascal then .alreadyApplied ((Layout.default root).path .schemas)
            else .applied ((Layout.default root).path .schemas) S₁ S₂ none,
          .applied ((Layout.default root).path .shard) C₁ C₂ none]) ∧
    ∀ l l' : Layout, ∃ r r', Product.table.recipe l n = .ok r ∧ Product.table.recipe l' m = .ok r' ∧
      r.tables.Disjoint r'.tables ∧ (r.members.Disjoint r'.members ↔ n.pascal ≠ m.pascal) := by
  have hkebab : n.kebab ≠ m.kebab := by
    rwa [Name.kebab_of_parse ha, Name.kebab_of_parse hb]
  refine ⟨⟨Name.pascal_eq_iff, Name.camel_eq_iff⟩,
    fun root t S C h => Layout.exists_runs ha hb hkebab h, fun l l' => ?_⟩
  obtain ⟨r, hr, -⟩ := Product.table.exists_recipe l n
  obtain ⟨r', hr', -⟩ := Product.table.exists_recipe l' m
  exact ⟨r, r', hr, hr', Layout.declarations_of_tables hkebab hr hr'⟩

theorem tables_for_order_and_stripe : ∃ n m t₁ r₁ r₂ t₂,
    Name.parse "order" = .ok n ∧ Name.parse "stripe" = .ok m ∧
    Product.table.generate (.default ⟨"app"⟩) "order" false Layout.sampleTree = .ok r₁ t₁ ∧
    Product.table.generate (.default ⟨"app"⟩) "stripe" false t₁ = .ok r₂ t₂ ∧
    r₂.outcomes.map Outcome.isChange = [true, true] := by
  have hpascal : Casing.pascal "order" ≠ Casing.pascal "stripe" := by decide +kernel
  have hforms : Name.pascal ⟨"order", Name.check_order⟩ ≠ Name.pascal ⟨"stripe", Name.check_stripe⟩ :=
    hpascal
  have hparse := Name.parse_eq Name.check_order
  have hparse' := Name.parse_eq Name.check_stripe
  obtain ⟨S₁, C₁, S₂, C₂, r₁, t₁, r₂, t₂, hrun, -, hrun', houtcomes⟩ :=
    (tables_for_distinct_names hparse hparse' (by decide)).2.1 _ _ _ _ (Layout.takesTables_sample _ _)
  refine ⟨_, _, t₁, r₁, r₂, t₂, hparse, hparse', hrun, hrun', ?_⟩
  rw [houtcomes, if_neg hforms]
  rfl

/-- Nothing is left in the forms in one word of the hyphen before a digit, and the second table gets
no schema. -/
theorem tables_mistaken_at_digit : ∃ n m t₁ r₁ r₂ t₂,
    Name.parse "a-1" = .ok n ∧ Name.parse "a1" = .ok m ∧ n.pascal = m.pascal ∧ n.camel = m.camel ∧
    Layout.TakesTables ⟨"app"⟩ [n, m] Layout.sampleTree Layout.sampleSchemas Layout.sampleShard ∧
    Product.table.generate (.default ⟨"app"⟩) "a-1" false Layout.sampleTree = .ok r₁ t₁ ∧
    Product.table.generate (.default ⟨"app"⟩) "a1" false t₁ = .ok r₂ t₂ ∧
    r₁.outcomes.map Outcome.isChange = [true, true] ∧
    r₂.outcomes.map Outcome.isChange = [false, true] ∧
    ∃ r r', Product.table.recipe (.default ⟨"app"⟩) n = .ok r ∧
      Product.table.recipe (.default ⟨"app"⟩) m = .ok r' ∧ ¬r.members.Disjoint r'.members := by
  have hwords : "a-1".toList ∉ reservedWords ∧ "a1".toList ∉ reservedWords := by
    unfold reservedWords
    simp (disch := with_reducible rfl) only [Text.toList_eq]
    decide +kernel
  have hcheck : Name.check "a-1" = .ok () ∧ Name.check "a1" = .ok () := by
    rw [Name.check, Name.check, if_neg hwords.1, if_neg hwords.2]
    decide +kernel
  have hpascal : Casing.pascal "a-1" = Casing.pascal "a1" := by decide +kernel
  have hforms : Name.pascal ⟨"a-1", hcheck.1⟩ = Name.pascal ⟨"a1", hcheck.2⟩ := hpascal
  have htakes := Layout.takesTables_sample ⟨"a-1", hcheck.1⟩ ⟨"a1", hcheck.2⟩
  have hparse := Name.parse_eq hcheck.1
  have hparse' := Name.parse_eq hcheck.2
  obtain ⟨S₁, C₁, S₂, C₂, r₁, t₁, r₂, t₂, hrun, hr, hrun', hr'⟩ :=
    Layout.exists_runs hparse hparse' (by simp) htakes
  obtain ⟨r, hrecipe, -⟩ := Product.table.exists_recipe (.default ⟨"app"⟩) ⟨"a-1", hcheck.1⟩
  obtain ⟨r', hrecipe', -⟩ := Product.table.exists_recipe (.default ⟨"app"⟩) ⟨"a1", hcheck.2⟩
  have hmembers := (Layout.declarations_of_tables (by simp) hrecipe hrecipe').2
  refine ⟨_, _, t₁, r₁, r₂, t₂, hparse, hparse', hforms, Name.camel_eq_iff.2 hforms, htakes, hrun,
    hrun', by rw [hr]; rfl, ?_, r, r', hrecipe, hrecipe', fun h => hmembers.1 h hforms⟩
  rw [hr', if_pos hforms]
  rfl

end Scaffold
