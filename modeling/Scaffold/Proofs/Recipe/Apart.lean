import Scaffold.Proofs.Name.Parts
import Scaffold.Proofs.Recipe.Listed
import Scaffold.Proofs.Recipe.Wires

namespace Scaffold

def Recipe.fragments (r : Recipe) (k : FileKind) : List Text :=
  (r.wires.filter fun w => w.insertion.kind = k).map fun w => w.insertion.fragment

def Recipe.exports (r : Recipe) : List Text :=
  (r.fragments .schemas).flatMap (Text.declared Text.exportLeads)

def Recipe.members (r : Recipe) : List Text :=
  (r.fragments .shard).flatMap (Text.declared Text.memberLeads)

def Recipe.tables (r : Recipe) : List Text :=
  (r.fragments .shard).flatMap (Text.declared Text.tableLeads)

namespace Layout

variable {l : Layout} {n : Name} {w : Wire} {t : Template}

theorem eq_fill_of_fragment {b : Bindings} {c : Text} (h : fragment t b = .ok c) : c = t.fill b := by
  rw [fragment, mapError_eq_ok_iff, Template.render] at h
  split at h
  · cases h
  · exact (Except.ok.inj h).symm

theorem eq_of_schemaWire {constant : Text} (h : l.schemaWire n t constant = .ok w) :
    w = {
      file := l.path .schemas
      insertion := {
        kind := .schemas
        markers := ["const " ++ constant ++ " "]
        imports := [⟨"zod", ["z"], false⟩]
        fragment := t.fill (l.bindings n) }
      resolved := none } := by
  obtain ⟨c, hc, h⟩ := bind_eq_ok_iff.1 h
  cases h
  rw [eq_fill_of_fragment hc]

theorem eq_of_shardWire {generator : Text} {types : List Text}
    (h : l.shardWire n t generator types = .ok w) :
    w = {
      file := l.path .shard
      insertion := {
        kind := .shard
        markers := ["// stackgen[" ++ generator ++ ":" ++ n.kebab ++ "]"]
        imports := [⟨Path.moduleSpecifier (l.path .shard) (l.path .schemas), types, true⟩]
        fragment := (t.marked generator).fill (l.bindings n) }
      resolved := none } := by
  obtain ⟨c, hc, h⟩ := bind_eq_ok_iff.1 h
  cases h
  rw [eq_fill_of_fragment hc, Template.marked, Template.fill_expand]
  congr 4
  simp [Piece.fill, bindings, Bindings.set, Bindings.ofName]

theorem of_schemaWire {constant : Text} (h : l.schemaWire n t constant = .ok w) :
    w.insertion.markers = ["const " ++ constant ++ " "] ∧
      w.insertion.fragment = t.fill (l.bindings n) := by
  rw [eq_of_schemaWire h]
  exact ⟨rfl, rfl⟩

theorem of_shardWire {generator : Text} {types : List Text}
    (h : l.shardWire n t generator types = .ok w) :
    w.insertion.markers = ["// stackgen[" ++ generator ++ ":" ++ n.kebab ++ "]"] ∧
      w.insertion.fragment = (t.marked generator).fill (l.bindings n) := by
  rw [eq_of_shardWire h]
  exact ⟨rfl, rfl⟩

end Layout

inductive Product.Wired (p : Product) (l : Layout) (n : Name) (w : Wire) : Prop
  | schema {t : Template} {suffix : Text} (hp : p.schema? = some (t, suffix))
      (h : l.schemaWire n t (n.pascal ++ suffix) = .ok w)
  | shard {t : Template} {generator : Text} {types : List Text}
      (hp : p.shard? = some (t, generator)) (h : l.shardWire n t generator types = .ok w)
  | other (h : w.insertion.kind = .bundle ∨ w.insertion.kind = .routes)

namespace Product

variable {p : Product} {l : Layout} {n : Name} {w : Wire} {r : Recipe}

theorem wired_of_dataWires {k : PageKind} {d : PageData} {ws : List Wire}
    (hd : k.data? n.pascal = some d) (h : l.dataWires n k d = .ok ws) (hw : w ∈ ws) :
    (page k).Wired l n w := by
  obtain ⟨schema, shard, routes, hschema, hshard, hroutes, rfl⟩ := Layout.of_dataWires h
  simp only [List.mem_cons, List.not_mem_nil, or_false] at hw
  rcases hw with rfl | rfl | rfl
  · cases k with
    | static => cases hd
    | dashboard => cases hd; exact .schema rfl hschema
    | feed => cases hd; exact .schema rfl hschema
  · cases k with
    | static => cases hd
    | dashboard => cases hd; exact .shard rfl hshard
    | feed => cases hd; exact .shard rfl hshard
  · exact .other (.inr (Layout.kind_of_routesWire hroutes))

theorem wired_by_template (h : p.recipe l n = .ok r) (hw : w ∈ r.wires) : p.Wired l n w := by
  cases p with
  | page k =>
      obtain ⟨entry, ws, hentry, hwires, hdata⟩ := Recipe.wires_of_page h
      rw [hwires] at hw
      rcases List.mem_cons.1 hw with rfl | hw
      · exact .other (.inl (Layout.kind_of_entryWire hentry))
      · rcases hdata with ⟨-, rfl⟩ | ⟨d, hd, hws⟩
        · cases hw
        · exact wired_of_dataWires hd hws hw
  | table =>
      obtain ⟨schema, hschema, h⟩ := bind_eq_ok_iff.1 h
      obtain ⟨shard, hshard, h⟩ := bind_eq_ok_iff.1 h
      cases h
      simp only [List.mem_cons, List.not_mem_nil, or_false] at hw
      rcases hw with rfl | rfl
      · rw [List.append_assoc] at hschema
        exact .schema rfl hschema
      · exact .shard rfl hshard
  | webhook =>
      obtain ⟨handler, -, h⟩ := bind_eq_ok_iff.1 h
      obtain ⟨schema, hschema, h⟩ := bind_eq_ok_iff.1 h
      obtain ⟨routes, hroutes, h⟩ := bind_eq_ok_iff.1 h
      cases h
      simp only [List.mem_cons, List.not_mem_nil, or_false] at hw
      rcases hw with rfl | rfl
      · exact .schema rfl hschema
      · exact .other (.inr (Layout.kind_of_routesWire hroutes))

theorem exists_template (h : p.recipe l n = .ok r) (hw : w ∈ r.wires)
    (hkind : w.insertion.kind = .schemas ∨ w.insertion.kind = .shard) :
    ∃ t, (w.insertion.kind = .schemas ∧ t ∈ p.schemaTemplates ∨
        w.insertion.kind = .shard ∧ t ∈ p.shardTemplates) ∧
      w.insertion.fragment = t.fill (l.bindings n) := by
  cases wired_by_template h hw with
  | @schema t suffix hp h =>
      refine ⟨t, .inl ⟨Layout.kind_of_schemaWire h, ?_⟩, (Layout.of_schemaWire h).2⟩
      simp [schemaTemplates, hp]
  | @shard t generator types hp h =>
      refine ⟨t.marked generator, .inr ⟨Layout.kind_of_shardWire h, ?_⟩, (Layout.of_shardWire h).2⟩
      simp [shardTemplates, hp]
  | other h => rcases h with h | h <;> rw [h] at hkind <;> simp at hkind

end Product

namespace Layout

variable (l : Layout) (n : Name)

def value (s : Slot) : Text := (l.bindings n s).getD []

theorem value_part {s : Slot} (hs : s ∈ Slot.cased) {c : Char} (hc : c ∈ l.value n s) :
    c.isAlphanum = true ∨ c = '_' ∨ c = '-' := by
  simp only [Slot.cased, List.mem_cons, List.not_mem_nil, or_false] at hs
  rcases hs with rfl | rfl | rfl | rfl
  · rcases Name.lowerOrDigit_or_hyphen hc with h | h
    · exact .inl (Name.isAlphanum_of_isLowerOrDigit h)
    · exact .inr (.inr h)
  · exact .inl (Name.isAlphanum_pascal hc)
  · exact (Name.snake_part hc).imp_right .inl
  · exact (Name.screaming_part hc).imp_right .inl

theorem not_mem_value {s : Slot} (hs : s ∈ Slot.cased) {c : Char}
    (hc : c.isAlphanum = false ∧ c ≠ '_' ∧ c ≠ '-') : c ∉ l.value n s := by
  intro hmem
  rcases l.value_part n hs hmem with h | h | h
  · rw [hc.1] at h
    cases h
  · exact hc.2.1 h
  · exact hc.2.2 h

theorem isNamed_value : Symbol.IsNamed (l.value n) := by
  constructor
  · intro s hs
    cases s with
    | pascal => exact n.pascal_ne_nil
    | snake => exact Name.snake_ne_nil
    | screaming => exact Name.screaming_ne_nil
    | _ => cases hs
  · intro s hs c hc
    have hpart : c.isAlphanum = true ∨ c = '_' := by
      cases s with
      | pascal => exact .inl (Name.isAlphanum_pascal hc)
      | snake => exact Name.snake_part hc
      | screaming => exact Name.screaming_part hc
      | _ => cases hs
    rcases hpart with h | rfl
    · simp [Text.isNamePart, h]
    · decide

variable {l n} {l' : Layout} {m : Name}

theorem pascal_eq_of_value_eq {s : Slot} (hs : s ∈ [Slot.pascal, .snake, .screaming])
    (h : l.value n s = l'.value m s) : n.pascal = m.pascal := by
  simp only [List.mem_cons, List.not_mem_nil, or_false] at hs
  rcases hs with rfl | rfl | rfl
  · exact h
  · exact Name.pascal_eq_of_kebab_eq (Name.kebab_eq_of_snake_eq h)
  · exact Name.pascal_eq_of_kebab_eq (Name.kebab_eq_of_screaming_eq h)

theorem fill_eq_fillAll (t : Template) :
    t.fill (l.bindings n) = Symbol.fillAll (l.value n) t.symbols :=
  t.fill_eq_fillAll _

theorem mem_cased_of_mem_slots {f : List Symbol} {s : Slot} (h : Symbol.slots f ⊆ Slot.cased)
    (hs : Symbol.slot s ∈ f) : s ∈ Slot.cased :=
  h (List.mem_filterMap.2 ⟨_, hs, rfl⟩)

theorem disjoint_names {names : Product → List Line} (hnames : Product.NamesApart names)
    {p q : Product} (hne : p ≠ q ∨ n.pascal ≠ m.pascal) :
    ((names p).map fun f => Symbol.fillAll (l.value n) f.symbols).Disjoint
      ((names q).map fun f => Symbol.fillAll (l'.value m) f.symbols) := by
  intro name hn hm
  obtain ⟨f, hf, rfl⟩ := List.mem_map.1 hn
  obtain ⟨g, hg, hfill⟩ := List.mem_map.1 hm
  rcases hnames p p.mem_all q q.mem_all f hf g hg with hapart | ⟨hpq, rfl, s, hs, hslots⟩
  · exact Symbol.ne_of_apart hapart hfill.symm
  · have hvalue := Symbol.eq_of_fillAll_eq hslots hfill.symm
    exact hne.elim (fun h => h hpq) fun h => h (pascal_eq_of_value_eq hs hvalue)

theorem disjoint_tableNames {p q : Product} (hne : p ≠ q ∨ n.kebab ≠ m.kebab) :
    (p.tableNames.map fun f => Symbol.fillAll (l.value n) f.symbols).Disjoint
      (q.tableNames.map fun f => Symbol.fillAll (l'.value m) f.symbols) := by
  intro name hn hm
  obtain ⟨f, hf, rfl⟩ := List.mem_map.1 hn
  obtain ⟨g, hg, hfill⟩ := List.mem_map.1 hm
  rcases Product.namesApart_tables p p.mem_all q q.mem_all f hf g hg with hapart | ⟨hpq, rfl, -⟩
  · exact Symbol.ne_of_apart hapart hfill.symm
  · have hvalue : l.value n .snake = l'.value m .snake :=
      Symbol.eq_of_fillAll_eq (Product.slots_tableNames p p.mem_all f hf) hfill.symm
    exact hne.elim (fun h => h hpq) fun h => h (Name.kebab_eq_of_snake_eq hvalue)

end Layout

namespace Product

variable {p q : Product} {l l' : Layout} {n m : Name} {r : Recipe}

theorem space_not_mem_schema : ∀ p ∈ all, ∀ x ∈ p.schema?.toList, ' ' ∉ x.2 := by decide

theorem space_not_mem_shard : ∀ p ∈ all, ∀ x ∈ p.shard?.toList, ' ' ∉ x.2 := by decide

variable (l n) in
theorem fillAll_constant (suffix : Text) :
    Symbol.fillAll (l.value n) (Symbol.constant suffix) = n.pascal ++ suffix := by
  rw [Symbol.constant, Symbol.fillAll_slot, Symbol.fillAll_ofText]
  rfl

variable (l n) in
theorem fillAll_sign (generator : Text) : Symbol.fillAll (l.value n) (Symbol.sign generator) =
    "stackgen[" ++ generator ++ ":" ++ (n.kebab ++ [']']) := by
  rw [Symbol.sign, Symbol.fillAll_append, Symbol.fillAll_ofText]
  rfl

theorem exists_word_of_constant {f : List Symbol} {suffix : Text} (hsuffix : ' ' ∉ suffix)
    (hpieces : List.splitOn ' ' (Symbol.fillAll (l'.value m) f) =
      (List.splitOn (Symbol.char ' ') f).map (Symbol.fillAll (l'.value m)))
    (h : "const ".toList ++ (n.pascal ++ suffix) ++ " ".toList <:+: Symbol.fillAll (l'.value m) f) :
    ∃ w ∈ List.splitOn (Symbol.char ' ') f, Symbol.fillAll (l'.value m) w =
      Symbol.fillAll (l.value n) (Symbol.constant suffix) := by
  have hspace : ' ' ∉ n.pascal ++ suffix := by
    rw [List.mem_append, not_or]
    exact ⟨l.not_mem_value n (s := .pascal) (by decide) (by decide), hsuffix⟩
  have hword : ' ' :: (n.pascal ++ suffix ++ [' ']) <:+: Symbol.fillAll (l'.value m) f :=
    List.IsInfix.trans ⟨"const".toList, [], by simp⟩ h
  have hmem := Text.mem_splitOn_of_isInfix hspace hword
  rw [hpieces, ← fillAll_constant l n] at hmem
  exact List.mem_map.1 hmem

theorem exists_word_of_sign {f : List Symbol} {generator : Text} (hgenerator : ' ' ∉ generator)
    (hpieces : List.splitOn ' ' (Symbol.fillAll (l'.value m) f) =
      (List.splitOn (Symbol.char ' ') f).map (Symbol.fillAll (l'.value m)))
    (h : "// stackgen[".toList ++ generator ++ ":".toList ++ n.kebab ++ "]".toList <:+:
      Symbol.fillAll (l'.value m) f) :
    ∃ w ∈ List.splitOn (Symbol.char ' ') f,
      Symbol.fillAll (l.value n) (Symbol.sign generator) <+: Symbol.fillAll (l'.value m) w := by
  have hspace : ' ' ∉ "stackgen[" ++ generator ++ ":" ++ (n.kebab ++ [']']) := by
    simp only [List.mem_append, not_or]
    exact ⟨⟨⟨by decide, hgenerator⟩, by decide⟩,
      l.not_mem_value n (s := .kebab) (by decide) (by decide), by decide⟩
  have hword : ' ' :: ("stackgen[" ++ generator ++ ":" ++ (n.kebab ++ [']'])) <:+:
      Symbol.fillAll (l'.value m) f :=
    List.IsInfix.trans ⟨"//".toList, [], by simp⟩ h
  obtain ⟨piece, hpiece, hbegins⟩ := Text.exists_piece_of_isInfix hspace hword
  rw [hpieces] at hpiece
  obtain ⟨w, hw, rfl⟩ := List.mem_map.1 hpiece
  exact ⟨w, hw, (fillAll_sign l n generator).symm ▸ hbegins⟩

theorem kebab_eq_of_sign {generator : Text} {w : List Symbol} (hw : Symbol.sign generator <+: w)
    (h : Symbol.fillAll (l.value n) (Symbol.sign generator) <+: Symbol.fillAll (l'.value m) w) :
    n.kebab = m.kebab := by
  obtain ⟨rest, rfl⟩ := hw
  obtain ⟨more, hmore⟩ := h
  rw [Symbol.fillAll_append, fillAll_sign, fillAll_sign] at hmore
  simp only [List.append_assoc, List.append_cancel_left_eq] at hmore
  have hbracket : ∀ (l : Layout) (n : Name), ']' ∉ n.kebab :=
    fun l n => l.not_mem_value n (s := .kebab) (by decide) (by decide)
  have hpieces := congrArg (List.splitOn ']') hmore
  rw [List.singleton_append, List.singleton_append,
    List.splitOn_append_cons_self_of_not_mem (hbracket l n),
    List.splitOn_append_cons_self_of_not_mem (hbracket l' m)] at hpieces
  exact (List.cons.inj hpieces).1

variable (l n) in
theorem words_of_template {t : Template} (ht : t ∈ q.schemaTemplates ++ q.shardTemplates) :
    List.splitOn ' ' (Symbol.fillAll (l.value n) t.symbols) =
      (List.splitOn (Symbol.char ' ') t.symbols).map (Symbol.fillAll (l.value n)) ∧
      ∀ s, Symbol.slot s ∈ t.symbols → s ∈ Slot.cased := by
  have hcased : ∀ s, Symbol.slot s ∈ t.symbols → s ∈ Slot.cased :=
    fun s hs => Layout.mem_cased_of_mem_slots (of_template ht).1 hs
  exact ⟨Symbol.splitOn_fillAll fun s hs => l.not_mem_value n (hcased s hs) (by decide), hcased⟩

/-- The constant of a schema is in no line that another product puts into a shared file. -/
theorem not_isInfix_of_constant (hne : p ≠ q ∨ n.pascal ≠ m.pascal) {t t' : Template} {suffix : Text}
    (hp : p.schema? = some (t', suffix)) (ht : t ∈ q.schemaTemplates ++ q.shardTemplates) :
    ¬"const ".toList ++ (n.pascal ++ suffix) ++ " ".toList <:+: t.fill (l.bindings m) := by
  intro hinfix
  rw [Layout.fill_eq_fillAll] at hinfix
  have hmem : (t', suffix) ∈ p.schema?.toList := by simp [hp]
  obtain ⟨v, hv, hfill⟩ := exists_word_of_constant (l := l)
    (space_not_mem_schema p p.mem_all _ hmem) (words_of_template l m ht).1 hinfix
  rcases ((of_template ht).2 v hv p p.mem_all).1 _ hmem with hapart | ⟨hpq, rfl⟩
  · exact Symbol.ne_of_apart hapart hfill.symm
  · have hslot : Symbol.slots (Symbol.constant suffix) = [.pascal] := by
      simp [Symbol.slots, Symbol.constant, Symbol.ofText]
    exact hne.elim (fun h => h hpq) fun h => h (Symbol.eq_of_fillAll_eq hslot hfill.symm)

/-- The mark of shard methods has the whole name in it, so it is not even in what the same product
puts into a shared file for another name. -/
theorem not_isInfix_of_sign (hne : p ≠ q ∨ n.kebab ≠ m.kebab) {t t' : Template} {generator : Text}
    (hp : p.shard? = some (t', generator)) (ht : t ∈ q.schemaTemplates ++ q.shardTemplates) :
    ¬"// stackgen[".toList ++ generator ++ ":".toList ++ n.kebab ++ "]".toList <:+:
      t.fill (l.bindings m) := by
  intro hinfix
  rw [Layout.fill_eq_fillAll] at hinfix
  obtain ⟨hpieces, hcased⟩ := words_of_template l m ht
  have hmem : (t', generator) ∈ p.shard?.toList := by simp [hp]
  obtain ⟨v, hv, hbegins⟩ := exists_word_of_sign (l := l)
    (space_not_mem_shard p p.mem_all _ hmem) hpieces hinfix
  rcases ((of_template ht).2 v hv p p.mem_all).2 _ hmem with hbracket | hstray | ⟨hpq, hsign⟩
  · have hmark : '[' ∈ Symbol.fillAll (l.value n) (Symbol.sign generator) := by
      rw [fillAll_sign]
      exact List.mem_append_left _ (List.mem_append_left _ (List.mem_append_left _ (by decide)))
    rcases Symbol.mem_fillAll (hbegins.subset hmark) with hchar | ⟨s, hs, hvalue⟩
    · exact hbracket hchar
    · have hslot := (Text.isInfix_of_mem_splitOn hv).subset hs
      exact l.not_mem_value m (hcased s hslot) (by decide) hvalue
  · exact Symbol.not_isPrefix_of_strays hstray hbegins
  · exact hne.elim (fun h => h hpq) fun h => h (kebab_eq_of_sign hsign hbegins)

/-- No mark for the schema file or the shard is in what another product puts into either. -/
theorem not_isInfix_of_marker {w : Wire} (hne : p ≠ q ∨ n.pascal ≠ m.pascal)
    (hw : p.Wired l n w) (hkind : w.insertion.kind = .schemas ∨ w.insertion.kind = .shard)
    {t : Template} (ht : t ∈ q.schemaTemplates ++ q.shardTemplates) :
    ∀ k ∈ w.insertion.markers, ¬k <:+: t.fill (l'.bindings m) := by
  intro k hk
  cases hw with
  | schema hp h =>
      rw [(Layout.of_schemaWire h).1, List.mem_singleton] at hk
      exact hk ▸ not_isInfix_of_constant hne hp ht
  | shard hp h =>
      rw [(Layout.of_shardWire h).1, List.mem_singleton] at hk
      exact hk ▸ not_isInfix_of_sign (hne.imp_right (mt Name.pascal_eq_of_kebab_eq)) hp ht
  | other h => rcases h with h | h <;> rw [h] at hkind <;> simp at hkind

theorem declared_fill {t : Template} {leads : List Text} (hslots : Symbol.slots t.symbols ⊆ Slot.cased)
    (hlegible : t.IsLegible leads) : Text.declared leads (t.fill (l.bindings n)) =
      (t.declared leads).map (Symbol.fillAll (l.value n)) := by
  have hlines : ∀ s, Symbol.slot s ∈ t.symbols → '\n' ∉ l.value n s := fun s hs =>
    l.not_mem_value n (Layout.mem_cased_of_mem_slots hslots hs) (by decide)
  rw [Layout.fill_eq_fillAll, Symbol.declared_fillAll (l.isNamed_value n) hlines hlegible,
    Template.declared]

theorem declared_subset {k : FileKind} {leads : List Text} {templates : List Template}
    {names : List Line} (hfilled : ∀ c ∈ r.fragments k, ∃ t ∈ templates, c = t.fill (l.bindings n))
    (hslots : ∀ t ∈ templates, Symbol.slots t.symbols ⊆ Slot.cased)
    (hlegible : ∀ t ∈ templates, t.IsLegible leads)
    (hnames : templates.flatMap (·.declared leads) = names.map Line.symbols) :
    (r.fragments k).flatMap (Text.declared leads) ⊆
      names.map fun f => Symbol.fillAll (l.value n) f.symbols := by
  intro name hname
  obtain ⟨c, hc, hdeclared⟩ := List.mem_flatMap.1 hname
  obtain ⟨t, ht, rfl⟩ := hfilled c hc
  rw [declared_fill (hslots t ht) (hlegible t ht)] at hdeclared
  obtain ⟨f, hf, rfl⟩ := List.mem_map.1 hdeclared
  have hmem : f ∈ templates.flatMap (·.declared leads) := List.mem_flatMap.2 ⟨t, ht, hf⟩
  rw [hnames] at hmem
  obtain ⟨line, hline, rfl⟩ := List.mem_map.1 hmem
  exact List.mem_map.2 ⟨line, hline, rfl⟩

theorem filled_schemas (h : p.recipe l n = .ok r) :
    ∀ c ∈ r.fragments .schemas, ∃ t ∈ p.schemaTemplates, c = t.fill (l.bindings n) := by
  intro c hc
  obtain ⟨w, hw, rfl⟩ := List.mem_map.1 hc
  obtain ⟨hw, hkind⟩ := List.mem_filter.1 hw
  have hkind : w.insertion.kind = .schemas := of_decide_eq_true hkind
  obtain ⟨t, ⟨-, ht⟩ | ⟨hshard, -⟩, hfill⟩ := exists_template h hw (.inl hkind)
  · exact ⟨t, ht, hfill⟩
  · rw [hkind] at hshard
    cases hshard

theorem filled_shard (h : p.recipe l n = .ok r) :
    ∀ c ∈ r.fragments .shard, ∃ t ∈ p.shardTemplates, c = t.fill (l.bindings n) := by
  intro c hc
  obtain ⟨w, hw, rfl⟩ := List.mem_map.1 hc
  obtain ⟨hw, hkind⟩ := List.mem_filter.1 hw
  have hkind : w.insertion.kind = .shard := of_decide_eq_true hkind
  obtain ⟨t, ⟨hschemas, -⟩ | ⟨-, ht⟩, hfill⟩ := exists_template h hw (.inr hkind)
  · rw [hkind] at hschemas
    cases hschemas
  · exact ⟨t, ht, hfill⟩

theorem exports_subset (h : p.recipe l n = .ok r) :
    r.exports ⊆ p.exportNames.map fun f => Symbol.fillAll (l.value n) f.symbols := by
  obtain ⟨hall, hlegible, -, hnames, -⟩ := of_symbols p p.mem_all
  exact declared_subset (filled_schemas h) (fun t ht => (hall t (List.mem_append_left _ ht)).1)
    hlegible hnames

theorem members_subset (h : p.recipe l n = .ok r) :
    r.members ⊆ p.memberNames.map fun f => Symbol.fillAll (l.value n) f.symbols := by
  obtain ⟨hall, -, hlegible, -, hnames, -⟩ := of_symbols p p.mem_all
  exact declared_subset (filled_shard h) (fun t ht => (hall t (List.mem_append_right _ ht)).1)
    (fun t ht => (hlegible t ht).1) hnames

theorem tables_subset (h : p.recipe l n = .ok r) :
    r.tables ⊆ p.tableNames.map fun f => Symbol.fillAll (l.value n) f.symbols := by
  obtain ⟨hall, -, hlegible, -, -, hnames⟩ := of_symbols p p.mem_all
  exact declared_subset (filled_shard h) (fun t ht => (hall t (List.mem_append_right _ ht)).1)
    (fun t ht => (hlegible t ht).2) hnames

end Product

def Recipe.shared (r : Recipe) : List Insertion :=
  (r.wires.map (·.insertion)).filter fun i => i.kind = .schemas ∨ i.kind = .shard

/-- Products keep apart. For two products, or for one and names that differ also in the form that is
one word, no mark of the first is in what the second puts into the schema file or the shard, and the
two declare no exported name, no class member and no table that is the same. -/
theorem products_keep_apart (p q : Product) (l l' : Layout) (n m : Name)
    (hne : p ≠ q ∨ n.pascal ≠ m.pascal) :
    ∃ r s, p.recipe l n = .ok r ∧ q.recipe l' m = .ok s ∧
      (∀ i ∈ r.shared, ∀ j ∈ s.shared, ∀ mark ∈ i.markers, ¬mark <:+: j.fragment) ∧
      r.exports.Disjoint s.exports ∧ r.members.Disjoint s.members ∧ r.tables.Disjoint s.tables := by
  obtain ⟨r, hr, -⟩ := p.exists_recipe l n
  obtain ⟨s, hs, -⟩ := q.exists_recipe l' m
  have hdisjoint : ∀ {names : Product → List Line} {a b : List Text}, Product.NamesApart names →
      a ⊆ ((names p).map fun f => Symbol.fillAll (l.value n) f.symbols) →
      b ⊆ ((names q).map fun f => Symbol.fillAll (l'.value m) f.symbols) → a.Disjoint b :=
    fun hnames ha hb =>
      List.disjoint_of_subset_left ha
        (List.disjoint_of_subset_right hb (Layout.disjoint_names hnames hne))
  refine ⟨r, s, hr, hs, ?_, hdisjoint Product.namesApart_exports (Product.exports_subset hr)
    (Product.exports_subset hs), hdisjoint Product.namesApart_members (Product.members_subset hr)
    (Product.members_subset hs), hdisjoint Product.namesApart_tables (Product.tables_subset hr)
    (Product.tables_subset hs)⟩
  intro i hi j hj mark hmark
  obtain ⟨hi, hkind⟩ := List.mem_filter.1 hi
  obtain ⟨w, hw, rfl⟩ := List.mem_map.1 hi
  obtain ⟨hj, hkind'⟩ := List.mem_filter.1 hj
  obtain ⟨w', hw', rfl⟩ := List.mem_map.1 hj
  obtain ⟨t, ht, hfill⟩ := Product.exists_template hs hw' (of_decide_eq_true hkind')
  rw [hfill]
  refine Product.not_isInfix_of_marker hne (Product.wired_by_template hr hw)
    (of_decide_eq_true hkind) (List.mem_append.2 ?_) mark hmark
  exact ht.imp And.right And.right

theorem products_keep_apart_order : ∃ r s,
    Product.table.recipe (.default ⟨[]⟩) ⟨"order", Name.check_order⟩ = .ok r ∧
      (Product.page .feed).recipe (.default ⟨[]⟩) ⟨"order", Name.check_order⟩ = .ok s ∧
      r.members.Disjoint s.members := by
  obtain ⟨r, s, hr, hs, -, -, hmembers, -⟩ :=
    products_keep_apart .table (.page .feed) (.default ⟨[]⟩) (.default ⟨[]⟩)
      ⟨"order", Name.check_order⟩ ⟨"order", Name.check_order⟩ (.inl (by decide))
  exact ⟨r, s, hr, hs, hmembers⟩

end Scaffold
