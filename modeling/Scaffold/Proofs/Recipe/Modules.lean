import Scaffold.Proofs.Path.Specifiers
import Scaffold.Proofs.Recipe.Apart
import Scaffold.Proofs.Recipe.Drafts

namespace Scaffold

open Text
open Scaffold.Symbol (fillAll slots IsNamed)

namespace Layout

variable (l : Layout) (n : Name) (file : Path)

def valueAt (s : Slot) : Text := (l.bindingsFor n file s).getD []

theorem value_pascal : l.value n .pascal = n.pascal := rfl

theorem valueAt_cased {s : Slot} (hs : s ∈ Slot.cased) : l.valueAt n file s = l.value n s := by
  simp only [Slot.cased, List.mem_cons, List.not_mem_nil, or_false] at hs
  rcases hs with rfl | rfl | rfl | rfl <;> rfl

theorem valueAt_schemasModule :
    l.valueAt n file .schemasModule = Path.moduleSpecifier file (l.path .schemas) := by
  rw [valueAt, bindingsFor, Bindings.set, if_neg (by decide), Bindings.set_self, Option.getD_some]

theorem valueAt_shardModule :
    l.valueAt n file .shardModule = Path.moduleSpecifier file (l.path .shard) := by
  rw [valueAt, bindingsFor, Bindings.set_self, Option.getD_some]

theorem valueAt_shardClass : l.valueAt n file .shardClass = l.settings.shard .className := rfl

theorem isNamed_valueAt : IsNamed (l.valueAt n file) := by
  have hcased : ∀ s : Slot, s.isNaming = true → s ∈ Slot.cased := by
    intro s hs
    cases s <;> first | decide | cases hs
  constructor
  · intro s hs
    rw [l.valueAt_cased n file (hcased s hs)]
    exact (l.isNamed_value n).nonempty s hs
  · intro s hs
    rw [l.valueAt_cased n file (hcased s hs)]
    exact (l.isNamed_value n).parts s hs

theorem fillAll_valueAt {f : List Symbol} (hf : slots f ⊆ Slot.cased) :
    fillAll (l.valueAt n file) f = fillAll (l.value n) f :=
  Symbol.fillAll_congr_of fun _ hs =>
    l.valueAt_cased n file (hf (List.mem_filterMap.2 ⟨_, hs, rfl⟩))

end Layout

structure Module where
  path : Path
  template : Template

namespace Module

variable (m : Module) (l : Layout) (n : Name)

def lines : List Text := m.template.filledLines (l.valueAt n m.path)

def emission : Emission := ⟨m.path, unlines (m.lines l n)⟩

theorem path_emission : (m.emission l n).path = m.path := rfl

def calls : List Text := m.template.calls.map (fillAll (l.valueAt n m.path))

def fetches : List Text := m.template.fetches.map (fillAll (l.valueAt n m.path))

end Module

def Draft.path (d : Draft) (l : Layout) (n : Name) : Path :=
  (l.pageDir n).join ⟨fillAll (l.value n) d.stem.symbols ++ '.' :: d.extension⟩

def Service.file (s : Service) (l : Layout) (n : Name) : Path :=
  (l.path s.dir).join ⟨n.kebab ++ ".ts"⟩

def Product.modules (p : Product) (l : Layout) (n : Name) : List Module :=
  p.drafts.map (fun d => ⟨d.path l n, d.template⟩) ++
    p.service?.toList.map fun s => ⟨s.file l n, s.template⟩

theorem Service.fillAll_path (s : Service) (v : Slot → Text) :
    fillAll v s.path = s.route ++ v .kebab := by
  rw [path, Symbol.fillAll_append, Symbol.fillAll_ofText, Symbol.fillAll_slot, Symbol.fillAll_nil,
    List.append_nil]

namespace Layout

variable {l : Layout} {n : Name} {t : Template} {file : Path} {e : Emission}

theorem eq_of_emission (h : l.emission n file t = .ok e) : e = Module.emission ⟨file, t⟩ l n := by
  rw [emission, Template.render] at h
  split at h
  · next herror =>
      split at herror
      · cases h
      · cases herror
  · next contents hok =>
      split at hok
      · cases hok
      · cases h
        cases hok
        exact congrArg (Emission.mk file) (t.fill_eq_filledLines (l.bindingsFor n file))

theorem eq_of_routesWire {w : Wire} {route : Text} {module : Path} {handlers : List Text}
    (h : l.routesWire n t route module handlers = .ok w) :
    w = {
      file := l.path .routes
      insertion := {
        kind := .routes
        markers := ["'" ++ route ++ "'"]
        imports := [⟨Path.moduleSpecifier (l.path .routes) module, handlers, false⟩]
        fragment := t.fill (l.bindings n) }
      resolved := none } := by
  obtain ⟨c, hc, h⟩ := bind_eq_ok_iff.1 h
  cases h
  rw [eq_fill_of_fragment hc]

end Layout

inductive Wire.Joins (w : Wire) (p : Product) (l : Layout) (n : Name) : Prop
  | entry (hkind : w.insertion.kind = .bundle) (himports : w.insertion.imports = [])
  | schema (hkind : w.insertion.kind = .schemas) (hfile : w.file = l.path .schemas)
      (himports : w.insertion.imports = [⟨"zod", ["z".toList], false⟩])
  | shard {types : List Text} (hkind : w.insertion.kind = .shard) (hfile : w.file = l.path .shard)
      (himports : w.insertion.imports =
        [⟨Path.moduleSpecifier (l.path .shard) (l.path .schemas), types, true⟩])
      (htypes : types ⊆ p.exportNames.map fun f => fillAll (l.value n) f.symbols)
  | routes {s : Service} (hs : p.service? = some s) (hkind : w.insertion.kind = .routes)
      (hfile : w.file = l.path .routes)
      (himports : w.insertion.imports = [⟨Path.moduleSpecifier (l.path .routes) (s.file l n),
        s.handlers.map fun f => fillAll (l.value n) f.symbols, false⟩])
      (hfragment : w.insertion.fragment = s.routes.fill (l.bindings n))

theorem Wire.Joins.exists_service {w : Wire} {p : Product} {l : Layout} {n : Name}
    (h : w.Joins p l n) (hkind : w.insertion.kind = .routes) :
    ∃ s, p.service? = some s ∧ w.file = l.path .routes ∧
      w.insertion.imports = [⟨Path.moduleSpecifier (l.path .routes) (s.file l n),
        s.handlers.map fun f => fillAll (l.value n) f.symbols, false⟩] ∧
      w.insertion.fragment = s.routes.fill (l.bindings n) := by
  cases h with
  | entry hother | schema hother | shard hother =>
      rw [hother] at hkind
      cases hkind
  | routes hs _ hfile himports hfragment => exact ⟨_, hs, hfile, himports, hfragment⟩

namespace Product

variable {p : Product} {l : Layout} {n : Name} {r : Recipe}

theorem fillAll_around (v : Slot → Text) (a b : Text) (s : Slot) :
    fillAll v (Line.symbols [.text a, .slot s, .text b]) = a ++ v s ++ b := by
  simp [Line.symbols, Piece.symbols, Symbol.fillAll_append]

theorem fillAll_ending (v : Slot → Text) (s : Slot) (b : Text) :
    fillAll v (Line.symbols [.slot s, .text b]) = v s ++ b := by
  simp [Line.symbols, Piece.symbols]

theorem exists_of_data {k : PageKind} {d : PageData} (h : k.data? n.pascal = some d) :
    ∃ hook s, (page k).hook? = some hook ∧ (page k).service? = some s ∧
      hook.path l n = (l.pageDir n).join ⟨d.hookFile⟩ ∧ hook.template = d.hook ∧
      s.file l n = l.apiModule n ∧ s.template = d.api ∧ s.routes = d.routes ∧
      s.route = "/api/".toList ∧
      d.handlers = s.handlers.map fun f => fillAll (l.value n) f.symbols := by
  have hpath : ∀ (suffix : Text) (t : Template),
      Draft.path ⟨[.text "use", .slot .pascal, .text suffix], "ts", t⟩ l n =
        (l.pageDir n).join ⟨"use" ++ n.pascal ++ (suffix ++ ".ts")⟩ := by
    intro suffix t
    rw [Draft.path, fillAll_around, List.append_assoc]
    rfl
  cases k with
  | static => cases h
  | dashboard =>
      cases h
      refine ⟨_, _, rfl, rfl, hpath "Stats" _, rfl, rfl, rfl, rfl, rfl, ?_⟩
      rw [List.map_singleton, fillAll_around]
      rfl
  | feed =>
      cases h
      refine ⟨_, _, rfl, rfl, hpath "Items" _, rfl, rfl, rfl, rfl, rfl, ?_⟩
      rw [List.map_cons, List.map_singleton, fillAll_around, fillAll_around]
      rfl

theorem none_of_data {k : PageKind} (h : k.data? n.pascal = none) :
    (page k).hook? = none ∧ (page k).service? = none := by
  cases k with
  | static => exact ⟨rfl, rfl⟩
  | dashboard | feed => cases h

theorem modules_page (k : PageKind) : (page k).modules l n =
    [⟨(l.pageDir n).join ⟨"index.html"⟩, Template.Page.html⟩,
      ⟨(l.pageDir n).join ⟨"index.tsx"⟩, Template.Page.entry⟩,
      ⟨(l.pageDir n).join ⟨"App.tsx"⟩, k.appTemplate⟩] ++
      ((page k).hook?.toList.map fun d => ⟨d.path l n, d.template⟩) ++
      (page k).service?.toList.map fun s => ⟨s.file l n, s.template⟩ := by
  rw [modules, drafts, List.map_append]
  rfl

theorem files_eq (h : p.recipe l n = .ok r) : r.files = (p.modules l n).map (·.emission l n) := by
  cases p with
  | page k =>
      obtain ⟨html, hhtml, h⟩ := bind_eq_ok_iff.1 h
      obtain ⟨script, hscript, h⟩ := bind_eq_ok_iff.1 h
      obtain ⟨app, happ, h⟩ := bind_eq_ok_iff.1 h
      obtain ⟨entry, -, h⟩ := bind_eq_ok_iff.1 h
      rw [modules_page]
      cases hd : k.data? n.pascal with
      | none =>
          simp only [hd] at h
          cases h
          obtain ⟨hhook, hservice⟩ := none_of_data hd
          rw [hhook, hservice, Layout.eq_of_emission hhtml, Layout.eq_of_emission hscript,
            Layout.eq_of_emission happ]
          rfl
      | some d =>
          simp only [hd] at h
          obtain ⟨more, hmore, h⟩ := bind_eq_ok_iff.1 h
          obtain ⟨wires, -, h⟩ := bind_eq_ok_iff.1 h
          obtain ⟨hook, hhook, hmore⟩ := bind_eq_ok_iff.1 hmore
          obtain ⟨api, hapi, hmore⟩ := bind_eq_ok_iff.1 hmore
          cases hmore
          cases h
          obtain ⟨draft, s, hdraft, hs, hpath, htemplate, hfile, hapi', -⟩ :=
            exists_of_data (l := l) hd
          rw [hdraft, hs, Layout.eq_of_emission hhtml, Layout.eq_of_emission hscript,
            Layout.eq_of_emission happ, Layout.eq_of_emission hhook, Layout.eq_of_emission hapi,
            ← hpath, ← htemplate, ← hfile, ← hapi']
          rfl
  | table =>
      obtain ⟨schema, -, h⟩ := bind_eq_ok_iff.1 h
      obtain ⟨shard, -, h⟩ := bind_eq_ok_iff.1 h
      cases h
      rfl
  | webhook =>
      obtain ⟨handler, hhandler, h⟩ := bind_eq_ok_iff.1 h
      obtain ⟨schema, -, h⟩ := bind_eq_ok_iff.1 h
      obtain ⟨routes, -, h⟩ := bind_eq_ok_iff.1 h
      cases h
      exact congrArg (fun e => [e]) (Layout.eq_of_emission hhandler)

theorem types_of_data {k : PageKind} {d : PageData} (h : k.data? n.pascal = some d) :
    d.types ⊆ (page k).exportNames.map fun f => fillAll (l.value n) f.symbols := by
  cases k with
  | static => cases h
  | dashboard =>
      cases h
      simp [exportNames, fillAll_ending, Layout.value_pascal]
  | feed =>
      cases h
      simp [exportNames, fillAll_ending, Layout.value_pascal]

variable {w : Wire}

theorem joins_of_dataWires {k : PageKind} {d : PageData} {ws : List Wire}
    (hd : k.data? n.pascal = some d) (h : l.dataWires n k d = .ok ws) (hw : w ∈ ws) :
    w.Joins (page k) l n := by
  obtain ⟨schema, shard, routes, hschema, hshard, hroutes, rfl⟩ := Layout.of_dataWires h
  obtain ⟨-, s, -, hs, -, -, hfile, -, htemplate, -, hhandlers⟩ := exists_of_data (l := l) hd
  simp only [List.mem_cons, List.not_mem_nil, or_false] at hw
  rcases hw with rfl | rfl | rfl
  · rw [Layout.eq_of_schemaWire hschema]
    exact .schema rfl rfl rfl
  · rw [Layout.eq_of_shardWire hshard]
    exact .shard rfl rfl rfl (types_of_data hd)
  · rw [hhandlers, ← hfile, ← htemplate] at hroutes
    rw [Layout.eq_of_routesWire hroutes]
    exact .routes hs rfl rfl rfl rfl

theorem joins_of_recipe (h : p.recipe l n = .ok r) (hw : w ∈ r.wires) : w.Joins p l n := by
  cases p with
  | page k =>
      obtain ⟨entry, ws, hentry, hwires, hdata⟩ := Recipe.wires_of_page h
      rw [hwires] at hw
      rcases List.mem_cons.1 hw with rfl | hw
      · obtain ⟨plain, -, hentry⟩ := bind_eq_ok_iff.1 hentry
        obtain ⟨resolved, -, hentry⟩ := bind_eq_ok_iff.1 hentry
        cases hentry
        exact .entry rfl rfl
      · rcases hdata with ⟨-, rfl⟩ | ⟨d, hd, hws⟩
        · cases hw
        · exact joins_of_dataWires hd hws hw
  | table =>
      obtain ⟨schema, hschema, h⟩ := bind_eq_ok_iff.1 h
      obtain ⟨shard, hshard, h⟩ := bind_eq_ok_iff.1 h
      cases h
      simp only [List.mem_cons, List.not_mem_nil, or_false] at hw
      rcases hw with rfl | rfl
      · rw [Layout.eq_of_schemaWire hschema]
        exact .schema rfl rfl rfl
      · rw [Layout.eq_of_shardWire hshard]
        exact .shard rfl rfl rfl (by simp [exportNames, fillAll_ending, Layout.value_pascal])
  | webhook =>
      obtain ⟨handler, -, h⟩ := bind_eq_ok_iff.1 h
      obtain ⟨schema, hschema, h⟩ := bind_eq_ok_iff.1 h
      obtain ⟨routes, hroutes, h⟩ := bind_eq_ok_iff.1 h
      cases h
      simp only [List.mem_cons, List.not_mem_nil, or_false] at hw
      rcases hw with rfl | rfl
      · rw [Layout.eq_of_schemaWire hschema]
        exact .schema rfl rfl rfl
      · rw [Layout.eq_of_routesWire hroutes]
        refine .routes rfl rfl rfl ?_ rfl
        rw [List.map_singleton, fillAll_around]
        rfl

theorem exists_wire_of_service {s : Service} (h : p.recipe l n = .ok r) (hs : p.service? = some s) :
    ∃ w ∈ r.wires, w.insertion.kind = .routes := by
  cases p with
  | page k =>
      cases hd : k.data? n.pascal with
      | none =>
          rw [(none_of_data hd).2] at hs
          cases hs
      | some d =>
          obtain ⟨-, w, hw, hroutes⟩ := Recipe.exists_wires_of_page hd h
          exact ⟨w, hw, Layout.kind_of_routesWire hroutes⟩
  | table => cases hs
  | webhook =>
      obtain ⟨w, hw, hroutes⟩ := Recipe.exists_wire_of_webhook h
      exact ⟨w, hw, Layout.kind_of_routesWire hroutes⟩

theorem exists_wires {t : Template} {suffix : Text} (h : p.recipe l n = .ok r) :
    (p.schema? = some (t, suffix) →
      ∃ w ∈ r.wires, l.schemaWire n t (n.pascal ++ suffix) = .ok w) ∧
    (p.shard? = some (t, suffix) →
      ∃ w ∈ r.wires, ∃ types, l.shardWire n t suffix types = .ok w) := by
  cases p with
  | page k =>
      obtain ⟨entry, ws, -, hwires, hdata⟩ := Recipe.wires_of_page h
      rw [hwires]
      rcases hdata with ⟨hd, -⟩ | ⟨d, hd, hws⟩
      · cases k with
        | static => exact ⟨(nomatch ·), (nomatch ·)⟩
        | dashboard | feed => cases hd
      · obtain ⟨schema, shard, routes, hschema, hshard, -, rfl⟩ := Layout.of_dataWires hws
        cases k with
        | static => cases hd
        | dashboard | feed =>
            cases hd
            constructor
            · rintro ⟨⟩
              exact ⟨schema, by simp, hschema⟩
            · rintro ⟨⟩
              exact ⟨shard, by simp, _, hshard⟩
  | table =>
      obtain ⟨schema, hschema, h⟩ := bind_eq_ok_iff.1 h
      obtain ⟨shard, hshard, h⟩ := bind_eq_ok_iff.1 h
      cases h
      rw [List.append_assoc] at hschema
      constructor
      · rintro ⟨⟩
        exact ⟨schema, by simp, hschema⟩
      · rintro ⟨⟩
        exact ⟨shard, by simp, _, hshard⟩
  | webhook =>
      obtain ⟨handler, -, h⟩ := bind_eq_ok_iff.1 h
      obtain ⟨schema, hschema, h⟩ := bind_eq_ok_iff.1 h
      obtain ⟨routes, -, h⟩ := bind_eq_ok_iff.1 h
      cases h
      constructor
      · rintro ⟨⟩
        exact ⟨schema, by simp, hschema⟩
      · exact (nomatch ·)

theorem mem_fragments {w : Wire} (hw : w ∈ r.wires) :
    w.insertion.fragment ∈ r.fragments w.insertion.kind :=
  List.mem_map_of_mem (List.mem_filter.2 ⟨hw, decide_eq_true rfl⟩)

theorem subset_declared {k : FileKind} {leads : List Text} {templates : List Template}
    {names : List Line} (hfilled : ∀ t ∈ templates, t.fill (l.bindings n) ∈ r.fragments k)
    (hslots : ∀ t ∈ templates, slots t.symbols ⊆ Slot.cased)
    (hlegible : ∀ t ∈ templates, t.IsLegible leads)
    (hnames : templates.flatMap (·.declared leads) = names.map Line.symbols) :
    (names.map fun f => fillAll (l.value n) f.symbols) ⊆
      (r.fragments k).flatMap (declared leads) := by
  intro x hx
  obtain ⟨f, hf, rfl⟩ := List.mem_map.1 hx
  have hmem := List.mem_map_of_mem (f := Line.symbols) hf
  rw [← hnames] at hmem
  obtain ⟨t, ht, hdeclared⟩ := List.mem_flatMap.1 hmem
  refine List.mem_flatMap.2 ⟨_, hfilled t ht, ?_⟩
  rw [declared_fill (hslots t ht) (hlegible t ht)]
  exact List.mem_map_of_mem hdeclared

theorem fill_mem_schemas (h : p.recipe l n = .ok r) {t : Template} (ht : t ∈ p.schemaTemplates) :
    t.fill (l.bindings n) ∈ r.fragments .schemas := by
  obtain ⟨⟨t, suffix⟩, hp, rfl⟩ := List.mem_map.1 ht
  obtain ⟨w, hw, hwire⟩ := (exists_wires h).1 (Option.mem_toList.1 hp)
  have hfragment := mem_fragments hw
  rwa [Layout.kind_of_schemaWire hwire, (Layout.of_schemaWire hwire).2] at hfragment

theorem fill_mem_shard (h : p.recipe l n = .ok r) {t : Template} (ht : t ∈ p.shardTemplates) :
    t.fill (l.bindings n) ∈ r.fragments .shard := by
  obtain ⟨⟨t, generator⟩, hp, rfl⟩ := List.mem_map.1 ht
  obtain ⟨w, hw, types, hwire⟩ := (exists_wires h).2 (Option.mem_toList.1 hp)
  have hfragment := mem_fragments hw
  rwa [Layout.kind_of_shardWire hwire, (Layout.of_shardWire hwire).2] at hfragment

theorem exports_superset (h : p.recipe l n = .ok r) :
    (p.exportNames.map fun f => fillAll (l.value n) f.symbols) ⊆ r.exports := by
  obtain ⟨hall, hlegible, -, hnames, -⟩ := of_symbols p p.mem_all
  exact subset_declared (fun t ht => fill_mem_schemas h ht)
    (fun t ht => (hall t (List.mem_append_left _ ht)).1) hlegible hnames

theorem members_superset (h : p.recipe l n = .ok r) :
    (p.memberNames.map fun f => fillAll (l.value n) f.symbols) ⊆ r.members := by
  obtain ⟨hall, -, hlegible, -, hnames, -⟩ := of_symbols p p.mem_all
  exact subset_declared (fun t ht => fill_mem_shard h ht)
    (fun t ht => (hall t (List.mem_append_right _ ht)).1) (fun t ht => (hlegible t ht).1) hnames

theorem isSegment_stem {d : Draft} (hd : d ∈ p.drafts) :
    IsSegment (fillAll (l.value n) d.stem.symbols) := by
  obtain ⟨hhead, hslash, -⟩ := stem_drafts p p.mem_all d hd
  obtain ⟨c, hc, hhead⟩ := List.mem_map.1 hhead
  have hslots := (slots_names p p.mem_all).1 d hd
  have hslash : '/' ∉ fillAll (l.value n) d.stem.symbols := by
    intro hmem
    rcases Symbol.mem_fillAll hmem with hmem | ⟨s, hs, hmem⟩
    · exact hslash hmem
    · exact l.not_mem_value n (Layout.mem_cased_of_mem_slots hslots hs) (by decide) hmem
  obtain ⟨f, hf⟩ := List.head?_eq_some_iff.1 hhead.symm
  rw [hf, Symbol.fillAll_char] at hslash ⊢
  have hdot : c ≠ '.' := by
    rintro rfl
    exact absurd hc (by decide)
  exact ⟨List.cons_ne_nil _ _, hslash, fun h => hdot (List.cons.inj h).1,
    fun h => hdot (List.cons.inj h).1⟩

theorem fillAll_beside {d : Draft} (hd : d ∈ p.drafts) {name : Text} (hname : IsSegment name)
    (file : Path) : fillAll (l.valueAt n file) (Symbol.ofText "./" ++ d.stem.symbols) =
      Path.moduleSpecifier ((l.pageDir n).join ⟨name⟩) (d.path l n) := by
  obtain ⟨-, -, hdot, hslash⟩ := stem_drafts p p.mem_all d hd
  have hcased := (slots_names p p.mem_all).1 d hd
  have hway := Path.moduleSpecifier_beside n.isSegment_kebab hname
    (isSegment_stem (l := l) (n := n) hd) hdot hslash (l.path .clientDir)
  rw [Symbol.fillAll_append, Symbol.fillAll_ofText, l.fillAll_valueAt n file hcased]
  exact hway.symm

theorem mem_files (h : p.recipe l n = .ok r) {m : Module} (hm : m ∈ p.modules l n) :
    m.emission l n ∈ r.files := by
  rw [files_eq h]
  exact List.mem_map_of_mem hm

theorem exists_name_of_draft {d : Draft} (hd : d ∈ p.drafts) :
    ∃ name, IsSegment name ∧ d.path l n = (l.pageDir n).join ⟨name⟩ := by
  obtain ⟨-, -, -, hextension⟩ := stem_drafts p p.mem_all d hd
  exact ⟨_, Path.isSegment_extended (isSegment_stem hd) hextension, rfl⟩

theorem registrations_fill {s : Service} (hs : p.service? = some s) :
    registrations (s.routes.fill (l.bindings n)) = s.handlers.map fun f =>
      ⟨s.route ++ n.kebab, fillAll (l.value n) f.symbols⟩ := by
  obtain ⟨-, -, htells, hregistrations⟩ := of_services p p.mem_all s (Option.mem_toList.2 hs)
  have hplain : ∀ s ∈ [Slot.kebab, .pascal], '\'' ∉ l.value n s ∧ '\n' ∉ l.value n s := by
    intro s hs
    have hcased : s ∈ Slot.cased := by
      simp only [List.mem_cons, List.not_mem_nil, or_false] at hs
      rcases hs with rfl | rfl <;> decide
    exact ⟨l.not_mem_value n hcased (by decide), l.not_mem_value n hcased (by decide)⟩
  have hpath : fillAll (l.value n) s.path = s.route ++ n.kebab := s.fillAll_path (l.value n)
  have hfill := Template.registrations_eq (l.isNamed_value n) hplain htells
  rw [hregistrations, List.map_map] at hfill
  rw [Template.fill_eq_filledLines]
  refine hfill.trans (List.map_congr_left fun f _ => ?_)
  rw [Function.comp_apply, hpath]

end Product

end Scaffold
