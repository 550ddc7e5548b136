import Scaffold.Proofs.Recipe.Modules

namespace Scaffold

open Text
open Scaffold.Symbol (fillAll)

/-- What is imported into a file is in a package, in a file that is written with it or in what is added
to the schemas, or it is the class of the shard; and it is named by the way from the file to there. -/
inductive Recipe.Supplies (r : Recipe) (l : Layout) (file : Path) (i : ImportRequest) : Prop
  | package (h : i.source ∈ packages)
  | module {e : Emission} (he : e ∈ r.files) (hsource : i.source = Path.moduleSpecifier file e.path)
      (hnames : ∀ x ∈ i.names, x ∈ declared moduleLeads e.contents)
  | schema (hsource : i.source = Path.moduleSpecifier file (l.path .schemas))
      (hnames : ∀ x ∈ i.names, x ∈ r.exports)
  | shard (hsource : i.source = Path.moduleSpecifier file (l.path .shard))
      (hnames : i.names = [l.settings.shard .className])

structure Recipe.Agrees (r : Recipe) (p : Product) (l : Layout) (n : Name) : Prop where
  files : r.files = (p.modules l n).map (·.emission l n)
  places : ∀ w ∈ r.wires, (w.insertion.kind = .schemas → w.file = l.path .schemas) ∧
    (w.insertion.kind = .shard → w.file = l.path .shard) ∧
    (w.insertion.kind = .routes → w.file = l.path .routes)
  /-- All imports of a file are supplied. -/
  imports : ∀ m ∈ p.modules l n, ∀ line ∈ m.lines l n, "import ".toList <+: line →
    ∃ i : ImportRequest, i.IsStated line ∧ r.Supplies l m.path i
  /-- All imports into the project's files are supplied. -/
  requests : ∀ w ∈ r.wires, ∀ i ∈ w.insertion.imports, r.Supplies l w.file i
  /-- The handlers that are imported are those that are registered, and a file exports them. -/
  handlers : ∀ w ∈ r.wires, w.insertion.kind = .routes → registrations w.insertion.fragment ≠ [] ∧
    ∃ e ∈ r.files, w.insertion.imports = [⟨Path.moduleSpecifier w.file e.path,
      (registrations w.insertion.fragment).map (·.handler), false⟩] ∧
      ∀ g ∈ registrations w.insertion.fragment, g.handler ∈ declared moduleLeads e.contents
  registered : (p = .webhook ∨ ∃ k, p = .page k ∧ k.hasData = true) →
    ∃ w ∈ r.wires, w.insertion.kind = .routes
  calls : ∀ m ∈ p.modules l n, ∀ x ∈ m.calls l n, x ∈ r.members
  /-- What is fetched is the path of all that is registered. -/
  fetches : ∀ m ∈ p.modules l n, ∀ x ∈ m.fetches l n, (∃ w ∈ r.wires, w.insertion.kind = .routes) ∧
    ∀ w ∈ r.wires, w.insertion.kind = .routes → ∀ g ∈ registrations w.insertion.fragment, g.route = x
  /-- A page with data calls methods and fetches from its hook, and imports the hook by its name. -/
  data : ∀ k d, p = .page k → k.data? n.pascal = some d →
    (∃ m ∈ p.modules l n, m.path = l.apiModule n ∧ m.calls l n ≠ []) ∧
    ∃ m ∈ p.modules l n, m.path = (l.pageDir n).join ⟨d.hookFile⟩ ∧ m.fetches l n ≠ [] ∧
      ∃ app ∈ p.modules l n, app.path = (l.pageDir n).join ⟨"App.tsx"⟩ ∧
        ∃ x ∈ declared moduleLeads (m.emission l n).contents,
          ImportRequest.line ⟨Path.moduleSpecifier app.path m.path, [x], false⟩ '\'' ∈ app.lines l n

namespace Product

variable {p : Product} {l : Layout} {n : Name} {r : Recipe}

theorem supplies_of_isMet {q : Symbol.Request} {drafts : List Draft} {file : Path}
    (h : p.recipe l n = .ok r) (hq : q.IsMet p drafts) (hdrafts : drafts ⊆ p.drafts)
    (hbeside : drafts ≠ [] → ∃ name, IsSegment name ∧ file = (l.pageDir n).join ⟨name⟩) :
    r.Supplies l file (q.fill (l.valueAt n file)) := by
  have hslots := slots_names p p.mem_all
  have hfilled : ∀ s : Slot, fillAll (l.valueAt n file) [.slot s] = l.valueAt n file s := by
    intro s
    rw [Symbol.fillAll_slot, Symbol.fillAll_nil, List.append_nil]
  obtain ⟨source, names, typeOnly⟩ := q
  rcases hq with hpackage | ⟨rfl, hnames⟩ | ⟨rfl, rfl⟩ | ⟨d, hd, rfl, hnames, hcased⟩
  · obtain ⟨x, hx, rfl⟩ := List.mem_map.1 hpackage
    refine .package ?_
    rwa [Symbol.Request.fill, Symbol.fillAll_ofText]
  · refine .schema ?_ fun x hx => ?_
    · rw [Symbol.Request.fill, hfilled, Layout.valueAt_schemasModule]
    · obtain ⟨f, hf, rfl⟩ := List.mem_map.1 hx
      obtain ⟨line, hline, rfl⟩ := List.mem_map.1 (hnames hf)
      rw [l.fillAll_valueAt n file (hslots.2 line (List.mem_append_left _ hline))]
      exact exports_superset h (List.mem_map_of_mem hline)
  · refine .shard ?_ ?_
    · rw [Symbol.Request.fill, hfilled, Layout.valueAt_shardModule]
    · rw [Symbol.Request.fill, List.map_singleton, hfilled .shardClass, Layout.valueAt_shardClass]
  · have hdraft := hdrafts hd
    obtain ⟨name, hname, hfile⟩ := hbeside (List.ne_nil_of_mem hd)
    have hmodule : (⟨d.path l n, d.template⟩ : Module) ∈ p.modules l n :=
      List.mem_append_left _ (List.mem_map.2 ⟨d, hdraft, rfl⟩)
    refine .module (mem_files h hmodule) ?_ fun x hx => ?_
    · rw [Symbol.Request.fill, fillAll_beside hdraft hname, hfile, Module.path_emission]
    · obtain ⟨f, hf, rfl⟩ := List.mem_map.1 hx
      have hdeclared := Template.declared_of_exports (l.isNamed_valueAt n (d.path l n)) (hnames hf)
      rw [l.fillAll_valueAt n _ (hcased f hf)] at hdeclared ⊢
      exact hdeclared

theorem exists_request (drafts : List Draft) {m : Module} {line : Line} (h : p.recipe l n = .ok r)
    (hline : line.IsMet p drafts) (hdrafts : drafts ⊆ p.drafts)
    (hbeside : drafts ≠ [] → ∃ name, IsSegment name ∧ m.path = (l.pageDir n).join ⟨name⟩)
    (himport : "import ".toList <+: fillAll (l.valueAt n m.path) line.symbols) :
    ∃ i : ImportRequest, i.IsStated (fillAll (l.valueAt n m.path) line.symbols) ∧
      r.Supplies l m.path i := by
  rcases hline with hstrays | ⟨q, -, hq, hstated⟩
  · have hlead := Symbol.fillAll_ofText (v := l.valueAt n m.path) "import "
    rw [← hlead] at himport
    exact absurd himport (Symbol.not_isPrefix_of_strays hstrays)
  · refine ⟨q.fill (l.valueAt n m.path), ?_, supplies_of_isMet h hq hdrafts hbeside⟩
    rcases hstated with hlist | ⟨hnames, hdefault⟩
    · rw [hlist, Symbol.fillAll_line]
      exact .list
    · have hlead : "import App from '".toList =
          "import ".toList ++ "App".toList ++ " from '".toList := by decide
      rw [hdefault, Symbol.fillAll_append, Symbol.fillAll_append, Symbol.fillAll_ofText,
        Symbol.fillAll_ofText, hlead]
      have hdefault : (q.fill (l.valueAt n m.path)).names = ["default".toList] := by
        rw [Symbol.Request.fill, hnames, List.map_singleton, Symbol.fillAll_ofText]
      have hname : "App".toList.all isNamePart = true := by decide
      exact .default (List.cons_ne_nil _ _) (List.all_eq_true.1 hname) hdefault

theorem imports_of_recipe (h : p.recipe l n = .ok r) {m : Module} (hm : m ∈ p.modules l n)
    {line : Text} (hline : line ∈ m.lines l n) (himport : "import ".toList <+: line) :
    ∃ i : ImportRequest, i.IsStated line ∧ r.Supplies l m.path i := by
  obtain ⟨hdrafts, hservice⟩ := of_files p p.mem_all
  obtain ⟨line, hmem, rfl⟩ := List.mem_map.1 hline
  rcases List.mem_append.1 hm with hm | hm
  · obtain ⟨d, hd, rfl⟩ := List.mem_map.1 hm
    exact exists_request p.drafts h (hdrafts d hd line hmem) (List.Subset.refl _)
      (fun _ => exists_name_of_draft hd) himport
  · obtain ⟨s, hs, rfl⟩ := List.mem_map.1 hm
    exact exists_request [] h (hservice s hs line hmem) (List.nil_subset _)
      (fun hne => absurd rfl hne) himport

theorem module_of_service {s : Service} (hs : p.service? = some s) :
    (⟨s.file l n, s.template⟩ : Module) ∈ p.modules l n := by
  refine List.mem_append_right _ (List.mem_map.2 ⟨s, ?_, rfl⟩)
  rw [hs]
  exact List.mem_singleton_self s

theorem declared_of_service {s : Service} (hs : p.service? = some s) {f : Line}
    (hf : f ∈ s.handlers) : fillAll (l.value n) f.symbols ∈
      declared moduleLeads (Module.emission ⟨s.file l n, s.template⟩ l n).contents := by
  obtain ⟨-, hexports, -⟩ := of_services p p.mem_all s (Option.mem_toList.2 hs)
  obtain ⟨hexport, hcased⟩ := hexports f hf
  have hdeclared := Template.declared_of_exports (l.isNamed_valueAt n (s.file l n)) hexport
  rwa [l.fillAll_valueAt n _ hcased] at hdeclared

theorem requests_of_recipe (h : p.recipe l n = .ok r) {w : Wire} (hw : w ∈ r.wires)
    {i : ImportRequest} (hi : i ∈ w.insertion.imports) : r.Supplies l w.file i := by
  cases joins_of_recipe h hw with
  | entry hkind himports =>
      rw [himports] at hi
      cases hi
  | schema hkind hfile himports =>
      rw [himports, List.mem_singleton] at hi
      rw [hi]
      exact .package (by decide)
  | shard hkind hfile himports htypes =>
      rw [himports, List.mem_singleton] at hi
      rw [hfile]
      refine .schema ?_ fun x hx => ?_
      · rw [hi]
      · rw [hi] at hx
        exact exports_superset h (htypes hx)
  | routes hs hkind hfile himports hfragment =>
      rw [himports, List.mem_singleton] at hi
      rw [hi, hfile]
      refine .module (mem_files h (module_of_service hs)) ?_ fun x hx => ?_
      · rw [Module.path_emission]
      · obtain ⟨f, hf, rfl⟩ := List.mem_map.1 hx
        exact declared_of_service hs hf

theorem handlers_of_recipe (h : p.recipe l n = .ok r) {w : Wire} (hw : w ∈ r.wires)
    (hkind : w.insertion.kind = .routes) : registrations w.insertion.fragment ≠ [] ∧
      ∃ e ∈ r.files, w.insertion.imports = [⟨Path.moduleSpecifier w.file e.path,
        (registrations w.insertion.fragment).map (·.handler), false⟩] ∧
        ∀ g ∈ registrations w.insertion.fragment, g.handler ∈ declared moduleLeads e.contents := by
  obtain ⟨s, hs, hfile, himports, hfragment⟩ := (joins_of_recipe h hw).exists_service hkind
  obtain ⟨hsome, -⟩ := of_services p p.mem_all s (Option.mem_toList.2 hs)
  rw [hfragment, registrations_fill hs]
  refine ⟨by simpa using hsome, _, mem_files h (module_of_service hs), ?_, fun g hg => ?_⟩
  · rw [himports, hfile, Module.path_emission, List.map_map]
    rfl
  · obtain ⟨f, hf, rfl⟩ := List.mem_map.1 hg
    exact declared_of_service hs hf

theorem template_mem_files {m : Module} (hm : m ∈ p.modules l n) : m.template ∈ p.fileTemplates := by
  rcases List.mem_append.1 hm with hm | hm
  · obtain ⟨d, hd, rfl⟩ := List.mem_map.1 hm
    exact List.mem_append_left _ (List.mem_map_of_mem hd)
  · obtain ⟨s, hs, rfl⟩ := List.mem_map.1 hm
    exact List.mem_append_right _ (List.mem_map_of_mem hs)

theorem calls_of_recipe (h : p.recipe l n = .ok r) {m : Module} (hm : m ∈ p.modules l n)
    {x : Text} (hx : x ∈ m.calls l n) : x ∈ r.members := by
  obtain ⟨hcalls, -⟩ := of_fileTemplates p p.mem_all
  obtain ⟨f, hf, rfl⟩ := List.mem_map.1 hx
  obtain ⟨line, hline, rfl⟩ := List.mem_map.1 (hcalls m.template (template_mem_files hm) hf)
  have hslots := (slots_names p p.mem_all).2 line (List.mem_append_right _ hline)
  rw [l.fillAll_valueAt n m.path hslots]
  exact members_superset h (List.mem_map_of_mem hline)

theorem fetches_of_recipe (h : p.recipe l n = .ok r) {m : Module} (hm : m ∈ p.modules l n)
    {x : Text} (hx : x ∈ m.fetches l n) : (∃ w ∈ r.wires, w.insertion.kind = .routes) ∧
      ∀ w ∈ r.wires, w.insertion.kind = .routes →
        ∀ g ∈ registrations w.insertion.fragment, g.route = x := by
  obtain ⟨-, hfetches⟩ := of_fileTemplates p p.mem_all
  obtain ⟨f, hf, rfl⟩ := List.mem_map.1 hx
  obtain ⟨s, hs, rfl⟩ := hfetches m.template (template_mem_files hm) f hf
  have hservice := Option.mem_toList.1 hs
  refine ⟨exists_wire_of_service h hservice, fun w hw hkind g hg => ?_⟩
  obtain ⟨s', hs', -, -, hfragment⟩ := (joins_of_recipe h hw).exists_service hkind
  obtain rfl : s = s' := Option.some.inj (hservice.symm.trans hs')
  rw [hfragment, registrations_fill hservice] at hg
  obtain ⟨f, -, rfl⟩ := List.mem_map.1 hg
  rw [Service.fillAll_path, l.valueAt_cased n m.path (by decide)]
  rfl

theorem data_of_page {k : PageKind} {d : PageData} (hd : k.data? n.pascal = some d) :
    (∃ m ∈ (page k).modules l n, m.path = l.apiModule n ∧ m.calls l n ≠ []) ∧
    ∃ m ∈ (page k).modules l n, m.path = (l.pageDir n).join ⟨d.hookFile⟩ ∧ m.fetches l n ≠ [] ∧
      ∃ app ∈ (page k).modules l n, app.path = (l.pageDir n).join ⟨"App.tsx"⟩ ∧
        ∃ x ∈ declared moduleLeads (m.emission l n).contents,
          ImportRequest.line ⟨Path.moduleSpecifier app.path m.path, [x], false⟩ '\'' ∈
            app.lines l n := by
  obtain ⟨hook, s, hhook, hs, hpath, -, hfile, -⟩ := exists_of_data (l := l) hd
  have hk : k ∈ PageKind.all := by cases k <;> decide
  obtain ⟨hfetches, f, hf, hcased, line, hline, himport⟩ :=
    of_hooks k hk hook (Option.mem_toList.2 hhook)
  have hcalls := calls_of_services k hk s (Option.mem_toList.2 hs)
  have hdraft : hook ∈ (page k).drafts :=
    List.mem_append_right _ (Option.mem_toList.2 hhook)
  refine ⟨⟨_, module_of_service hs, hfile, by simpa [Module.calls] using hcalls⟩,
    ⟨hook.path l n, hook.template⟩, List.mem_append_left _ (List.mem_map.2 ⟨hook, hdraft, rfl⟩),
    hpath, by simpa [Module.fetches] using hfetches,
    ⟨(l.pageDir n).join ⟨"App.tsx"⟩, k.appTemplate⟩, by simp [modules_page], rfl,
    fillAll (l.value n) f, ?_, ?_⟩
  · have hdeclared := Template.declared_of_exports (l.isNamed_valueAt n (hook.path l n)) hf
    rwa [l.fillAll_valueAt n _ hcased] at hdeclared
  · have happ : IsSegment "App.tsx" := by decide
    refine List.mem_map.2 ⟨line, hline, ?_⟩
    rw [himport, Symbol.fillAll_line, Symbol.Request.fill, fillAll_beside hdraft happ,
      List.map_singleton, l.fillAll_valueAt n _ hcased]

end Product

/-- For every name and in every layout, what one run writes goes by the same names. -/
theorem artefacts_agree (p : Product) (l : Layout) (n : Name) :
    ∃ r, p.recipe l n = .ok r ∧ r.Agrees p l n := by
  obtain ⟨r, h, -⟩ := p.exists_recipe l n
  refine ⟨r, h, Product.files_eq h, ?_, fun m hm line => Product.imports_of_recipe h hm,
    fun w hw i => Product.requests_of_recipe h hw, fun w hw => Product.handlers_of_recipe h hw, ?_,
    fun m hm x => Product.calls_of_recipe h hm, fun m hm x => Product.fetches_of_recipe h hm, ?_⟩
  · intro w hw
    cases Product.joins_of_recipe h hw with
    | entry hkind =>
        rw [hkind]
        exact ⟨(nomatch ·), (nomatch ·), (nomatch ·)⟩
    | schema hkind hfile =>
        rw [hkind]
        exact ⟨fun _ => hfile, (nomatch ·), (nomatch ·)⟩
    | shard hkind hfile =>
        rw [hkind]
        exact ⟨(nomatch ·), fun _ => hfile, (nomatch ·)⟩
    | routes _ hkind hfile =>
        rw [hkind]
        exact ⟨(nomatch ·), (nomatch ·), fun _ => hfile⟩
  · rintro (rfl | ⟨k, rfl, hk⟩)
    · exact Product.exists_wire_of_service h rfl
    · obtain ⟨s, hs⟩ : ∃ s, (Product.page k).service? = some s := by
        cases k with
        | static => cases hk
        | dashboard | feed => exact ⟨_, rfl⟩
      exact Product.exists_wire_of_service h hs
  · rintro k d rfl hd
    exact Product.data_of_page hd

end Scaffold
