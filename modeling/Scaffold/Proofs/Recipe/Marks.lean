import Scaffold.Proofs.Insertion.Sparing
import Scaffold.Proofs.Name.Forms
import Scaffold.Proofs.Template.Marks
import Scaffold.Proofs.Tree.Ways
import Scaffold.Recipe.Product

namespace Scaffold

structure Wire.HasSturdyMark (w : Wire) : Prop where
  plain : w.insertion.HasSturdyMark
  resolved : ∀ fragment ∈ w.resolved, Insertion.HasSturdyMark { w.insertion with fragment }

theorem Wire.HasSturdyMark.styled {w : Wire} (h : w.HasSturdyMark) (t : Tree) :
    (w.styled t).HasSturdyMark := by
  unfold Wire.styled
  split
  · next fragment contents hresolved hread =>
      split
      · exact h.resolved fragment (by rw [hresolved]; rfl)
      · exact h.plain
  · exact h.plain

structure PageData.IsSound (d : PageData) (pascal : Text) : Prop where
  hook : d.hook.IsOwn
  api : d.api.IsOwn
  schema : ∃ suffix, d.schemaConstant = pascal ++ suffix ∧ d.schema.Declares suffix
  shard : d.shard.Shows
  routes : d.routes.Registers "/api/"

namespace PageKind

theorem isOwn_appTemplate (k : PageKind) : k.appTemplate.IsOwn := by
  apply Template.isOwn_of_mem
  cases k <;> simp [appTemplate, Template.owned]

theorem isSound_of_data? {k : PageKind} {pascal : Text} {d : PageData}
    (h : k.data? pascal = some d) : d.IsSound pascal := by
  have hown : d.hook ∈ Template.owned ∧ d.api ∈ Template.owned := by
    cases k <;> cases h <;> simp [Template.owned]
  have hhook := Template.isOwn_of_mem hown.1
  have hapi := Template.isOwn_of_mem hown.2
  cases k with
  | static => cases h
  | dashboard =>
      cases h
      exact ⟨hhook, hapi, ⟨_, rfl, Template.declares_dashboardSchema⟩,
        Template.shows_dashboardShard, Template.registers_dashboardRoutes⟩
  | feed =>
      cases h
      exact ⟨hhook, hapi, ⟨_, rfl, Template.declares_feedSchema⟩, Template.shows_feedShard,
        Template.registers_feedRoutes⟩

end PageKind

namespace Layout

variable (l : Layout) (n : Name) {t : Template}

theorem binds_bindings : (l.bindings n).Binds Slot.shared := by
  intro s hs
  cases s <;> first | rfl | exact absurd hs (by decide)

theorem binds_bindingsFor (file : Path) :
    (l.bindingsFor n file).Binds (.shardModule :: .schemasModule :: Slot.shared) :=
  ((l.binds_bindings n).set _ _).set _ _

theorem emission_eq (file : Path) (ht : t.IsOwn) :
    l.emission n file t = .ok ⟨file, t.fill (l.bindingsFor n file)⟩ := by
  rw [emission, Template.render_of_binds (l.binds_bindingsFor n file) ht.slots]

theorem fragment_eq {b : Bindings} {slots : List Slot} (hb : b.Binds slots) (ht : t.slots ⊆ slots) :
    fragment t b = .ok (t.fill b) := by
  rw [fragment, Template.render_of_binds hb ht]
  rfl

theorem trail_assignment : Text.Trail " =" := by decide

theorem trail_bracket : Text.Trail "]" := by decide

theorem trail_quote : Text.Trail "'" := by decide

theorem trail_key : Text.Trail "':" := by decide

theorem exists_schemaWire {suffix : Text} (ht : t.Declares suffix) :
    ∃ w, l.schemaWire n t (n.pascal ++ suffix) = .ok w ∧ w.file = l.path .schemas ∧
      w.HasSturdyMark := by
  refine ⟨_, by rw [schemaWire, fragment_eq (l.binds_bindings n) ht.slots]; rfl, rfl, ?_, by simp⟩
  have hlead : Text.Lead "const " := by decide
  have hplain : ∀ c ∈ n.pascal ++ suffix, Text.isPlain c = true :=
    fun c hc => (List.mem_append.1 hc).elim (n.isPlain_pascal c) (List.all_eq_true.1 ht.plain c)
  refine Insertion.hasSturdyMark_of_isInfix (Text.sturdy_around hlead trail_assignment hplain) ?_
    (List.mem_singleton_self _) ⟨[], "=".toList, by simp⟩
  simpa using ht.isInfix_fill (b := l.bindings n) rfl

theorem exists_shardWire (ht : t.Shows) (generator : Text) (types : List Text)
    (hgenerator : generator.all Text.isPlain = true) :
    ∃ w, l.shardWire n t generator types = .ok w ∧ w.file = l.path .shard ∧ w.HasSturdyMark := by
  refine ⟨_, by rw [shardWire, fragment_eq ((l.binds_bindings n).set _ _) ht.slots]; rfl, rfl, ?_,
    by simp⟩
  have hlead : Text.Lead "// stackgen[" := by decide
  have hplain : ∀ c ∈ generator ++ ':' :: n.kebab, Text.isPlain c = true := by
    intro c hc
    simp only [List.mem_append, List.mem_cons] at hc
    rcases hc with hc | rfl | hc
    · exact List.all_eq_true.1 hgenerator c hc
    · decide
    · exact n.isPlain_kebab c hc
  refine Insertion.hasSturdyMark_of_isInfix (Text.sturdy_around hlead trail_bracket hplain) ?_
    (List.mem_singleton_self _) (by simp)
  simpa using Template.isInfix_fill_slot ht.marker (Bindings.set_self _ _ _)

theorem exists_routesWire {route : Text} (ht : t.Registers route) (module : Path)
    (handlers : List Text) :
    ∃ w, l.routesWire n t (route ++ n.kebab) module handlers = .ok w ∧ w.file = l.path .routes ∧
      w.HasSturdyMark := by
  refine ⟨_, by rw [routesWire, fragment_eq (l.binds_bindings n) ht.slots]; rfl, rfl, ?_, by simp⟩
  exact Insertion.hasSturdyMark_of_isInfix
    (Text.sturdy_around ht.lead trail_quote n.isPlain_kebab) (ht.isInfix_fill rfl)
    (List.mem_singleton_self _) (by simp)

theorem hasSturdyMark_entry {b : Bindings} {path u v : Text} {line : Line} (hline : line ∈ t.lines)
    (hpieces : [.text u, .slot .kebab, .text v] <:+: line) (hu : "'".toList <:+ u)
    (hv : "':".toList <+: v) (hb : b .kebab = some n.kebab) :
    Insertion.HasSturdyMark ⟨.bundle, ["'" ++ n.kebab ++ "':", "\"" ++ n.kebab ++ "\":", path], [],
      Text.trimEnd (t.fill b)⟩ := by
  have hlead : Text.Lead "'" := by decide
  have hsturdy := Text.sturdy_around hlead trail_key n.isPlain_kebab
  have hmark : "'".toList ++ n.kebab ++ "':".toList <:+: t.fill b :=
    Template.isInfix_fill_around hline hpieces hu hv hb
  exact Insertion.hasSturdyMark_of_isInfix hsturdy
    (Text.isInfix_dropEndWhile hmark hsturdy.solid.last) List.mem_cons_self (List.infix_refl _)

theorem exists_entryWire :
    ∃ w, l.entryWire n = .ok w ∧ w.file = l.path .bundle ∧ w.HasSturdyMark := by
  have hb := (l.binds_bindings n).set .entryPath (l.entryPath n)
  have hplain := fragment_eq (t := Template.BundleEntry.plain) hb (by decide)
  have hresolved := fragment_eq (t := Template.BundleEntry.resolved) hb (by decide)
  refine ⟨_, by rw [entryWire]; simp only [hplain, hresolved]; rfl, rfl, ?_, ?_⟩
  · exact hasSturdyMark_entry (u := "'") (v := "': '") n List.mem_cons_self (by decide) (by decide)
      (by decide) rfl
  · rintro - ⟨⟩
    exact hasSturdyMark_entry (u := "'") (v := "': resolve(__dirname, '") n List.mem_cons_self
      (by decide) (by decide) (by decide) rfl

end Layout

/-- What the recipes of a layout have in common. Wires go into the layout's files, and new files are
what a guard has found free, or are in a directory that it has. -/
structure Recipe.IsSound (l : Layout) (r : Recipe) : Prop where
  guards : ∀ g ∈ r.guards, ∃ f name, Text.IsSegment name ∧ g = (l.path f).join ⟨name⟩
  files : ∀ e ∈ r.files, ∃ g ∈ r.guards,
    e.path = g ∨ ∃ name, Text.IsSegment name ∧ e.path = g.join ⟨name⟩
  wires : ∀ w ∈ r.wires, (∃ f, w.file = l.path f) ∧ w.HasSturdyMark

namespace Name

variable (n : Name)

theorem isSegment_kebab : Text.IsSegment n.kebab := by
  have hplain := n.isPlain_kebab
  refine Text.isSegment_of_last (fun h => absurd (hplain _ h) (by decide)) ?_
  refine ⟨_, List.getLast?_eq_some_getLast n.kebab_ne_nil, fun h => ?_⟩
  exact absurd (hplain _ (List.getLast_mem n.kebab_ne_nil)) (by rw [h]; decide)

theorem isSegment_module : Text.IsSegment (n.kebab ++ ".ts") := by
  refine Text.isSegment_of_last ?_ ⟨'s', by rw [List.getLast?_append]; rfl, by decide⟩
  rw [List.mem_append, not_or]
  exact ⟨n.isSegment_kebab.slash, by decide⟩

theorem isSegment_hook {suffix : Text} (hslash : '/' ∉ suffix) :
    Text.IsSegment ("use".toList ++ n.pascal ++ suffix) := by
  refine ⟨by simp, ?_, by simp, by simp⟩
  simp only [List.mem_append, not_or]
  exact ⟨⟨by decide, fun h => absurd (n.isPlain_pascal _ h) (by decide)⟩, hslash⟩

end Name

theorem PageKind.isSegment_hookFile {k : PageKind} {n : Name} {d : PageData}
    (h : k.data? n.pascal = some d) : Text.IsSegment d.hookFile := by
  cases k with
  | static => cases h
  | dashboard =>
      cases h
      exact n.isSegment_hook (by decide)
  | feed =>
      cases h
      exact n.isSegment_hook (by decide)

namespace Layout

variable (l : Layout) (n : Name) {d : PageData}

theorem exists_dataEmissions (hd : d.IsSound n.pascal) : ∃ hook api,
    l.dataEmissions n d =
      .ok [⟨(l.pageDir n).join ⟨d.hookFile⟩, hook⟩, ⟨l.apiModule n, api⟩] :=
  ⟨_, _, by rw [dataEmissions, emission_eq _ _ _ hd.hook, emission_eq _ _ _ hd.api]; rfl⟩

theorem exists_dataWires (k : PageKind) (hd : d.IsSound n.pascal) :
    ∃ ws, l.dataWires n k d = .ok ws ∧ ∀ w ∈ ws, (∃ f, w.file = l.path f) ∧ w.HasSturdyMark := by
  obtain ⟨suffix, hconstant, hdeclares⟩ := hd.schema
  have hlabel : k.label.all Text.isPlain = true := by cases k <;> decide
  obtain ⟨schema, hschema, hfile, hmark⟩ := l.exists_schemaWire n hdeclares
  obtain ⟨shard, hshard, hfile', hmark'⟩ := l.exists_shardWire n hd.shard k.label d.types hlabel
  obtain ⟨routes, hroutes, hfile'', hmark''⟩ := l.exists_routesWire n hd.routes (l.apiModule n)
    d.handlers
  rw [← hconstant] at hschema
  refine ⟨[schema, shard, routes], by rw [dataWires, hschema, hshard, hroutes]; rfl, ?_⟩
  intro w hw
  simp only [List.mem_cons, List.not_mem_nil, or_false] at hw
  rcases hw with rfl | rfl | rfl
  · exact ⟨⟨_, hfile⟩, hmark⟩
  · exact ⟨⟨_, hfile'⟩, hmark'⟩
  · exact ⟨⟨_, hfile''⟩, hmark''⟩

end Layout

namespace Recipe

variable (l : Layout) (n : Name)

theorem exists_table : ∃ r, table l n = .ok r ∧ r.guards = [] ∧ r.files = [] ∧
    r.wires.map (·.file) = [l.path .schemas, l.path .shard] ∧ r.IsSound l := by
  obtain ⟨schema, hschema, hfile, hmark⟩ := l.exists_schemaWire n Template.declares_tableSchema
  obtain ⟨shard, hshard, hfile', hmark'⟩ := l.exists_shardWire n Template.shows_tableShard "table"
    [n.pascal ++ "Row"] (by decide)
  have hconstant : n.pascal ++ "Row".toList ++ "Schema".toList = n.pascal ++ "RowSchema".toList :=
    List.append_assoc _ _ _
  refine ⟨_, by rw [table]; simp only [hconstant, hschema, hshard]; rfl, rfl, rfl, ?_, by simp,
    by simp, ?_⟩
  · simp [hfile, hfile']
  · intro w hw
    simp only [List.mem_cons, List.not_mem_nil, or_false] at hw
    rcases hw with rfl | rfl
    · exact ⟨⟨_, hfile⟩, hmark⟩
    · exact ⟨⟨_, hfile'⟩, hmark'⟩

theorem exists_webhook : ∃ r, webhook l n = .ok r ∧ r.guards = [l.webhookModule n] ∧
    (∃ e ∈ r.files, e.path = l.webhookModule n) ∧ r.IsSound l := by
  obtain ⟨schema, hschema, hfile, hmark⟩ := l.exists_schemaWire n Template.declares_webhookSchema
  obtain ⟨routes, hroutes, hfile', hmark'⟩ := l.exists_routesWire n
    Template.registers_webhookRoutes (l.webhookModule n) ["handle" ++ n.pascal ++ "Webhook"]
  have hhandler := l.emission_eq n (l.webhookModule n)
    (Template.isOwn_of_mem (t := Template.Webhook.handler) (by simp [Template.owned]))
  refine ⟨_, by rw [webhook]; simp only [hhandler, hschema, hroutes]; rfl, rfl,
    ⟨_, List.mem_cons_self, rfl⟩, ?_, ?_, ?_⟩
  · intro g hg
    exact ⟨.webhooksDir, _, n.isSegment_module, List.mem_singleton.1 hg⟩
  · intro e he
    exact ⟨_, List.mem_cons_self, .inl (by rw [List.mem_singleton.1 he])⟩
  · intro w hw
    simp only [List.mem_cons, List.not_mem_nil, or_false] at hw
    rcases hw with rfl | rfl
    · exact ⟨⟨_, hfile⟩, hmark⟩
    · exact ⟨⟨_, hfile'⟩, hmark'⟩

theorem isSound_page {entry : Wire} {html script app : Text} {guards : List Path}
    {more : List Emission} {wires : List Wire} {steps : List Text}
    (hguards : ∀ g ∈ guards, g = l.apiModule n)
    (hmore : ∀ e ∈ more, e.path ∈ guards ∨
      ∃ name, Text.IsSegment name ∧ e.path = (l.pageDir n).join ⟨name⟩)
    (hwires : ∀ w ∈ entry :: wires, (∃ f, w.file = l.path f) ∧ w.HasSturdyMark) :
    IsSound l ⟨l.pageDir n :: guards, ⟨(l.pageDir n).join ⟨"index.html"⟩, html⟩ ::
      ⟨(l.pageDir n).join ⟨"index.tsx"⟩, script⟩ :: ⟨(l.pageDir n).join ⟨"App.tsx"⟩, app⟩ :: more,
      entry :: wires, steps⟩ := by
  have hnamed : ∀ name : Text, Text.IsSegment name →
      ∃ g ∈ l.pageDir n :: guards, (l.pageDir n).join ⟨name⟩ = g ∨
        ∃ s, Text.IsSegment s ∧ (l.pageDir n).join ⟨name⟩ = g.join ⟨s⟩ :=
    fun name hname => ⟨_, List.mem_cons_self, .inr ⟨name, hname, rfl⟩⟩
  refine ⟨?_, ?_, hwires⟩
  · intro g hg
    rcases List.mem_cons.1 hg with rfl | hg
    · exact ⟨.clientDir, _, n.isSegment_kebab, rfl⟩
    · exact ⟨.apiDir, _, n.isSegment_module, hguards g hg⟩
  · intro e he
    simp only [List.mem_cons] at he
    rcases he with rfl | rfl | rfl | he
    · exact hnamed "index.html" (by decide)
    · exact hnamed "index.tsx" (by decide)
    · exact hnamed "App.tsx" (by decide)
    · rcases hmore e he with hguard | ⟨name, hname, hpath⟩
      · exact ⟨_, List.mem_cons_of_mem _ hguard, .inl rfl⟩
      · exact ⟨_, List.mem_cons_self, .inr ⟨name, hname, hpath⟩⟩

theorem exists_page (k : PageKind) : ∃ r, page l n k = .ok r ∧ r.guards.head? = some (l.pageDir n) ∧
    (∃ e ∈ r.files, e.path = (l.pageDir n).join ⟨"index.html"⟩) ∧ r.IsSound l := by
  have hhtml := l.emission_eq n ((l.pageDir n).join ⟨"index.html"⟩)
    (Template.isOwn_of_mem (t := Template.Page.html) (by simp [Template.owned]))
  have hscript := l.emission_eq n ((l.pageDir n).join ⟨"index.tsx"⟩)
    (Template.isOwn_of_mem (t := Template.Page.entry) (by simp [Template.owned]))
  have happ := l.emission_eq n ((l.pageDir n).join ⟨"App.tsx"⟩) k.isOwn_appTemplate
  obtain ⟨entry, hentry, hfile, hmark⟩ := l.exists_entryWire n
  cases hd : k.data? n.pascal with
  | none =>
      refine ⟨_, by rw [page]; simp only [hhtml, hscript, happ, hentry, hd]; rfl, rfl,
        ⟨_, List.mem_cons_self, rfl⟩, isSound_page l n (by simp) (by simp) ?_⟩
      simpa using ⟨⟨_, hfile⟩, hmark⟩
  | some d =>
      have hsound := PageKind.isSound_of_data? hd
      obtain ⟨hook, api, hmore⟩ := l.exists_dataEmissions n hsound
      obtain ⟨wires, hwires, hmarks⟩ := l.exists_dataWires n k hsound
      refine ⟨_, by rw [page]; simp only [hhtml, hscript, happ, hentry, hd, hmore, hwires]; rfl,
        rfl, ⟨_, List.mem_cons_self, rfl⟩, isSound_page l n (by simp) ?_ ?_⟩
      · simp only [List.mem_cons, List.not_mem_nil, or_false]
        rintro e (rfl | rfl)
        · exact .inr ⟨_, PageKind.isSegment_hookFile hd, rfl⟩
        · exact .inl rfl
      · intro w hw
        rcases List.mem_cons.1 hw with rfl | hw
        · exact ⟨⟨_, hfile⟩, hmark⟩
        · exact hmarks w hw

end Recipe

theorem Product.exists_recipe (p : Product) (l : Layout) (n : Name) :
    ∃ r, p.recipe l n = .ok r ∧ r.IsSound l := by
  cases p with
  | page k =>
      obtain ⟨r, hr, -, -, hsound⟩ := Recipe.exists_page l n k
      exact ⟨r, hr, hsound⟩
  | table =>
      obtain ⟨r, hr, -, -, -, hsound⟩ := Recipe.exists_table l n
      exact ⟨r, hr, hsound⟩
  | webhook =>
      obtain ⟨r, hr, -, -, hsound⟩ := Recipe.exists_webhook l n
      exact ⟨r, hr, hsound⟩

end Scaffold
