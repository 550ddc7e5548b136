import Scaffold.Proofs.Recipe.Marks
import Scaffold.Proofs.Template.Nesting
import Scaffold.Proofs.Template.Routes

namespace Scaffold

def routeDirs : List (Text × PathField) := [("/api/", .apiDir), ("/webhooks/", .webhooksDir)]

inductive Wired (l : Layout) (n : Name) (w : Wire) : Prop
  | entry (h : l.entryWire n = .ok w)
  | schema {t : Template} {constant : Text} (h : l.schemaWire n t constant = .ok w)
  | shard {t : Template} {generator : Text} {types : List Text} (hshows : t.Shows)
      (hnests : t.Nests) (hgenerator : generator.all Text.isPlain = true)
      (h : l.shardWire n t generator types = .ok w)
  | routes {t : Template} {route : Text} {f : PathField} {handlers : List Text}
      (hregisters : t.Registers route) (hroutes : t.Routes route) (hdir : (route, f) ∈ routeDirs)
      (hhandlers : ∀ handler ∈ handlers, ∀ c ∈ handler, Text.isPlain c = true)
      (h : l.routesWire n t (route ++ n.kebab) ((l.path f).join ⟨n.kebab ++ ".ts"⟩) handlers =
        .ok w)

theorem Name.isPlain_around (n : Name) {u v : Text} (hu : u.all Text.isPlain = true)
    (hv : v.all Text.isPlain = true) : ∀ c ∈ u ++ n.pascal ++ v, Text.isPlain c = true := by
  intro c hc
  simp only [List.mem_append] at hc
  rcases hc with (hc | hc) | hc
  · exact List.all_eq_true.1 hu c hc
  · exact n.isPlain_pascal c hc
  · exact List.all_eq_true.1 hv c hc

namespace PageKind

theorem nests_shard {k : PageKind} {pascal : Text} {d : PageData} (h : k.data? pascal = some d) :
    d.shard.Nests := by
  cases k with
  | static => cases h
  | dashboard => cases h; exact Template.nests_dashboardShard
  | feed => cases h; exact Template.nests_feedShard

theorem routes_of_data? {k : PageKind} {pascal : Text} {d : PageData} (h : k.data? pascal = some d) :
    d.routes.Routes "/api/" := by
  cases k with
  | static => cases h
  | dashboard => cases h; exact Template.routes_dashboard
  | feed => cases h; exact Template.routes_feed

theorem isPlain_handlers {k : PageKind} {n : Name} {d : PageData} (h : k.data? n.pascal = some d) :
    ∀ handler ∈ d.handlers, ∀ c ∈ handler, Text.isPlain c = true := by
  cases k with
  | static => cases h
  | dashboard =>
      cases h
      simp only [List.mem_singleton, forall_eq]
      exact n.isPlain_around (u := "get") (v := "StatsHandler") (by decide) (by decide)
  | feed =>
      cases h
      simp only [List.mem_cons, List.not_mem_nil, or_false, forall_eq_or_imp, forall_eq]
      exact ⟨n.isPlain_around (u := "list") (v := "ItemsHandler") (by decide) (by decide),
        n.isPlain_around (u := "create") (v := "ItemHandler") (by decide) (by decide)⟩

end PageKind

variable {l : Layout} {n : Name} {w : Wire}

theorem Layout.kind_of_entryWire (h : l.entryWire n = .ok w) : w.insertion.kind = .bundle := by
  obtain ⟨plain, -, h⟩ := bind_eq_ok_iff.1 h
  obtain ⟨resolved, -, h⟩ := bind_eq_ok_iff.1 h
  cases h
  rfl

theorem Layout.kind_of_schemaWire {t : Template} {constant : Text}
    (h : l.schemaWire n t constant = .ok w) : w.insertion.kind = .schemas := by
  obtain ⟨fragment, -, h⟩ := bind_eq_ok_iff.1 h
  cases h
  rfl

theorem Layout.kind_of_shardWire {t : Template} {generator : Text} {types : List Text}
    (h : l.shardWire n t generator types = .ok w) : w.insertion.kind = .shard := by
  obtain ⟨fragment, -, h⟩ := bind_eq_ok_iff.1 h
  cases h
  rfl

theorem Layout.kind_of_routesWire {t : Template} {route : Text} {module : Path}
    {handlers : List Text} (h : l.routesWire n t route module handlers = .ok w) :
    w.insertion.kind = .routes := by
  obtain ⟨fragment, -, h⟩ := bind_eq_ok_iff.1 h
  cases h
  rfl

theorem Layout.of_dataWires {k : PageKind} {d : PageData} {ws : List Wire}
    (h : l.dataWires n k d = .ok ws) : ∃ schema shard routes,
      l.schemaWire n d.schema d.schemaConstant = .ok schema ∧
      l.shardWire n d.shard k.label d.types = .ok shard ∧
      l.routesWire n d.routes ("/api/" ++ n.kebab) (l.apiModule n) d.handlers = .ok routes ∧
      ws = [schema, shard, routes] := by
  obtain ⟨schema, hschema, h⟩ := bind_eq_ok_iff.1 h
  obtain ⟨shard, hshard, h⟩ := bind_eq_ok_iff.1 h
  obtain ⟨routes, hroutes, h⟩ := bind_eq_ok_iff.1 h
  cases h
  exact ⟨schema, shard, routes, hschema, hshard, hroutes, rfl⟩

theorem Layout.wired_of_dataWires {k : PageKind} {d : PageData} {ws : List Wire}
    (hd : k.data? n.pascal = some d) (h : l.dataWires n k d = .ok ws) (hw : w ∈ ws) :
    Wired l n w := by
  obtain ⟨schema, shard, routes, hschema, hshard, hroutes, rfl⟩ := Layout.of_dataWires h
  have hsound := PageKind.isSound_of_data? hd
  have hlabel : k.label.all Text.isPlain = true := by cases k <;> decide
  simp only [List.mem_cons, List.not_mem_nil, or_false] at hw
  rcases hw with rfl | rfl | rfl
  · exact .schema hschema
  · exact .shard hsound.shard (PageKind.nests_shard hd) hlabel hshard
  · exact .routes hsound.routes (PageKind.routes_of_data? hd) List.mem_cons_self
      (PageKind.isPlain_handlers hd) hroutes

namespace Recipe

theorem wires_of_page {k : PageKind} {r : Recipe} (h : page l n k = .ok r) :
    ∃ entry ws, l.entryWire n = .ok entry ∧ r.wires = entry :: ws ∧
      ((k.data? n.pascal = none ∧ ws = []) ∨
        ∃ d, k.data? n.pascal = some d ∧ l.dataWires n k d = .ok ws) := by
  obtain ⟨html, -, h⟩ := bind_eq_ok_iff.1 h
  obtain ⟨script, -, h⟩ := bind_eq_ok_iff.1 h
  obtain ⟨app, -, h⟩ := bind_eq_ok_iff.1 h
  obtain ⟨entry, hentry, h⟩ := bind_eq_ok_iff.1 h
  cases hd : k.data? n.pascal with
  | none =>
      simp only [hd] at h
      cases h
      exact ⟨entry, [], hentry, rfl, .inl ⟨rfl, rfl⟩⟩
  | some d =>
      simp only [hd] at h
      obtain ⟨more, -, h⟩ := bind_eq_ok_iff.1 h
      obtain ⟨ws, hws, h⟩ := bind_eq_ok_iff.1 h
      cases h
      exact ⟨entry, ws, hentry, rfl, .inr ⟨d, rfl, hws⟩⟩

theorem wired_of_page {k : PageKind} {r : Recipe} (h : page l n k = .ok r) (hw : w ∈ r.wires) :
    Wired l n w := by
  obtain ⟨entry, ws, hentry, hwires, hdata⟩ := wires_of_page h
  rw [hwires] at hw
  rcases List.mem_cons.1 hw with rfl | hw
  · exact .entry hentry
  · rcases hdata with ⟨-, rfl⟩ | ⟨d, hd, hws⟩
    · cases hw
    · exact Layout.wired_of_dataWires hd hws hw

theorem exists_wires_of_page {k : PageKind} {r : Recipe} {d : PageData}
    (hd : k.data? n.pascal = some d) (h : page l n k = .ok r) :
    (∃ w ∈ r.wires, l.shardWire n d.shard k.label d.types = .ok w) ∧ ∃ w ∈ r.wires,
      l.routesWire n d.routes ("/api/" ++ n.kebab) (l.apiModule n) d.handlers = .ok w := by
  obtain ⟨entry, ws, -, hwires, hdata⟩ := wires_of_page h
  rw [hd] at hdata
  rcases hdata with ⟨hnone, -⟩ | ⟨d', hd', hws⟩
  · cases hnone
  · cases hd'
    obtain ⟨schema, shard, routes, -, hshard, hroutes, rfl⟩ := Layout.of_dataWires hws
    rw [hwires]
    exact ⟨⟨shard, by simp, hshard⟩, ⟨routes, by simp, hroutes⟩⟩

theorem exists_wire_of_webhook {r : Recipe} (h : webhook l n = .ok r) : ∃ w ∈ r.wires,
    l.routesWire n Template.Webhook.routes ("/webhooks/" ++ n.kebab) (l.webhookModule n)
      ["handle" ++ n.pascal ++ "Webhook"] = .ok w := by
  obtain ⟨handler, -, h⟩ := bind_eq_ok_iff.1 h
  obtain ⟨schema, -, h⟩ := bind_eq_ok_iff.1 h
  obtain ⟨routes, hroutes, h⟩ := bind_eq_ok_iff.1 h
  cases h
  exact ⟨routes, by simp, hroutes⟩

theorem wired_of_table {r : Recipe} (h : table l n = .ok r) (hw : w ∈ r.wires) : Wired l n w := by
  obtain ⟨schema, hschema, h⟩ := bind_eq_ok_iff.1 h
  obtain ⟨shard, hshard, h⟩ := bind_eq_ok_iff.1 h
  cases h
  simp only [List.mem_cons, List.not_mem_nil, or_false] at hw
  rcases hw with rfl | rfl
  · exact .schema hschema
  · exact .shard Template.shows_tableShard Template.nests_tableShard (by decide) hshard

theorem wired_of_webhook {r : Recipe} (h : webhook l n = .ok r) (hw : w ∈ r.wires) :
    Wired l n w := by
  obtain ⟨handler, -, h⟩ := bind_eq_ok_iff.1 h
  obtain ⟨schema, hschema, h⟩ := bind_eq_ok_iff.1 h
  obtain ⟨routes, hroutes, h⟩ := bind_eq_ok_iff.1 h
  cases h
  simp only [List.mem_cons, List.not_mem_nil, or_false] at hw
  rcases hw with rfl | rfl
  · exact .schema hschema
  · refine .routes (f := .webhooksDir) Template.registers_webhookRoutes Template.routes_webhook
      (by decide) ?_ hroutes
    rintro handler hhandler
    rw [List.mem_singleton.1 hhandler]
    exact n.isPlain_around (u := "handle") (v := "Webhook") (by decide) (by decide)

end Recipe

theorem Product.wired_of_recipe {p : Product} {r : Recipe} (h : p.recipe l n = .ok r)
    (hw : w ∈ r.wires) : Wired l n w := by
  cases p with
  | page k => exact Recipe.wired_of_page h hw
  | table => exact Recipe.wired_of_table h hw
  | webhook => exact Recipe.wired_of_webhook h hw

end Scaffold
