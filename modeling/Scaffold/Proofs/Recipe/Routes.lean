import Scaffold.Proofs.Insertion.Routes
import Scaffold.Proofs.Path.Modules
import Scaffold.Proofs.Recipe.Wires

namespace Scaffold

namespace Text

theorem isMute_of_isPlain {t : Text} (h : ∀ c ∈ t, isPlain c = true) : t.IsMute := by
  intro c hc
  refine ⟨?_, Shape.isQuote_eq_false (by decide) (h c hc)⟩
  rintro rfl
  exact absurd (h _ hc) (by decide)

theorem dropFinalNewlines_unlines {ls : List Text} (h : ∀ l ∈ ls, '\n' ∉ l) {l : Text}
    (hl : ls.getLast? = some l) (hne : l ≠ []) : dropFinalNewlines (unlines ls) ++ "\n" = unlines ls := by
  obtain ⟨init, rfl⟩ := List.getLast?_eq_some_iff.1 hl
  have hsplit : unlines (init ++ [l]) = unlines init ++ l ++ "\n" := by
    rw [unlines_append, unlines_cons, unlines_nil, List.append_assoc]
    rfl
  have hlast : (unlines init ++ l).getLast? = some (l.getLast hne) := by
    rw [List.getLast?_append_of_ne_nil _ hne, List.getLast?_eq_some_getLast hne]
  have hc : l.getLast hne ≠ '\n' := fun hc =>
    h l (by simp) (hc ▸ List.getLast_mem hne)
  rw [hsplit, dropFinalNewlines_line hlast hc]

end Text

namespace Layout

variable (root : Path) (n : Name) {l : Layout} {route : Text} {f : PathField}

theorem exists_join_source : ∃ u : Text, u ≠ [] ∧
    ∀ v, root.join ⟨"src".toList ++ '/' :: v⟩ = ⟨u ++ '/' :: v⟩ := by
  have hrelative : ∀ v, ¬Path.isAbsolute ⟨"src".toList ++ '/' :: v⟩ = true := fun v => by
    simp [Path.isAbsolute]
  by_cases hroot : root.text.isEmpty = true ∨ root.text.getLast? = some '/'
  · refine ⟨root.text ++ "src", by simp, fun v => ?_⟩
    rw [Path.join, if_neg (hrelative v), if_pos hroot, List.append_assoc]
  · refine ⟨root.text ++ "/" ++ "src", by simp, fun v => ?_⟩
    rw [Path.join, if_neg (hrelative v), if_neg hroot, List.append_assoc _ _ ('/' :: v)]

theorem moduleSpecifier_routes (hdir : (route, f) ∈ routeDirs) :
    Path.moduleSpecifier ((default root).path .routes)
      (((default root).path f).join ⟨n.kebab ++ ".ts"⟩) = '.' :: (route ++ n.kebab) := by
  obtain ⟨u, hu, hjoin⟩ := exists_join_source root
  have hfile : (default root).path .routes = ⟨u ++ '/' :: "server".toList ++ '/' :: "index.ts"⟩ := by
    rw [List.append_assoc]
    exact hjoin "server/index.ts"
  have hserver : Text.IsSegment "server" := by decide
  have hindex : Text.IsSegment "index.ts" := by decide
  have hts : '.' ∉ "ts".toList ∧ '/' ∉ "ts".toList := by decide
  have hnear : ∀ near : Text, Text.IsSegment near → near.head? ≠ some '.' →
      (default root).path f = ⟨u ++ '/' :: "server".toList ++ '/' :: near⟩ →
      Path.moduleSpecifier ((default root).path .routes)
        (((default root).path f).join ⟨n.kebab ++ ".ts"⟩) = "./" ++ near ++ '/' :: n.kebab := by
    intro near hsegment hvisible hpath
    rw [hfile, hpath, Path.join_concat hsegment n.isSegment_module]
    exact Path.moduleSpecifier_concat hu hserver hindex hsegment hvisible n.isSegment_kebab hts.1 hts.2
  simp only [routeDirs, List.mem_cons, Prod.mk.injEq, List.not_mem_nil, or_false] at hdir
  rcases hdir with ⟨rfl, rfl⟩ | ⟨rfl, rfl⟩
  · rw [hnear "api" (by decide) (by decide) (by rw [List.append_assoc]; exact hjoin "server/api")]
    rfl
  · rw [hnear "webhooks" (by decide) (by decide)
      (by rw [List.append_assoc]; exact hjoin "server/webhooks")]
    rfl

end Layout

theorem IsRoutePath.of_mem {route kebab : Text} (h : route ∈ routeDirs.map Prod.fst)
    (hkebab : kebab.IsMute) : IsRoutePath (route ++ kebab) := by
  simp only [routeDirs, List.map_cons, List.map_nil, List.mem_cons, List.not_mem_nil, or_false] at h
  rcases h with rfl | rfl
  · exact ⟨Text.IsMute.append (by decide) hkebab, _, _, rfl, by decide⟩
  · exact ⟨Text.IsMute.append (by decide) hkebab, _, _, rfl, by decide⟩

theorem Name.eq_of_route_eq {n m : Name} {route route' : Text}
    (h : route ∈ routeDirs.map Prod.fst) (h' : route' ∈ routeDirs.map Prod.fst)
    (heq : route ++ n.kebab = route' ++ m.kebab) : n = m := by
  have hkebab : n.kebab = m.kebab := by
    simp only [routeDirs, List.map_cons, List.map_nil, List.mem_cons, List.not_mem_nil, or_false]
      at h h'
    rcases h with rfl | rfl <;> rcases h' with rfl | rfl
    · exact List.append_cancel_left heq
    · simp at heq
    · simp at heq
    · exact List.append_cancel_left heq
  cases n
  cases m
  cases hkebab
  rfl

namespace Layout

variable {root : Path} {n : Name} {w : Wire} {t : Template} {route : Text} {f : PathField}
  {handlers : List Text}

theorem registers_of_routesWire (hregisters : t.Registers route) (hroutes : t.Routes route)
    (hdir : (route, f) ∈ routeDirs)
    (hhandlers : ∀ handler ∈ handlers, ∀ c ∈ handler, Text.isPlain c = true)
    (h : (default root).routesWire n t (route ++ n.kebab)
      (((default root).path f).join ⟨n.kebab ++ ".ts"⟩) handlers = .ok w) :
    w.insertion.Registers (route ++ n.kebab) := by
  have hkebab := Text.isMute_of_isPlain n.isPlain_kebab
  have hpath := IsRoutePath.of_mem (List.mem_map_of_mem hdir) hkebab
  rw [routesWire, fragment_eq ((default root).binds_bindings n) hregisters.slots] at h
  cases h
  obtain ⟨ls, hfill, hls, hslash⟩ := hroutes.exists_lines (b := (default root).bindings n) rfl rfl
    hkebab (Text.isMute_of_isPlain n.isPlain_pascal)
  have hblock : Text.dropFinalNewlines (t.fill ((default root).bindings n)) ++ "\n" =
      Text.unlines ls := by
    have hline : ∀ l ∈ ls, '\n' ∉ l := fun l hl =>
      ((hls l hl).1.shuns hpath (a := .catchAllRoute) List.mem_cons_self).line
    have hne : ls ≠ [] := by
      rintro rfl
      cases hslash
    have hlast := List.getLast_mem hne
    rw [hfill, Text.dropFinalNewlines_unlines hline (List.getLast?_eq_some_getLast hne)
      (hls _ hlast).2]
  exact ⟨hpath, rfl, rfl, ⟨handlers, fun name hname => Text.isMute_of_isPlain (hhandlers name hname),
    by rw [moduleSpecifier_routes root n hdir]⟩, ls, hblock, fun l hl => (hls l hl).1, hslash⟩

end Layout

theorem Wired.exists_registers {root : Path} {n : Name} {w : Wire} (h : Wired (.default root) n w)
    (hkind : w.insertion.kind = .routes) :
    ∃ route ∈ routeDirs.map Prod.fst, w.insertion.Registers (route ++ n.kebab) := by
  cases h with
  | entry h =>
      rw [Layout.kind_of_entryWire h] at hkind
      cases hkind
  | schema h =>
      rw [Layout.kind_of_schemaWire h] at hkind
      cases hkind
  | shard hshows hnests hgenerator h =>
      rw [Layout.kind_of_shardWire h] at hkind
      cases hkind
  | routes hregisters hroutes hdir hhandlers h =>
      exact ⟨_, List.mem_map_of_mem hdir,
        Layout.registers_of_routesWire hregisters hroutes hdir hhandlers h⟩

/-- Routes stay before the fallback. In a text with a route for every request, or without one but
with a default export, any number of generated registrations for different names can be made one
after the other if none of them is there yet. All are made without a warning at the anchor that the
first one has found, which is still the fallback in the end. Their lines stand before it in their
order, and the lines that stood before it at first are still there before them; so are those after
it, and the code that is found at the anchor is the same. -/
theorem routes_precede_fallback {root : Path} {targets : List (Name × Insertion)} {t : Text}
    {a : Anchor} {k : Cut}
    (htargets : ∀ x ∈ targets, ∃ p r, Product.recipe p (.default root) x.1 = .ok r ∧
      ∃ w ∈ r.wires, w.insertion = x.2 ∧ x.2.kind = .routes)
    (hnames : (targets.map Prod.fst).Nodup) (hnew : ∀ x ∈ targets, x.2.IsNew t)
    (ha : a.IsFallback t) (hk : a.locate t = some k) :
    ∃ v k', Made a (targets.map Prod.snd) t v ∧ a.IsFallback v ∧ a.locate v = some k' ∧
      a.shape.Moved (targets.flatMap fun x => Text.ended x.2.block) k k' := by
  have hregisters : ∀ x ∈ targets, ∃ route ∈ routeDirs.map Prod.fst,
      x.2.Registers (route ++ x.1.kebab) := by
    intro x hx
    obtain ⟨p, r, hr, w, hw, hinsertion, hkind⟩ := htargets x hx
    rw [← hinsertion] at hkind ⊢
    exact (Product.wired_of_recipe hr hw).exists_registers hkind
  have hmarkers : ((targets.map Prod.snd).map (·.markers)).Nodup := by
    rw [List.map_map, List.Nodup, List.pairwise_map]
    refine (List.pairwise_map.1 hnames).imp_of_mem fun {x y} hx hy hne heq => hne ?_
    obtain ⟨route, hroute, hx⟩ := hregisters x hx
    obtain ⟨route', hroute', hy⟩ := hregisters y hy
    have hquoted : ['\'' :: (route ++ x.1.kebab) ++ ['\'']] =
        ['\'' :: (route' ++ y.1.kebab) ++ ['\'']] := by
      rw [← hx.markers, ← hy.markers]
      exact heq
    have hpaths := List.append_cancel_right (List.cons.inj hquoted).1
    exact Name.eq_of_route_eq hroute hroute' (List.cons.inj hpaths).2
  have hpaths : ∀ i ∈ targets.map Prod.snd, ∃ path, i.Registers path := by
    intro i hi
    obtain ⟨x, hx, rfl⟩ := List.mem_map.1 hi
    obtain ⟨route, -, hregistered⟩ := hregisters x hx
    exact ⟨_, hregistered⟩
  have hnew' : ∀ i ∈ targets.map Prod.snd, i.IsNew t := by
    intro i hi
    obtain ⟨x, hx, rfl⟩ := List.mem_map.1 hi
    exact hnew x hx
  obtain ⟨v, k', hmade, ha', hk', hmoved⟩ :=
    Insertion.exists_made_of_registers hpaths hmarkers hnew' ha hk
  exact ⟨v, k', hmade, ha', hk', by rwa [List.flatMap_map] at hmoved⟩

theorem routes_precede_fallback_server :
    let t : Text :=
      "import \x7b Hono \x7d from 'hono';\n\nconst app = new Hono();\n\napp.all('/*', serve);\n"
    let order : Insertion := ⟨.routes, ["'/api/order'"],
      [⟨"./api/order", ["getOrderStatsHandler"], false⟩],
      "// order\napp.get('/api/order', getOrderStatsHandler);\n"⟩
    let stripe : Insertion := ⟨.routes, ["'/webhooks/stripe'"],
      [⟨"./webhooks/stripe", ["handleStripeWebhook"], false⟩],
      "// stripe webhook\napp.post('/webhooks/stripe', handleStripeWebhook);\n"⟩
    let lines : List Text := ["app.get('/api/order', getOrderStatsHandler);",
      "app.post('/webhooks/stripe', handleStripeWebhook);"]
    ∃ v k, Made .catchAllRoute [order, stripe] t v ∧ Anchor.locate v .catchAllRoute = some k ∧
      lines.Sublist (Text.ended k.before) := by
  intro t order stripe lines
  let l := Layout.default ⟨[]⟩
  let n : Name := ⟨"order", Name.check_order⟩
  let m : Name := ⟨"stripe", Name.check_stripe⟩
  obtain ⟨r, hr, -⟩ := (Product.page .dashboard).exists_recipe l n
  obtain ⟨r', hr', -⟩ := Product.webhook.exists_recipe l m
  obtain ⟨-, w, hw, horder⟩ := Recipe.exists_wires_of_page (n := n) rfl hr
  obtain ⟨w', hw', hstripe⟩ := Recipe.exists_wire_of_webhook hr'
  have hwire : w.insertion = order := by
    have hvalue : (l.routesWire n Template.Dashboard.routes ("/api/" ++ n.kebab) (l.apiModule n)
        ["get" ++ n.pascal ++ "StatsHandler"]).toOption.map (·.insertion) = some order := by
      decide +kernel
    exact Option.some.inj ((congrArg (·.toOption.map (·.insertion)) horder).symm.trans hvalue)
  have hwire' : w'.insertion = stripe := by
    have hvalue : (l.routesWire m Template.Webhook.routes ("/webhooks/" ++ m.kebab)
        (l.webhookModule m) ["handle" ++ m.pascal ++ "Webhook"]).toOption.map (·.insertion) =
          some stripe := by
      decide +kernel
    exact Option.some.inj ((congrArg (·.toOption.map (·.insertion)) hstripe).symm.trans hvalue)
  have htargets : ∀ x ∈ [(n, order), (m, stripe)], ∃ p r, Product.recipe p l x.1 = .ok r ∧
      ∃ w ∈ r.wires, w.insertion = x.2 ∧ x.2.kind = .routes := by
    simp only [List.mem_cons, List.not_mem_nil, or_false, forall_eq_or_imp, forall_eq]
    exact ⟨⟨_, r, hr, w, hw, hwire, rfl⟩, ⟨_, r', hr', w', hw', hwire', rfl⟩⟩
  have hnew : ∀ x ∈ [(n, order), (m, stripe)], x.2.IsNew t := by
    have habsent : ∀ x ∈ [(n, order), (m, stripe)], Text.contains x.1.kebab t = false := by
      decide +kernel
    intro x hx
    obtain ⟨p, r, hr, w, hw, hinsertion, hkind⟩ := htargets x hx
    rw [← hinsertion] at hkind ⊢
    obtain ⟨route, -, hregisters⟩ := (Product.wired_of_recipe hr hw).exists_registers hkind
    refine hregisters.isNew_of_isInfix (List.suffix_append route x.1.kebab).isInfix ?_
    rw [← Text.contains_iff, habsent x hx]
    exact Bool.false_ne_true
  have hlocated : (Anchor.locate t .catchAllRoute).isSome = true := by decide +kernel
  obtain ⟨k, hk⟩ := Option.isSome_iff_exists.1 hlocated
  obtain ⟨v, k', hmade, -, hk', hmoved⟩ := routes_precede_fallback htargets (by decide) hnew (.inl rfl) hk
  refine ⟨v, k', hmade, hk', List.Sublist.trans ?_ hmoved.above⟩
  refine List.Sublist.trans ?_ (List.sublist_append_right _ _)
  decide +kernel

end Scaffold
