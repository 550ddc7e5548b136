import Scaffold.Proofs.Recipe.Wires

namespace Scaffold

def FileKind.field : FileKind → PathField
  | bundle => .bundle
  | routes => .routes
  | schemas => .schemas
  | shard => .shard

namespace Product

def kinds : Product → List FileKind
  | page .static => [.bundle]
  | page _ => [.bundle, .schemas, .shard, .routes]
  | table => [.schemas, .shard]
  | webhook => [.schemas, .routes]

end Product

variable {l : Layout} {n : Name} {w : Wire}

structure Wire.IsFor (l : Layout) (w : Wire) (k : FileKind) : Prop where
  kind : w.insertion.kind = k
  file : w.file = l.path k.field

namespace Wire

variable {ws : List Wire} {ks : List FileKind}

theorem exists_isFor (h : List.Forall₂ (IsFor l) ws ks) (hw : w ∈ ws) : ∃ k, w.IsFor l k := by
  induction h with
  | nil => cases hw
  | cons hk _ ih =>
      rcases List.mem_cons.1 hw with rfl | hw
      · exact ⟨_, hk⟩
      · exact ih hw

theorem files_of_isFor (h : List.Forall₂ (IsFor l) ws ks) :
    ws.map (·.file) = ks.map fun k => l.path k.field := by
  induction h with
  | nil => rfl
  | cons hk _ ih => rw [List.map_cons, List.map_cons, hk.file, ih]

end Wire

namespace Layout

theorem isFor_of_entryWire (h : l.entryWire n = .ok w) : w.IsFor l .bundle := by
  refine ⟨kind_of_entryWire h, ?_⟩
  obtain ⟨plain, -, h⟩ := bind_eq_ok_iff.1 h
  obtain ⟨resolved, -, h⟩ := bind_eq_ok_iff.1 h
  cases h
  rfl

theorem isFor_of_schemaWire {t : Template} {constant : Text}
    (h : l.schemaWire n t constant = .ok w) : w.IsFor l .schemas := by
  refine ⟨kind_of_schemaWire h, ?_⟩
  obtain ⟨fragment, -, h⟩ := bind_eq_ok_iff.1 h
  cases h
  rfl

theorem isFor_of_shardWire {t : Template} {generator : Text} {types : List Text}
    (h : l.shardWire n t generator types = .ok w) : w.IsFor l .shard := by
  refine ⟨kind_of_shardWire h, ?_⟩
  obtain ⟨fragment, -, h⟩ := bind_eq_ok_iff.1 h
  cases h
  rfl

theorem isFor_of_routesWire {t : Template} {route : Text} {module : Path} {handlers : List Text}
    (h : l.routesWire n t route module handlers = .ok w) : w.IsFor l .routes := by
  refine ⟨kind_of_routesWire h, ?_⟩
  obtain ⟨fragment, -, h⟩ := bind_eq_ok_iff.1 h
  cases h
  rfl

end Layout

namespace Product

variable {p : Product} {r : Recipe}

theorem isFor_of_page {k : PageKind} (h : Recipe.page l n k = .ok r) :
    List.Forall₂ (Wire.IsFor l) r.wires (kinds (page k)) := by
  obtain ⟨entry, ws, hentry, hwires, hdata⟩ := Recipe.wires_of_page h
  rw [hwires]
  have hbundle := Layout.isFor_of_entryWire hentry
  rcases hdata with ⟨hd, rfl⟩ | ⟨d, hd, hws⟩
  · cases k with
    | static => exact .cons hbundle .nil
    | dashboard => cases hd
    | feed => cases hd
  · obtain ⟨schema, shard, routes, hschema, hshard, hroutes, rfl⟩ := Layout.of_dataWires hws
    have hall : List.Forall₂ (Wire.IsFor l) [entry, schema, shard, routes]
        [.bundle, .schemas, .shard, .routes] :=
      .cons hbundle (.cons (Layout.isFor_of_schemaWire hschema)
        (.cons (Layout.isFor_of_shardWire hshard)
          (.cons (Layout.isFor_of_routesWire hroutes) .nil)))
    cases k with
    | static => cases hd
    | dashboard => exact hall
    | feed => exact hall

theorem isFor_of_recipe (h : p.recipe l n = .ok r) :
    List.Forall₂ (Wire.IsFor l) r.wires p.kinds := by
  cases p with
  | page k => exact isFor_of_page h
  | table =>
      obtain ⟨schema, hschema, h⟩ := bind_eq_ok_iff.1 h
      obtain ⟨shard, hshard, h⟩ := bind_eq_ok_iff.1 h
      cases h
      exact .cons (Layout.isFor_of_schemaWire hschema)
        (.cons (Layout.isFor_of_shardWire hshard) .nil)
  | webhook =>
      obtain ⟨handler, -, h⟩ := bind_eq_ok_iff.1 h
      obtain ⟨schema, hschema, h⟩ := bind_eq_ok_iff.1 h
      obtain ⟨routes, hroutes, h⟩ := bind_eq_ok_iff.1 h
      cases h
      exact .cons (Layout.isFor_of_schemaWire hschema)
        (.cons (Layout.isFor_of_routesWire hroutes) .nil)

theorem exists_isFor (h : p.recipe l n = .ok r) (hw : w ∈ r.wires) : ∃ k, w.IsFor l k :=
  Wire.exists_isFor (isFor_of_recipe h) hw

theorem files_of_recipe (h : p.recipe l n = .ok r) :
    r.wires.map (·.file) = p.kinds.map fun k => l.path k.field :=
  Wire.files_of_isFor (isFor_of_recipe h)

end Product

end Scaffold
