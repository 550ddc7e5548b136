import Scaffold.Proofs.Template.Fill
import Scaffold.Proofs.Text.Sturdy
import Scaffold.Template.Catalog

namespace Scaffold

def Slot.shared : List Slot :=
  [kebab, pascal, camel, screaming, snake, title, shardClass, shardBinding]

namespace Template

def owned : List Template :=
  [Page.html, Page.entry, Page.staticApp, Dashboard.app, Dashboard.hook, Dashboard.api, Feed.app,
    Feed.hook, Feed.api, Webhook.handler]

structure IsOwn (t : Template) : Prop where
  slots : t.slots ⊆ .shardModule :: .schemasModule :: Slot.shared

structure Declares (t : Template) (suffix : Text) : Prop where
  slots : t.slots ⊆ Slot.shared
  plain : suffix.all Text.isPlain = true
  declaration : ∃ line ∈ t.lines, ∃ v : Text, suffix ++ " =".toList <+: v ∧
    [.text "export const ", .slot .pascal, .text v] <:+: line

structure Registers (t : Template) (route : Text) : Prop where
  slots : t.slots ⊆ Slot.shared
  lead : Text.Lead ('\'' :: route)
  registration : ∃ line ∈ t.lines, ∃ u v : Text, '\'' :: route <:+ u ∧ "'".toList <+: v ∧
    [.text u, .slot .kebab, .text v] <:+: line

structure Shows (t : Template) : Prop where
  slots : t.slots ⊆ .marker :: Slot.shared
  marker : .marker ∈ t.slots

variable {t : Template} {b : Bindings}

theorem Declares.isInfix_fill {suffix pascal : Text} (h : t.Declares suffix)
    (hb : b .pascal = some pascal) :
    "const ".toList ++ pascal ++ (suffix ++ " =".toList) <:+: t.fill b := by
  obtain ⟨line, hline, v, hv, hpieces⟩ := h.declaration
  exact isInfix_fill_around hline hpieces ⟨"export ".toList, rfl⟩ hv hb

theorem Registers.isInfix_fill {route kebab : Text} (h : t.Registers route)
    (hb : b .kebab = some kebab) :
    '\'' :: route ++ kebab ++ "'".toList <:+: t.fill b := by
  obtain ⟨line, hline, u, v, hu, hv, hpieces⟩ := h.registration
  exact isInfix_fill_around hline hpieces hu hv hb

theorem isOwn_of_mem (h : t ∈ owned) : t.IsOwn := by
  have hslots : ∀ t ∈ owned, t.slots ⊆ .shardModule :: .schemasModule :: Slot.shared := by decide
  exact ⟨hslots t h⟩

theorem declares_tableSchema : Table.schema.Declares "RowSchema" :=
  ⟨by decide, by decide, _, List.mem_cons_self, "RowSchema = z.object(\x7b", by decide, by decide⟩

theorem declares_dashboardSchema : Dashboard.schema.Declares "StatsSchema" :=
  ⟨by decide, by decide, _, List.mem_cons_self, "StatsSchema = z.object(\x7b", by decide, by decide⟩

theorem declares_feedSchema : Feed.schema.Declares "ItemSchema" := by
  have hline : Feed.schema.lines[3] ∈ Feed.schema.lines := List.getElem_mem _
  exact ⟨by decide, by decide, _, hline, "ItemSchema = ", by decide, by decide⟩

theorem declares_webhookSchema : Webhook.schema.Declares "EventSchema" :=
  ⟨by decide, by decide, _, List.mem_cons_self, "EventSchema = z.object(\x7b", by decide, by decide⟩

theorem lead_api : Text.Lead "'/api/" := by decide

theorem lead_webhooks : Text.Lead "'/webhooks/" := by decide

theorem registers_dashboardRoutes : Dashboard.routes.Registers "/api/" :=
  ⟨by decide, lead_api, _, List.mem_cons_of_mem _ List.mem_cons_self, "app.get('/api/", "', get",
    by decide⟩

theorem registers_feedRoutes : Feed.routes.Registers "/api/" :=
  ⟨by decide, lead_api, _, List.mem_cons_of_mem _ List.mem_cons_self, "app.get('/api/", "', list",
    by decide⟩

theorem registers_webhookRoutes : Webhook.routes.Registers "/webhooks/" :=
  ⟨by decide, lead_webhooks, _, List.mem_cons_of_mem _ List.mem_cons_self, "app.post('/webhooks/",
    "', handle", by decide⟩

theorem shows_tableShard : Table.shard.Shows := ⟨by decide, by decide⟩

theorem shows_dashboardShard : Dashboard.shard.Shows := ⟨by decide, by decide⟩

theorem shows_feedShard : Feed.shard.Shows := ⟨by decide, by decide⟩

end Template

end Scaffold
