import Scaffold.Proofs.Template.Declared
import Scaffold.Recipe.Product
import Scaffold.Template.Catalog

namespace Scaffold

/-- The template with the comment line written out that marks the methods of a generator. -/
def Template.marked (t : Template) (generator : Text) : Template :=
  t.expand .marker [.text ("// stackgen[" ++ generator ++ ":"), .slot .kebab, .text "]"]

def Slot.cased : List Slot := [kebab, pascal, snake, screaming]

namespace Product

def all : List Product := PageKind.all.map page ++ [table, webhook]

theorem mem_all (p : Product) : p ∈ all := by
  cases p with
  | page k => cases k <;> decide
  | table => decide
  | webhook => decide

/-- The template of a product's schema, and what its constant has after the name. -/
def schema? : Product → Option (Template × Text)
  | page .static => none
  | page .dashboard => some (Template.Dashboard.schema, "StatsSchema")
  | page .feed => some (Template.Feed.schema, "ItemSchema")
  | table => some (Template.Table.schema, "RowSchema")
  | webhook => some (Template.Webhook.schema, "EventSchema")

def shard? : Product → Option (Template × Text)
  | page .static | webhook => none
  | page .dashboard => some (Template.Dashboard.shard, "dashboard")
  | page .feed => some (Template.Feed.shard, "feed")
  | table => some (Template.Table.shard, "table")

def schemaTemplates (p : Product) : List Template := p.schema?.toList.map Prod.fst

def shardTemplates (p : Product) : List Template :=
  p.shard?.toList.map fun x => x.1.marked x.2

end Product

namespace Symbol

def constant (suffix : Text) : List Symbol := .slot .pascal :: ofText suffix

def sign (generator : Text) : List Symbol :=
  ofText ("stackgen[" ++ generator ++ ":") ++ [.slot .kebab, .char ']']

end Symbol

namespace Product

open Slot

def exportNames : Product → List Line
  | page .static => []
  | page .dashboard => [[pascal, "StatsSchema"], [pascal, "Stats"]]
  | page .feed => [[pascal, "ItemInputSchema"], [pascal, "ItemSchema"], [pascal, "ItemInput"],
      [pascal, "Item"]]
  | table => [[pascal, "RowSchema"], [pascal, "Row"]]
  | webhook => [[pascal, "EventSchema"], [pascal, "Event"]]

def memberNames : Product → List Line
  | page .static | webhook => []
  | page .dashboard => [["get", pascal, "Stats"]]
  | page .feed => [["#ensure", pascal, "FeedTable"], ["list", pascal, "Items"],
      ["add", pascal, "Item"]]
  | table => [[screaming, "_ROWS_TABLE"], ["#ensure", pascal, "RowsTable"], ["#to", pascal, "Row"],
      ["put", pascal, "Row"], ["get", pascal, "Row"], ["list", pascal, "Rows"],
      ["delete", pascal, "Row"]]

def tableNames : Product → List Line
  | page .feed => [[snake, "_feed_items"]]
  | table => [[snake, "_rows"]]
  | _ => []

/-- The names of two products differ, or both are one name and tell the value in it. -/
def NamesApart (names : Product → List Line) : Prop :=
  ∀ p ∈ all, ∀ q ∈ all, ∀ f ∈ names p, ∀ g ∈ names q,
    Symbol.apart f.symbols g.symbols = true ∨
      p = q ∧ f = g ∧ ∃ s ∈ [pascal, snake, screaming], Symbol.slots f.symbols = [s]

theorem namesApart_exports : NamesApart exportNames := by
  unfold NamesApart
  decide +kernel

theorem namesApart_members : NamesApart memberNames := by
  unfold NamesApart
  decide +kernel

theorem namesApart_tables : NamesApart tableNames := by
  unfold NamesApart
  decide +kernel

theorem slots_tableNames : ∀ p ∈ all, ∀ f ∈ p.tableNames, Symbol.slots f.symbols = [snake] := by
  decide +kernel

/-- What can be told from the symbols of the templates, whatever the name is. No word of a template
is a constant of another product, and none begins with a mark of one; and all that is declared is
what has been listed. -/
theorem of_symbols : ∀ q ∈ all,
    (∀ t ∈ q.schemaTemplates ++ q.shardTemplates, Symbol.slots t.symbols ⊆ cased ∧
      ∀ w ∈ List.splitOn (Symbol.char ' ') t.symbols, ∀ p ∈ all,
        (∀ x ∈ p.schema?.toList,
          Symbol.apart (Symbol.constant x.2) w = true ∨ p = q ∧ w = Symbol.constant x.2) ∧
        ∀ x ∈ p.shard?.toList, .char '[' ∉ w ∨ Symbol.strays (Symbol.sign x.2) w = true ∨
          p = q ∧ Symbol.sign x.2 <+: w) ∧
    (∀ t ∈ q.schemaTemplates, t.IsLegible Text.exportLeads) ∧
    (∀ t ∈ q.shardTemplates, t.IsLegible Text.memberLeads ∧ t.IsLegible Text.tableLeads) ∧
    q.schemaTemplates.flatMap (·.declared Text.exportLeads) = q.exportNames.map Line.symbols ∧
    q.shardTemplates.flatMap (·.declared Text.memberLeads) = q.memberNames.map Line.symbols ∧
    q.shardTemplates.flatMap (·.declared Text.tableLeads) = q.tableNames.map Line.symbols := by
  unfold schemaTemplates shardTemplates schema? shard? Template.Dashboard.schema
    Template.Dashboard.shard Template.Feed.schema Template.Feed.shard Template.Feed.shardTable
    Template.Feed.shardList Template.Feed.shardAdd Template.Table.schema Template.Table.shard
    Template.Table.shardName Template.Table.shardTable Template.Table.shardToRow
    Template.Table.shardPut Template.Table.shardGet Template.Table.shardList
    Template.Table.shardDelete Template.Webhook.schema
  simp (disch := with_reducible rfl) only [Text.toList_eq]
  decide +kernel

theorem of_template {q : Product} {t : Template}
    (ht : t ∈ q.schemaTemplates ++ q.shardTemplates) : Symbol.slots t.symbols ⊆ cased ∧
      ∀ w ∈ List.splitOn (Symbol.char ' ') t.symbols, ∀ p ∈ all,
        (∀ x ∈ p.schema?.toList,
          Symbol.apart (Symbol.constant x.2) w = true ∨ p = q ∧ w = Symbol.constant x.2) ∧
        ∀ x ∈ p.shard?.toList, .char '[' ∉ w ∨ Symbol.strays (Symbol.sign x.2) w = true ∨
          p = q ∧ Symbol.sign x.2 <+: w :=
  (of_symbols q q.mem_all).1 t ht

end Product

end Scaffold
