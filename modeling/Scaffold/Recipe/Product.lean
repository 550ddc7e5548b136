import Scaffold.Recipe.Page

namespace Scaffold

namespace Recipe

def table (l : Layout) (n : Name) : Except RunError Recipe := do
  let row := n.pascal ++ "Row"
  let schema ← l.schemaWire n Template.Table.schema (row ++ "Schema")
  let shard ← l.shardWire n Template.Table.shard "table" [row]
  let methods := "Call put" ++ row ++ ", get" ++ row ++ ", list" ++ row ++ "s and delete" ++ row ++
    " from your shard RPC methods"
  let storage := "Rows live in the `" ++ n.snake ++ "_rows` table of each user's shard"
  return ⟨[], [], [schema, shard], [methods, storage]⟩

def webhook (l : Layout) (n : Name) : Except RunError Recipe := do
  let module := l.webhookModule n
  let handler ← l.emission n module Template.Webhook.handler
  let schema ← l.schemaWire n Template.Webhook.schema (n.pascal ++ "EventSchema")
  let routes ← l.routesWire n Template.Webhook.routes ("/webhooks/" ++ n.kebab) module
    ["handle" ++ n.pascal ++ "Webhook"]
  let secret := "Set the " ++ n.screaming ++ "_WEBHOOK_SECRET secret used to verify signatures"
  let provider := "Point the provider at POST /webhooks/" ++ n.kebab ++
    " (signature in the x-signature header)"
  return ⟨[module], [handler], [schema, routes], [secret, provider]⟩

end Recipe

inductive Product where
  | page (k : PageKind)
  | table
  | webhook
deriving DecidableEq, Repr

namespace Product

def recipe (p : Product) (l : Layout) (n : Name) : Except RunError Recipe :=
  match p with
  | page k => Recipe.page l n k
  | table => Recipe.table l n
  | webhook => Recipe.webhook l n

/-- Generates the product, or in a dry run only tells what that would do. A bad name is refused
before anything is looked at. -/
def generate (p : Product) (l : Layout) (raw : Text) (dry : Bool) : Disk RunError Report := do
  let n ← Disk.look fun _ => (Name.parse raw).mapError RunError.name
  let r ← Disk.look fun _ => p.recipe l n
  r.run dry

end Product

end Scaffold
