import Scaffold.Recipe.Basic
import Scaffold.Template.Catalog

namespace Scaffold

inductive PageKind where
  | static | dashboard | feed
deriving DecidableEq, Repr

namespace PageKind

def all : List PageKind := [static, dashboard, feed]

def label : PageKind → Text
  | static => "static"
  | dashboard => "dashboard"
  | feed => "feed"

def ofLabel? (t : Text) : Option PageKind := all.find? fun k => k.label == t

def unknownMessage (t : Text) : Text :=
  "unknown page type '" ++ t ++ "' (expected static, dashboard or feed)"

def hasData : PageKind → Bool
  | static => false
  | _ => true

def appTemplate : PageKind → Template
  | static => Template.Page.staticApp
  | dashboard => Template.Dashboard.app
  | feed => Template.Feed.app

end PageKind

structure PageData where
  hookFile : Text
  hook : Template
  api : Template
  schema : Template
  schemaConstant : Text
  types : List Text
  shard : Template
  routes : Template
  handlers : List Text
deriving DecidableEq, Repr

namespace PageKind

def data? (k : PageKind) (pascal : Text) : Option PageData :=
  match k with
  | static => none
  | dashboard => some {
      hookFile := "use" ++ pascal ++ "Stats.ts"
      hook := Template.Dashboard.hook
      api := Template.Dashboard.api
      schema := Template.Dashboard.schema
      schemaConstant := pascal ++ "StatsSchema"
      types := [pascal ++ "Stats"]
      shard := Template.Dashboard.shard
      routes := Template.Dashboard.routes
      handlers := ["get" ++ pascal ++ "StatsHandler"] }
  | feed => some {
      hookFile := "use" ++ pascal ++ "Items.ts"
      hook := Template.Feed.hook
      api := Template.Feed.api
      schema := Template.Feed.schema
      schemaConstant := pascal ++ "ItemSchema"
      types := [pascal ++ "Item", pascal ++ "ItemInput"]
      shard := Template.Feed.shard
      routes := Template.Feed.routes
      handlers := ["list" ++ pascal ++ "ItemsHandler", "create" ++ pascal ++ "ItemHandler"] }

end PageKind

namespace Layout

variable (l : Layout) (n : Name)

/-- The page's entry in the bundle config. It is there if its key or its path is. -/
def entryWire : Except RunError Wire := do
  let path := l.entryPath n
  let bindings := (l.bindings n).set .entryPath path
  let plain ← fragment Template.BundleEntry.plain bindings
  let resolved ← fragment Template.BundleEntry.resolved bindings
  return {
    file := l.path .bundle
    insertion := {
      kind := .bundle
      markers := ["'" ++ n.kebab ++ "':", "\"" ++ n.kebab ++ "\":", path]
      imports := []
      fragment := Text.trimEnd plain }
    resolved := some (Text.trimEnd resolved) }

def dataEmissions (d : PageData) : Except RunError (List Emission) := do
  let hook ← l.emission n ((l.pageDir n).join ⟨d.hookFile⟩) d.hook
  let api ← l.emission n (l.apiModule n) d.api
  return [hook, api]

def dataWires (k : PageKind) (d : PageData) : Except RunError (List Wire) := do
  let schema ← l.schemaWire n d.schema d.schemaConstant
  let shard ← l.shardWire n d.shard k.label d.types
  let routes ← l.routesWire n d.routes ("/api/" ++ n.kebab) (l.apiModule n) d.handlers
  return [schema, shard, routes]

end Layout

namespace Recipe

def page (l : Layout) (n : Name) (k : PageKind) : Except RunError Recipe := do
  let dir := l.pageDir n
  let html ← l.emission n (dir.join ⟨"index.html"⟩) Template.Page.html
  let script ← l.emission n (dir.join ⟨"index.tsx"⟩) Template.Page.entry
  let app ← l.emission n (dir.join ⟨"App.tsx"⟩) k.appTemplate
  let entry ← l.entryWire n
  let opening := "Start the dev server and open /" ++ l.entryPath n ++ " to see the " ++ k.label ++
    " page"
  match k.data? n.pascal with
  | none => return ⟨[dir], [html, script, app], [entry], [opening]⟩
  | some d =>
    let more ← l.dataEmissions n d
    let wires ← l.dataWires n k d
    let middleware := "Make sure requests to /api/" ++ n.kebab ++
      " pass through middleware that sets `userId`"
    return ⟨[dir, l.apiModule n], html :: script :: app :: more, entry :: wires,
      [opening, middleware]⟩

end Recipe

end Scaffold
