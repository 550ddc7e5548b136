import Scaffold.Proofs.Recipe.Listed
import Scaffold.Proofs.Template.Exchange

namespace Scaffold

open Scaffold.Symbol (ofText)

structure Draft where
  stem : Line
  extension : Text
  template : Template
deriving DecidableEq

structure Service where
  dir : PathField
  template : Template
  routes : Template
  route : Text
  handlers : List Line

namespace Service

variable (s : Service)

def path : List Symbol := ofText s.route ++ [.slot .kebab]

end Service

namespace Product

open Slot

def hook? : Product → Option Draft
  | page .dashboard => some ⟨["use", pascal, "Stats"], "ts", Template.Dashboard.hook⟩
  | page .feed => some ⟨["use", pascal, "Items"], "ts", Template.Feed.hook⟩
  | _ => none

def drafts (p : Product) : List Draft :=
  match p with
  | page k => [⟨"index", "html", Template.Page.html⟩, ⟨"index", "tsx", Template.Page.entry⟩,
      ⟨"App", "tsx", k.appTemplate⟩] ++ p.hook?.toList
  | _ => []

def service? : Product → Option Service
  | page .dashboard => some ⟨.apiDir, Template.Dashboard.api, Template.Dashboard.routes, "/api/",
      [["get", pascal, "StatsHandler"]]⟩
  | page .feed => some ⟨.apiDir, Template.Feed.api, Template.Feed.routes, "/api/",
      [["list", pascal, "ItemsHandler"], ["create", pascal, "ItemHandler"]]⟩
  | webhook => some ⟨.webhooksDir, Template.Webhook.handler, Template.Webhook.routes, "/webhooks/",
      [["handle", pascal, "Webhook"]]⟩
  | _ => none

def fileTemplates (p : Product) : List Template :=
  p.drafts.map (·.template) ++ p.service?.toList.map (·.template)

end Product

def packages : List Text := ["hono", "solid-js", "solid-js/web", "zod"]

/-- What is imported is in a package, in the schema of the product, in the shard, or in one of the
drafts, which then are next to the file that imports it. -/
def Symbol.Request.IsMet (p : Product) (drafts : List Draft) (q : Symbol.Request) : Prop :=
  q.source ∈ packages.map ofText ∨
    (q.source = [.slot .schemasModule] ∧ q.names ⊆ p.exportNames.map Line.symbols) ∨
    (q.source = [.slot .shardModule] ∧ q.names = [[.slot .shardClass]]) ∨
    ∃ d ∈ drafts, q.source = ofText "./" ++ d.stem.symbols ∧ q.names ⊆ d.template.exports ∧
      ∀ x ∈ q.names, Symbol.slots x ⊆ Slot.cased

instance (p : Product) (drafts : List Draft) (q : Symbol.Request) : Decidable (q.IsMet p drafts) :=
  inferInstanceAs (Decidable (_ ∨ _ ∨ _ ∨ _))

def Line.IsMet (p : Product) (drafts : List Draft) (line : Line) : Prop :=
  Symbol.strays (ofText "import ") line.symbols = true ∨
    ∃ q ∈ (Symbol.request? line.symbols).toList, q.IsMet p drafts ∧ (line.symbols = q.line ∨
      q.names = [ofText "default"] ∧
        line.symbols = ofText "import App from '" ++ q.source ++ ofText "';")

instance (p : Product) (drafts : List Draft) (line : Line) : Decidable (line.IsMet p drafts) :=
  inferInstanceAs (Decidable (_ ∨ _))

namespace Product

theorem of_files : ∀ p ∈ all,
    (∀ d ∈ p.drafts, ∀ line ∈ d.template.lines, line.IsMet p p.drafts) ∧
    ∀ s ∈ p.service?.toList, ∀ line ∈ s.template.lines, line.IsMet p [] := by
  unfold drafts service? hook? PageKind.appTemplate Template.Page.html Template.Page.entry
    Template.Page.staticApp Template.Dashboard.app Template.Dashboard.hook Template.Dashboard.api
    Template.Feed.app Template.Feed.hook Template.Feed.api Template.Webhook.handler
    Template.Webhook.handlerImports Template.Webhook.handlerVerify Template.Webhook.handlerRespond
  simp (disch := with_reducible rfl) only [Text.toList_eq]
  decide +kernel

theorem of_fileTemplates : ∀ p ∈ all,
    (∀ t ∈ p.fileTemplates, t.calls ⊆ p.memberNames.map Line.symbols) ∧
    ∀ t ∈ p.fileTemplates, ∀ f ∈ t.fetches, ∃ s ∈ p.service?.toList, f = s.path := by
  unfold fileTemplates drafts service? hook? PageKind.appTemplate Template.Page.html
    Template.Page.entry Template.Page.staticApp Template.Dashboard.app Template.Dashboard.hook
    Template.Dashboard.api Template.Feed.app Template.Feed.hook Template.Feed.api
    Template.Webhook.handler Template.Webhook.handlerImports Template.Webhook.handlerVerify
    Template.Webhook.handlerRespond
  simp (disch := with_reducible rfl) only [Text.toList_eq]
  decide +kernel

theorem of_services : ∀ p ∈ all, ∀ s ∈ p.service?.toList, s.handlers ≠ [] ∧
    (∀ h ∈ s.handlers, h.symbols ∈ s.template.exports ∧ Symbol.slots h.symbols ⊆ Slot.cased) ∧
    s.routes.TellsRoutes ∧
    s.routes.registrations = s.handlers.map fun h => (s.path, h.symbols) := by
  unfold service? Template.Dashboard.api Template.Dashboard.routes Template.Feed.api
    Template.Feed.routes Template.Webhook.handler Template.Webhook.handlerImports
    Template.Webhook.handlerVerify Template.Webhook.handlerRespond Template.Webhook.routes
  simp (disch := with_reducible rfl) only [Text.toList_eq]
  decide +kernel

theorem of_hooks : ∀ k ∈ PageKind.all, ∀ d ∈ (page k).hook?.toList, d.template.fetches ≠ [] ∧
    ∃ x ∈ d.template.exports, Symbol.slots x ⊆ Slot.cased ∧ ∃ line ∈ k.appTemplate.lines,
      line.symbols = Symbol.Request.line ⟨ofText "./" ++ d.stem.symbols, [x], false⟩ := by
  unfold hook? PageKind.appTemplate Template.Dashboard.app Template.Dashboard.hook Template.Feed.app
    Template.Feed.hook
  simp (disch := with_reducible rfl) only [Text.toList_eq]
  decide +kernel

theorem calls_of_services : ∀ k ∈ PageKind.all, ∀ s ∈ (page k).service?.toList,
    s.template.calls ≠ [] := by
  unfold service? Template.Dashboard.api Template.Feed.api
  simp (disch := with_reducible rfl) only [Text.toList_eq]
  decide +kernel

theorem slots_names : ∀ p ∈ all, (∀ d ∈ p.drafts, Symbol.slots d.stem.symbols ⊆ Slot.cased) ∧
    ∀ f ∈ p.exportNames ++ p.memberNames, Symbol.slots f.symbols ⊆ Slot.cased := by
  decide +kernel

theorem stem_drafts : ∀ p ∈ all, ∀ d ∈ p.drafts,
    d.stem.symbols.head? ∈ ['i', 'A', 'u'].map (fun c => some (.char c)) ∧
      .char '/' ∉ d.stem.symbols ∧ '.' ∉ d.extension ∧ '/' ∉ d.extension := by
  decide +kernel

end Product

end Scaffold
