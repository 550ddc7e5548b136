import Scaffold.Template.Page
import Scaffold.Template.Dashboard
import Scaffold.Template.Feed
import Scaffold.Template.Table
import Scaffold.Template.Webhook

namespace Scaffold.Template

namespace BundleEntry

open Slot

def resolved : Template where
  name := "vite/entry_resolve.tmpl"
  lines := [
    ["'", kebab, "': resolve(__dirname, '", entryPath, "')"]]

def plain : Template where
  name := "vite/entry_plain.tmpl"
  lines := [
    ["'", kebab, "': '", entryPath, "'"]]

end BundleEntry

def catalog : List Template :=
  [Page.html, Page.entry, Page.staticApp, Dashboard.app, Dashboard.hook, Dashboard.api,
    Dashboard.schema, Dashboard.routes, Dashboard.shard, Feed.app, Feed.hook, Feed.api,
    Feed.schema, Feed.routes, Feed.shard, Table.schema, Table.shard, Webhook.handler,
    Webhook.schema, Webhook.routes, BundleEntry.resolved, BundleEntry.plain]

def named? (name : Text) : Option Template := catalog.find? (·.name == name)

end Scaffold.Template
