import Scaffold.Template.Basic

namespace Scaffold.Template.Dashboard

open Slot

def app : Template where
  name := "page/dashboard/App.tsx.tmpl"
  lines := [
    "import \x7b Show \x7d from 'solid-js';",
    ["import \x7b use", pascal, "Stats \x7d from './use", pascal, "Stats';"],
    [],
    "export default function App() \x7b",
    ["  const [stats, \x7b refetch \x7d] = use", pascal, "Stats();"],
    [],
    "  return (",
    ["    <main class=\"page page-", kebab, "\">"],
    "      <header>",
    ["        <h1>", title, "</h1>"],
    "        <button type=\"button\" onClick=\x7b() => refetch()\x7d>",
    "          Refresh",
    "        </button>",
    "      </header>",
    "      <Show when=\x7bstats()\x7d fallback=\x7b<p>Loading…</p>\x7d>",
    "        \x7b(s) => (",
    "          <dl>",
    "            <dt>Total</dt>",
    "            <dd>\x7bs().total\x7d</dd>",
    "            <dt>Updated</dt>",
    "            <dd>\x7bnew Date(s().updatedAt).toLocaleString()\x7d</dd>",
    "          </dl>",
    "        )\x7d",
    "      </Show>",
    "    </main>",
    "  );",
    "\x7d"]

def hook : Template where
  name := "page/dashboard/hook.ts.tmpl"
  lines := [
    "import \x7b createResource \x7d from 'solid-js';",
    ["import type \x7b ", pascal, "Stats \x7d from '", schemasModule, "';"],
    [],
    ["async function fetch", pascal, "Stats(): Promise<", pascal, "Stats> \x7b"],
    ["  const res = await fetch('/api/", kebab, "', \x7b credentials: 'include' \x7d);"],
    "  if (!res.ok) \x7b",
    ["    throw new Error(`GET /api/", kebab, " failed: $\x7bres.status\x7d`);"],
    "  \x7d",
    "  return res.json();",
    "\x7d",
    [],
    ["export function use", pascal, "Stats() \x7b"],
    ["  return createResource(fetch", pascal, "Stats);"],
    "\x7d"]

def api : Template where
  name := "page/dashboard/api.ts.tmpl"
  lines := [
    "import type \x7b Context \x7d from 'hono';",
    ["import \x7b ", pascal, "StatsSchema \x7d from '", schemasModule, "';"],
    ["import type \x7b ", shardClass, " \x7d from '", shardModule, "';"],
    [],
    "type AppEnv = \x7b",
    ["  Bindings: \x7b ", shardBinding, ": DurableObjectNamespace<", shardClass, "> \x7d;"],
    "  Variables: \x7b userId: string \x7d;",
    "\x7d;",
    [],
    "function shardFor(c: Context<AppEnv>) \x7b",
    ["  const id = c.env.", shardBinding, ".idFromName(c.get('userId'));"],
    ["  return c.env.", shardBinding, ".get(id);"],
    "\x7d",
    [],
    ["export async function get", pascal, "StatsHandler(c: Context<AppEnv>) \x7b"],
    ["  const stats = await shardFor(c).get", pascal, "Stats();"],
    ["  return c.json(", pascal, "StatsSchema.parse(stats));"],
    "\x7d"]

def schema : Template where
  name := "page/dashboard/schema.ts.tmpl"
  lines := [
    ["export const ", pascal, "StatsSchema = z.object(\x7b"],
    "  total: z.number().int().nonnegative(),",
    "  updatedAt: z.string().datetime(),",
    "\x7d);",
    ["export type ", pascal, "Stats = z.infer<typeof ", pascal, "StatsSchema>;"]]

def routes : Template where
  name := "page/dashboard/routes.ts.tmpl"
  lines := [
    ["// ", kebab],
    ["app.get('/api/", kebab, "', get", pascal, "StatsHandler);"]]

def shard : Template where
  name := "page/dashboard/shard.ts.tmpl"
  lines := [
    ["  ", marker],
    ["  async get", pascal, "Stats(): Promise<", pascal, "Stats> \x7b"],
    ["    const stored = await this.ctx.storage.get<", pascal, "Stats>('", kebab, ":stats');"],
    "    return stored ?? \x7b total: 0, updatedAt: new Date().toISOString() \x7d;",
    "  \x7d"]

end Scaffold.Template.Dashboard
