import Scaffold.Template.Basic

namespace Scaffold.Template.Feed

open Slot

def app : Template where
  name := "page/feed/App.tsx.tmpl"
  lines := [
    "import \x7b For, Show, createSignal \x7d from 'solid-js';",
    ["import \x7b use", pascal, "Items \x7d from './use", pascal, "Items';"],
    [],
    "export default function App() \x7b",
    ["  const \x7b items, post \x7d = use", pascal, "Items();"],
    "  const [draft, setDraft] = createSignal('');",
    [],
    "  const submit = async (e: SubmitEvent) => \x7b",
    "    e.preventDefault();",
    "    const body = draft().trim();",
    "    if (!body) return;",
    "    await post(body);",
    "    setDraft('');",
    "  \x7d;",
    [],
    "  return (",
    ["    <main class=\"page page-", kebab, "\">"],
    ["      <h1>", title, "</h1>"],
    "      <form onSubmit=\x7bsubmit\x7d>",
    ["        <input value=\x7bdraft()\x7d onInput=\x7b(e) => ",
      "setDraft(e.currentTarget.value)\x7d />"],
    "        <button type=\"submit\">Post</button>",
    "      </form>",
    "      <Show when=\x7bitems()\x7d fallback=\x7b<p>Loading…</p>\x7d>",
    "        <ul>",
    "          <For each=\x7bitems()\x7d>\x7b(item) => <li>\x7bitem.body\x7d</li>\x7d</For>",
    "        </ul>",
    "      </Show>",
    "    </main>",
    "  );",
    "\x7d"]

def hook : Template where
  name := "page/feed/hook.ts.tmpl"
  lines := [
    "import \x7b createResource \x7d from 'solid-js';",
    ["import type \x7b ", pascal, "Item \x7d from '", schemasModule, "';"],
    [],
    ["async function fetch", pascal, "Items(): Promise<", pascal, "Item[]> \x7b"],
    ["  const res = await fetch('/api/", kebab, "', \x7b credentials: 'include' \x7d);"],
    "  if (!res.ok) \x7b",
    ["    throw new Error(`GET /api/", kebab, " failed: $\x7bres.status\x7d`);"],
    "  \x7d",
    "  return res.json();",
    "\x7d",
    [],
    ["export function use", pascal, "Items() \x7b"],
    ["  const [items, \x7b refetch \x7d] = createResource(fetch", pascal, "Items);"],
    [],
    "  const post = async (body: string) => \x7b",
    ["    const res = await fetch('/api/", kebab, "', \x7b"],
    "      method: 'POST',",
    "      credentials: 'include',",
    "      headers: \x7b 'content-type': 'application/json' \x7d,",
    "      body: JSON.stringify(\x7b body \x7d),",
    "    \x7d);",
    "    if (!res.ok) \x7b",
    ["      throw new Error(`POST /api/", kebab, " failed: $\x7bres.status\x7d`);"],
    "    \x7d",
    "    await refetch();",
    "  \x7d;",
    [],
    "  return \x7b items, post \x7d;",
    "\x7d"]

def api : Template where
  name := "page/feed/api.ts.tmpl"
  lines := [
    "import type \x7b Context \x7d from 'hono';",
    ["import \x7b ", pascal, "ItemInputSchema \x7d from '", schemasModule, "';"],
    ["import type \x7b ", shardClass, " \x7d from '", shardModule, "';"],
    [],
    "type AppEnv = \x7b",
    ["  Bindings: \x7b ", shardBinding, ": DurableObjectNamespace<", shardClass, "> \x7d;"],
    "  Variables: \x7b userId: string \x7d;",
    "\x7d;",
    [],
    "function shardFor(c: Context<AppEnv>) \x7b",
    ["  const id = c.env.", shardBinding, ".idFromName(c.get('userId'));"],
    ["  return c.env.", shardBinding, ".get(id);"],
    "\x7d",
    [],
    ["export async function list", pascal, "ItemsHandler(c: Context<AppEnv>) \x7b"],
    "  const limit = Math.min(Number(c.req.query('limit') ?? 20), 100);",
    "  const before = c.req.query('before');",
    ["  const items = await shardFor(c).list", pascal,
      "Items(limit, before ? Number(before) : undefined);"],
    "  return c.json(items);",
    "\x7d",
    [],
    ["export async function create", pascal, "ItemHandler(c: Context<AppEnv>) \x7b"],
    ["  const parsed = ", pascal, "ItemInputSchema.safeParse(await c.req.json());"],
    "  if (!parsed.success) \x7b",
    "    return c.json(\x7b error: parsed.error.flatten() \x7d, 400);",
    "  \x7d",
    ["  const item = await shardFor(c).add", pascal, "Item(parsed.data);"],
    "  return c.json(item, 201);",
    "\x7d"]

def schema : Template where
  name := "page/feed/schema.ts.tmpl"
  lines := [
    ["export const ", pascal, "ItemInputSchema = z.object(\x7b"],
    "  body: z.string().min(1).max(2000),",
    "\x7d);",
    ["export const ", pascal, "ItemSchema = ", pascal, "ItemInputSchema.extend(\x7b"],
    "  id: z.number().int(),",
    "  createdAt: z.number().int(),",
    "\x7d);",
    ["export type ", pascal, "ItemInput = z.infer<typeof ", pascal, "ItemInputSchema>;"],
    ["export type ", pascal, "Item = z.infer<typeof ", pascal, "ItemSchema>;"]]

def routes : Template where
  name := "page/feed/routes.ts.tmpl"
  lines := [
    ["// ", kebab],
    ["app.get('/api/", kebab, "', list", pascal, "ItemsHandler);"],
    ["app.post('/api/", kebab, "', create", pascal, "ItemHandler);"]]

def shardTable : List Line := [
  ["  ", marker],
  ["  #ensure", pascal, "FeedTable() \x7b"],
  "    this.ctx.storage.sql.exec(",
  ["      `CREATE TABLE IF NOT EXISTS ", snake, "_feed_items ("],
  "        id INTEGER PRIMARY KEY AUTOINCREMENT,",
  "        body TEXT NOT NULL,",
  "        created_at INTEGER NOT NULL",
  "      )`,",
  "    );",
  "  \x7d"]

def shardList : List Line := [
  [],
  ["  async list", pascal, "Items(limit = 20, before?: number): Promise<", pascal,
    "Item[]> \x7b"],
  ["    this.#ensure", pascal, "FeedTable();"],
  "    const cursor = before ?? Number.MAX_SAFE_INTEGER;",
  "    return this.ctx.storage.sql",
  "      .exec<\x7b id: number; body: string; created_at: number \x7d>(",
  ["        'SELECT id, body, created_at FROM ", snake,
    "_feed_items WHERE id < ? ORDER BY id DESC LIMIT ?',"],
  "        cursor,",
  "        limit,",
  "      )",
  "      .toArray()",
  "      .map((row) => (\x7b id: row.id, body: row.body, createdAt: row.created_at \x7d));",
  "  \x7d"]

def shardAdd : List Line := [
  [],
  ["  async add", pascal, "Item(input: ", pascal, "ItemInput): Promise<", pascal, "Item> \x7b"],
  ["    this.#ensure", pascal, "FeedTable();"],
  "    const createdAt = Date.now();",
  "    const row = this.ctx.storage.sql",
  "      .exec<\x7b id: number \x7d>(",
  ["        'INSERT INTO ", snake, "_feed_items (body, created_at) VALUES (?, ?) RETURNING id',"],
  "        input.body,",
  "        createdAt,",
  "      )",
  "      .one();",
  "    return \x7b id: row.id, body: input.body, createdAt \x7d;",
  "  \x7d"]

def shard : Template where
  name := "page/feed/shard.ts.tmpl"
  lines := shardTable ++ shardList ++ shardAdd

end Scaffold.Template.Feed
