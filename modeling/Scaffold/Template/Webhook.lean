import Scaffold.Template.Basic

namespace Scaffold.Template.Webhook

open Slot

def handlerImports : List Line := [
  "import type \x7b Context \x7d from 'hono';",
  ["import \x7b ", pascal, "EventSchema \x7d from '", schemasModule, "';"],
  [],
  "type WebhookEnv = \x7b",
  ["  Bindings: \x7b ", screaming, "_WEBHOOK_SECRET: string \x7d;"],
  "\x7d;"]

def handlerVerify : List Line := [
  [],
  ["async function verifySignature(secret: string, payload: string, ",
    "signature: string | undefined) \x7b"],
  "  if (!signature) return false;",
  "  const key = await crypto.subtle.importKey(",
  "    'raw',",
  "    new TextEncoder().encode(secret),",
  "    \x7b name: 'HMAC', hash: 'SHA-256' \x7d,",
  "    false,",
  "    ['sign'],",
  "  );",
  "  const mac = await crypto.subtle.sign('HMAC', key, new TextEncoder().encode(payload));",
  ["  const expected = [...new Uint8Array(mac)].map((b) => ",
    "b.toString(16).padStart(2, '0')).join('');"],
  "  return expected === signature.replace(/^sha256=/, '');",
  "\x7d"]

def handlerRespond : List Line := [
  [],
  ["export async function handle", pascal, "Webhook(c: Context<WebhookEnv>) \x7b"],
  "  const payload = await c.req.text();",
  "  const ok = await verifySignature(",
  ["    c.env.", screaming, "_WEBHOOK_SECRET,"],
  "    payload,",
  "    c.req.header('x-signature'),",
  "  );",
  "  if (!ok) \x7b",
  "    return c.json(\x7b error: 'invalid signature' \x7d, 401);",
  "  \x7d",
  [],
  ["  const parsed = ", pascal, "EventSchema.safeParse(JSON.parse(payload));"],
  "  if (!parsed.success) \x7b",
  "    return c.json(\x7b error: parsed.error.flatten() \x7d, 400);",
  "  \x7d",
  [],
  "  // Event-specific processing goes here.",
  ["  console.log('", kebab, " webhook', parsed.data.type, parsed.data.id);"],
  [],
  "  return c.json(\x7b received: true \x7d);",
  "\x7d"]

def handler : Template where
  name := "webhook/handler.ts.tmpl"
  lines := handlerImports ++ handlerVerify ++ handlerRespond

def schema : Template where
  name := "webhook/schema.ts.tmpl"
  lines := [
    ["export const ", pascal, "EventSchema = z.object(\x7b"],
    "  id: z.string(),",
    "  type: z.string(),",
    "  createdAt: z.string().datetime().optional(),",
    "  data: z.record(z.unknown()),",
    "\x7d);",
    ["export type ", pascal, "Event = z.infer<typeof ", pascal, "EventSchema>;"]]

def routes : Template where
  name := "webhook/routes.ts.tmpl"
  lines := [
    ["// ", kebab, " webhook"],
    ["app.post('/webhooks/", kebab, "', handle", pascal, "Webhook);"]]

end Scaffold.Template.Webhook
