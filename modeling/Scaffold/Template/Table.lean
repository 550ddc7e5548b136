import Scaffold.Template.Basic

namespace Scaffold.Template.Table

open Slot

def schema : Template where
  name := "table/schema.ts.tmpl"
  lines := [
    ["export const ", pascal, "RowSchema = z.object(\x7b"],
    "  id: z.string(),",
    "  data: z.record(z.unknown()),",
    "  createdAt: z.number().int(),",
    "  updatedAt: z.number().int(),",
    "\x7d);",
    ["export type ", pascal, "Row = z.infer<typeof ", pascal, "RowSchema>;"]]

def shardName : List Line := [
  ["  ", marker],
  ["  static readonly ", screaming, "_ROWS_TABLE = '", snake, "_rows';"]]

def shardTable : List Line := [
  [],
  ["  #ensure", pascal, "RowsTable() \x7b"],
  "    this.ctx.storage.sql.exec(",
  ["      `CREATE TABLE IF NOT EXISTS ", snake, "_rows ("],
  "        id TEXT PRIMARY KEY,",
  "        data TEXT NOT NULL,",
  "        created_at INTEGER NOT NULL,",
  "        updated_at INTEGER NOT NULL",
  "      )`,",
  "    );",
  "  \x7d"]

def shardToRow : List Line := [
  [],
  ["  #to", pascal,
    "Row(row: \x7b id: string; data: string; created_at: number; updated_at: number \x7d): ",
    pascal, "Row \x7b"],
  "    return \x7b",
  "      id: row.id,",
  "      data: JSON.parse(row.data),",
  "      createdAt: row.created_at,",
  "      updatedAt: row.updated_at,",
  "    \x7d;",
  "  \x7d"]

def shardPut : List Line := [
  [],
  ["  async put", pascal, "Row(id: string, data: Record<string, unknown>): Promise<", pascal,
    "Row> \x7b"],
  ["    this.#ensure", pascal, "RowsTable();"],
  "    const now = Date.now();",
  "    this.ctx.storage.sql.exec(",
  ["      `INSERT INTO ", snake, "_rows (id, data, created_at, updated_at) VALUES (?, ?, ?, ?)"],
  ["       ON CONFLICT(id) DO UPDATE SET data = excluded.data, updated_at ",
    "= excluded.updated_at`,"],
  "      id,",
  "      JSON.stringify(data),",
  "      now,",
  "      now,",
  "    );",
  ["    return (await this.get", pascal, "Row(id))!;"],
  "  \x7d"]

def shardGet : List Line := [
  [],
  ["  async get", pascal, "Row(id: string): Promise<", pascal, "Row | null> \x7b"],
  ["    this.#ensure", pascal, "RowsTable();"],
  "    const rows = this.ctx.storage.sql",
  "      .exec<\x7b id: string; data: string; created_at: number; updated_at: number \x7d>(",
  ["        'SELECT id, data, created_at, updated_at FROM ", snake, "_rows WHERE id = ?',"],
  "        id,",
  "      )",
  "      .toArray();",
  ["    return rows.length ? this.#to", pascal, "Row(rows[0]) : null;"],
  "  \x7d"]

def shardList : List Line := [
  [],
  ["  async list", pascal, "Rows(limit = 50): Promise<", pascal, "Row[]> \x7b"],
  ["    this.#ensure", pascal, "RowsTable();"],
  "    return this.ctx.storage.sql",
  "      .exec<\x7b id: string; data: string; created_at: number; updated_at: number \x7d>(",
  ["        'SELECT id, data, created_at, updated_at FROM ", snake,
    "_rows ORDER BY updated_at DESC LIMIT ?',"],
  "        limit,",
  "      )",
  "      .toArray()",
  ["      .map((row) => this.#to", pascal, "Row(row));"],
  "  \x7d"]

def shardDelete : List Line := [
  [],
  ["  async delete", pascal, "Row(id: string): Promise<boolean> \x7b"],
  ["    this.#ensure", pascal, "RowsTable();"],
  ["    const cursor = this.ctx.storage.sql.exec('DELETE FROM ", snake,
    "_rows WHERE id = ?', id);"],
  "    return cursor.rowsWritten > 0;",
  "  \x7d"]

def shard : Template where
  name := "table/shard.ts.tmpl"
  lines := shardName ++ shardTable ++ shardToRow ++ shardPut ++ shardGet ++ shardList ++ shardDelete

end Scaffold.Template.Table
