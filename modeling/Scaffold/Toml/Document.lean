import Scaffold.Toml.Value

namespace Scaffold.Toml

structure Header where
  isArray : Bool
  path : List Key
  last : Key
  span : Span

inductive Statement where
  | assign (keys : List Key) (v : Node)
  | header (h : Header)

open Reader

def header : Reader Header := do
  let start ← offset
  let isArray ← taking "[["
  unless isArray do expect "["
  blanks
  let keys ← dottedKey
  blanks
  expect (if isArray then "]]" else "]")
  let last ← ofOption keys.getLast?
  return ⟨isArray, keys.dropLast, last, start, ← offset⟩

def statement? : Reader (Option Statement) := do
  match ← peek? with
  | none => return none
  | some '[' => return some (.header (← header))
  | some c =>
    if c = '#' ∨ c = '\n' ∨ c = '\r' then return none
    else
      let (keys, v) ← keyValue (value maxDepth)
      return some (.assign keys v)

def statements : Reader (List Statement) := do
  let _ ← taking "\ufeff"
  let lines ← many do
    if (← rest).isEmpty then return none
    blanks
    let s ← statement?
    blanks
    comment
    unless ← newline do
      unless (← rest).isEmpty do fail
    return some s
  return lines.reduceOption

structure Draft where
  root : Entries
  header? : Option Header
  entries : Entries

namespace Draft

/-- The table being filled, put in its place. A table that was only implied moves to the end. -/
def close? (d : Draft) : Option Entries :=
  match d.header? with
  | none => some d.entries
  | some h =>
    let table := Node.table (some h.span) .header d.entries
    let put (_ : Form) (es : Entries) : Option (Unit × Entries) :=
      if !h.isArray then some ((), es ++ [(h.last, table)])
      else match Entries.get? es h.last.text with
        | none => some ((), es ++ [(h.last, .array h.span true [table])])
        | some (.array span true tables) =>
          some ((), Entries.replace es h.last.text (.array span true (tables ++ [table])))
        | some _ => none
    (Entries.alter? false put h.path .header d.root).map Prod.snd

/-- Begins the table of a header. Its entries are those it has by implication. -/
def open? (root : Entries) (h : Header) : Option Draft := do
  let take (_ : Form) (es : Entries) : Option (Entries × Entries) :=
    match Entries.get? es h.last.text, h.isArray with
    | none, _ => some ([], es)
    | some (.array _ true _), true => some ([], es)
    | some (.table _ .implied inner), false => some (inner, Entries.erase es h.last.text)
    | _, _ => none
  let (entries, root) ← Entries.alter? false take h.path .header root
  some ⟨root, some h, entries⟩

def add? (d : Draft) : Statement → Option Draft
  | .assign keys v => do
    let entries ← Entries.assign? d.entries .header keys v
    some { d with entries }
  | .header h => do open? (← d.close?) h

end Draft

def parse? (t : Text) : Option Entries := do
  let (lines, last) ← statements.run ⟨0, t⟩
  if !last.rest.isEmpty then none
  let draft ← lines.foldlM Draft.add? ⟨[], none, []⟩
  draft.close?

end Scaffold.Toml
