import Scaffold.Toml.Build
import Scaffold.Toml.Literal
import Scaffold.Toml.Scalar

namespace Scaffold.Toml

open Reader

def isBareKey (c : Char) : Bool := c.isAlphanum || c == '_' || c == '-'

def simpleKey : Reader Key := do
  let start ← offset
  match ← Literal.read? false with
  | some t => return ⟨t, start, ← offset⟩
  | none =>
    let t ← takeWhile isBareKey
    if t.isEmpty then fail else return ⟨t, start, ← offset⟩

def dottedKey : Reader (List Key) := do
  let first ← simpleKey
  let others ← many do
    blanks
    if ← taking "." then
      blanks
      return some (← simpleKey)
    else return none
  if others.length < maxDepth then return first :: others else fail

def items {α : Type} (close : Text) (item : Reader α) : Reader (List α) := do
  gaps
  if ← taking close then return []
  let first ← item
  let others ← many do
    gaps
    if ← taking close then return none
    expect ","
    gaps
    if ← taking close then return none
    return some (← item)
  return first :: others

def keyValue (value : Reader Node) : Reader (List Key × Node) := do
  let keys ← dottedKey
  blanks
  expect "="
  blanks
  return (keys, ← value)

def plainValue : Reader Node := do
  let start ← offset
  match ← Literal.read? true with
  | some t => return .string ⟨start, ← offset⟩ t
  | none => Scalar.read

def value : Nat → Reader Node
  | 0 => plainValue
  | depth + 1 => do
    let start ← offset
    if ← taking "[" then
      let parts ← items "]" (value depth)
      return .array ⟨start, ← offset⟩ false parts
    else if ← taking "\x7b" then
      let parts ← items "\x7d" (keyValue (value depth))
      let entries ← ofOption <|
        parts.foldlM (fun es (keys, v) => Entries.assign? es .inline keys v) []
      return .table (some ⟨start, ← offset⟩) .inline entries
    else plainValue

end Scaffold.Toml
