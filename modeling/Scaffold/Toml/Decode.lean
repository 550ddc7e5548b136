import Scaffold.Text.Line
import Scaffold.Text.Quoted
import Scaffold.Toml.Node

namespace Scaffold.Toml

inductive Problem where
  | unknownField (name : Text) (known : List Text)
  | wrongType (found expected : Text)
deriving DecidableEq, Repr

structure Mismatch where
  span : Span
  problem : Problem
deriving DecidableEq, Repr

namespace Problem

def ticked (t : Text) : Text := "`" ++ t ++ "`"

def message : Problem → Text
  | unknownField name known =>
    let choices := List.intercalate (if known.length = 2 then " or " else ", ") (known.map ticked)
    "unknown field " ++ ticked name ++ ", expected " ++
      (if known.length = 2 then "" else "one of ") ++ choices
  | wrongType found expected => "invalid type: " ++ found ++ ", expected " ++ expected

end Problem

def Node.described : Node → Text
  | string _ t => "string " ++ Text.quoted t
  | integer _ n => "integer " ++ Problem.ticked
      (if n < 0 then '-' :: Text.decimal n.natAbs else Text.decimal n.natAbs)
  | float _ t => "floating point " ++ Problem.ticked t
  | boolean _ b => "boolean " ++ Problem.ticked (if b then "true" else "false")
  | array _ _ _ => "sequence"
  | moment _ | table _ _ _ => "map"

structure RecordShape (F : Type) where
  fields : List F
  key : F → Text
  fieldNoun : Text
  noun : Text

/-- The key under which a date or a time would keep its text. -/
def momentKey : Text := "$__toml_private_datetime"

namespace RecordShape

variable {F : Type} [DecidableEq F] (shape : RecordShape F)

def unknown (span : Span) (name : Text) : Mismatch :=
  ⟨span, .unknownField name (shape.fields.map shape.key)⟩

/-- Sets one field. A value without a place of its own is told by its key. -/
def set (values : F → Text) (f : F) (n : Node) (span : Span) : Except Mismatch (F → Text) :=
  match n with
  | .string _ t => .ok fun g => if g = f then t else values g
  | n => .error ⟨n.span?.getD span, .wrongType n.described shape.fieldNoun⟩

/-- The values that a node gives to the fields of a record, upon those they had: a table by its
keys, or an array in the order of the fields. -/
def read (values : F → Text) (n : Node) (span : Span) : Except Mismatch (F → Text) :=
  match n with
  | .table _ _ entries =>
    entries.foldlM (fun values (k, v) =>
      match shape.fields.find? fun f => shape.key f == k.text with
      | some f => shape.set values f v k.span
      | none => .error (shape.unknown k.span k.text)) values
  | .array _ _ items =>
    (shape.fields.zip items).foldlM (fun values (f, v) => shape.set values f v span) values
  | .moment s => .error (shape.unknown s momentKey)
  | n => .error ⟨n.span?.getD span, .wrongType n.described shape.noun⟩

end RecordShape

def excerpt (document : Text) (span : Span) (message : Text) : Text :=
  let place : Cut := ⟨Text.takeBytes span.start document, Text.dropBytes span.start document⟩
  let column := place.lineHead.length
  let line := place.lineHead ++ place.after.takeWhile (· != '\n')
  let number := Text.decimal (place.before.count '\n' + 1)
  let gutter : Text := List.replicate (number.length + 1) ' '
  let marks := max 1 (min (span.stop - span.start) (Text.bytes line - column))
  "TOML parse error at line " ++ number ++ ", column " ++ Text.decimal (column + 1) ++ "\n" ++
    gutter ++ "|\n" ++
    number ++ " | " ++ line ++ "\n" ++
    gutter ++ "| " ++ List.replicate column ' ' ++ List.replicate marks '^' ++ "\n" ++
    message ++ "\n"

def Mismatch.message (document : Text) (m : Mismatch) : Text :=
  excerpt document m.span m.problem.message

end Scaffold.Toml
