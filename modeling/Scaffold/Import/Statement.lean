import Scaffold.Anchor.Shape
import Scaffold.Import.Entries

namespace Scaffold

structure ImportRequest where
  source : Text
  names : List Text
  typeOnly : Bool
deriving DecidableEq, Repr

namespace ImportRequest

def statement (r : ImportRequest) (quote : Char) : Text :=
  "import " ++ (if r.typeOnly then "type " else "") ++ "\x7b " ++ List.intercalate ", " r.names ++
    " \x7d from " ++ quote :: r.source ++ quote :: ";\n"

end ImportRequest

namespace Import

/-- A statement with a braced list, found in a text. `tail` is the text from the list on, and `rest`
what follows the statement. -/
structure Found where
  isType : Bool
  list : Text
  tail : Text
  rest : Text
deriving DecidableEq, Repr

def found? (source t : Text) : Option Found := do
  let t ← Shape.literal "import" t
  let t ← Shape.many isBlank t
  let typed := (Shape.literal "type" t).bind (Shape.many isBlank)
  let tail := typed.getD t
  let inner ← Shape.literal "\x7b" tail
  let body := inner.takeWhile (· != '}')
  let t ← Shape.literal "\x7d" (inner.drop body.length)
  let t ← Shape.literal "from" (Shape.blanks t)
  let t ← Shape.one Shape.isQuote (Shape.blanks t)
  let t ← Shape.literal source t
  let rest ← Shape.one Shape.isQuote t
  some ⟨typed.isSome, '{' :: body ++ ['}'], tail, rest⟩

theorem length_rest_of_found? {source t : Text} {f : Found} (h : found? source t = some f) :
    f.rest.length < t.length := by
  simp only [found?, Option.bind_eq_bind, Option.bind_eq_some_iff, Option.some.injEq] at h
  obtain ⟨t₁, h₁, t₂, h₂, t₃, h₃, t₄, h₄, t₅, h₅, t₆, h₆, t₇, h₇, t₈, h₈, rfl⟩ := h
  have l₁ := Shape.length_literal h₁
  have l₂ := Shape.length_many h₂
  have l₃ := Shape.length_literal h₃
  have l₄ := Shape.length_literal h₄
  have l₅ := Shape.length_literal h₅
  have l₆ := Shape.length_one h₆
  have l₇ := Shape.length_literal h₇
  have l₈ := Shape.length_one h₈
  have b₅ := Shape.length_blanks t₄
  have b₆ := Shape.length_blanks t₅
  have ht : (((Shape.literal "type" t₂).bind (Shape.many isBlank)).getD t₂).length ≤ t₂.length := by
    cases hu : (Shape.literal "type" t₂).bind (Shape.many isBlank) with
    | none => simp
    | some u =>
      obtain ⟨v, hv, hm⟩ := Option.bind_eq_some_iff.1 hu
      have := Shape.length_literal hv
      have := Shape.length_many hm
      simp only [Option.getD_some]
      omega
  simp only [List.length_drop] at l₄
  change t₈.length < t.length
  omega

/-- The statements that import a braced list from a module. Each begins a line, and the next is
looked for after its end. -/
def foundFrom (source : Text) (beginsLine : Bool) (t : Text) : List Found :=
  match t with
  | [] => []
  | c :: r =>
    if beginsLine then
      match _h : found? source (c :: r) with
      | some f => f :: foundFrom source false f.rest
      | none => foundFrom source (c == '\n') r
    else foundFrom source (c == '\n') r
termination_by t.length
decreasing_by
  · exact length_rest_of_found? _h
  · simp
  · simp

def statements (source t : Text) : List Found := foundFrom source true t

end Import

end Scaffold
