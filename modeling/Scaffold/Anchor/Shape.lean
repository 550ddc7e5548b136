import Scaffold.Text.Line
import Scaffold.Text.Word

namespace Scaffold

/-- A shape reads the beginning of a text and gives what follows it, or nothing where the text
begins otherwise. -/
abbrev Shape := Text → Option Text

namespace Shape

def literal (word : Text) : Shape := fun t =>
  if word.isPrefixOf t then some (t.drop word.length) else none

def one (p : Char → Bool) : Shape
  | [] => none
  | c :: t => if p c then some t else none

def many (p : Char → Bool) : Shape := fun t => (one p t).map (·.dropWhile p)

def blanks (t : Text) : Text := Text.trimStart t

theorem length_literal {word t u : Text} (h : literal word t = some u) :
    u.length ≤ t.length := by
  unfold literal at h
  split at h
  · cases h; simp
  · cases h

theorem length_one {p : Char → Bool} {t u : Text} (h : one p t = some u) :
    u.length < t.length := by
  unfold one at h
  split at h
  · cases h
  · split at h
    · cases h; simp
    · cases h

theorem length_many {p : Char → Bool} {t u : Text} (h : many p t = some u) :
    u.length < t.length := by
  obtain ⟨v, hv, rfl⟩ := Option.map_eq_some_iff.1 h
  exact Nat.lt_of_le_of_lt (List.dropWhile_sublist _).length_le (length_one hv)

theorem length_blanks (t : Text) : (blanks t).length ≤ t.length :=
  (List.dropWhile_sublist _).length_le

def indent (t : Text) : Text := t.dropWhile fun c => c == ' ' || c == '\t'

def modifier (word : Text) (t : Text) : Text := ((literal word t).bind (many isBlank)).getD t

def isQuote (c : Char) : Bool := c == '\'' || c == '"'

def isLiteralQuote (c : Char) : Bool := isQuote c || c == '\x60'

def inputMapping : Shape := fun t => do
  let t ← literal "input" t
  let t ← literal ":" (blanks t)
  let t ← literal "\x7b" (blanks t)
  let t := t.dropWhile fun c => c != '{' && c != '}'
  if t.head? = some '}' then some t else none

def starPath : Shape := fun t => do
  let t ← one isLiteralQuote (blanks t)
  let t ← literal "*" ((literal "/" t).getD t)
  one isLiteralQuote t

/-- A route that takes every request: `get` or `all` of a star path, or `notFound`, of any object.
Middleware under a star path runs before the routes and is none. -/
def catchAllRoute : Shape := fun t => do
  let t ← many isWord (indent t)
  let t ← literal "." t
  ((literal "get(" t).bind starPath).or <|
    ((literal "all(" t).bind starPath).or (literal "notFound(" t)

def defaultExport : Shape := fun t => do
  let t ← literal "export" (indent t)
  let t ← many isBlank t
  let t ← literal "default" t
  if t.head?.any isWord then none else some t

def classDeclaration : Shape := fun t => do
  let t := modifier "abstract" (modifier "default" (modifier "export" (indent t)))
  let t ← literal "class" t
  let t ← many isBlank t
  many isWord t

/-- An import statement with the rest of its last line. The statement ends with the first quoted
text, before which no semicolon may stand. -/
def importStatement : Shape := fun t => do
  let t ← literal "import" t
  let t ← one isBlank t
  let t ← one isQuote (t.dropWhile fun c => c != ';' && !isQuote c)
  let t ← many (fun c => c != '\n' && !isQuote c) t
  let t ← one isQuote t
  some ((t.dropWhile (· != '\n')).drop 1)

end Shape

end Scaffold
