import Scaffold.Name.Basic

namespace Scaffold

inductive Slot where
  | kebab | pascal | camel | screaming | snake | title
  | schemasModule | shardModule | shardClass | shardBinding | entryPath | marker
deriving DecidableEq, Repr

namespace Slot

def label : Slot → Text
  | kebab => "kebab"
  | pascal => "Pascal"
  | camel => "camel"
  | screaming => "SCREAMING"
  | snake => "snake"
  | title => "title"
  | schemasModule => "schemas_module"
  | shardModule => "shard_module"
  | shardClass => "shard_class"
  | shardBinding => "shard_binding"
  | entryPath => "entry_path"
  | marker => "marker"

def all : List Slot :=
  [pascal, screaming, camel, entryPath, kebab, marker, schemasModule, shardBinding, shardClass,
    shardModule, snake, title]

theorem mem_all (s : Slot) : s ∈ all := by cases s <;> decide

end Slot

inductive Piece where
  | text (t : Text)
  | slot (s : Slot)
deriving DecidableEq, Repr

abbrev Line := List Piece

instance : Coe String Piece := ⟨fun s => .text s⟩

instance : Coe Slot Piece := ⟨.slot⟩

instance : Coe String Line := ⟨fun s => [.text s]⟩

abbrev Bindings := Slot → Option Text

namespace Bindings

def empty : Bindings := fun _ => none

def set (b : Bindings) (s : Slot) (value : Text) : Bindings :=
  fun s' => if s' = s then some value else b s'

def ofName (n : Name) : Bindings
  | .kebab => some n.kebab
  | .pascal => some n.pascal
  | .camel => some n.camel
  | .screaming => some n.screaming
  | .snake => some n.snake
  | .title => some n.title
  | _ => none

end Bindings

structure Template where
  name : Text
  lines : List Line
deriving DecidableEq, Repr

inductive TemplateError where
  | unbound (template : Text) (slot : Slot)
deriving DecidableEq, Repr

def TemplateError.message : TemplateError → Text
  | unbound template slot =>
    "template " ++ template ++ " uses undefined placeholder `" ++ slot.label ++ "`"

namespace Piece

def source : Piece → Text
  | text t => t
  | slot s => "\x7b\x7b" ++ s.label ++ "\x7d\x7d"

def fill (b : Bindings) : Piece → Text
  | text t => t
  | slot s => (b s).getD []

end Piece

namespace Template

variable (t : Template)

def pieces : List Piece := t.lines.flatMap fun l => l ++ [.text "\n"]

def source : Text := t.pieces.flatMap Piece.source

/-- The slots that occur, each once and in the order of the labels. -/
def slots : List Slot := Slot.all.filter fun s => .slot s ∈ t.pieces

/-- Fails with the first slot that has no value. A value is never read for slots again. -/
def render (b : Bindings) : Except TemplateError Text :=
  match t.slots.find? fun s => (b s).isNone with
  | some s => .error (.unbound t.name s)
  | none => .ok (t.pieces.flatMap (Piece.fill b))

theorem mem_slots {s : Slot} : s ∈ t.slots ↔ .slot s ∈ t.pieces := by
  simp [slots, Slot.mem_all]

end Template

end Scaffold
