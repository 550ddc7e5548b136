import Scaffold.Toml.Node

namespace Scaffold.Toml

def maxDepth : Nat := 80

/-- Whether dotted keys may go on into a table. -/
def Form.isImplicit : Form → Bool
  | implied | dotted => true
  | header | inline => false

namespace Entries

/-- Goes down along a path and changes the table at its end, and tells what the change gives.
Missing tables are put in; `viaDots` tells that the path is part of a dotted key and not of a
header. -/
def alter? {α : Type} (viaDots : Bool) (change : Form → Entries → Option (α × Entries)) :
    List Key → Form → Entries → Option (α × Entries)
  | [], form, es => change form es
  | k :: path, _, es =>
    match get? es k.text with
    | none => do
      let form := if viaDots then Form.dotted else Form.implied
      let (a, inner) ← alter? viaDots change path form []
      some (a, es ++ [(k, .table none form inner)])
    | some (.table span form inner) => do
      if form = .inline ∨ (viaDots ∧ !form.isImplicit) then none
      let (a, inner) ← alter? viaDots change path form inner
      some (a, replace es k.text (.table span form inner))
    | some (.array span true items) =>
      match items.reverse with
      | .table s form inner :: before => do
        let (a, inner) ← alter? viaDots change path form inner
        some (a, replace es k.text (.array span true (before.reverse ++ [.table s form inner])))
      | _ => none
    | some _ => none

/-- Gives a value to a key, dotted or not, in a table of the given form. A dotted key may only end
in a table that dotted keys made. -/
def assign? (es : Entries) (form : Form) (keys : List Key) (v : Node) : Option Entries := do
  let last ← keys.getLast?
  let put (form : Form) (es : Entries) : Option (Unit × Entries) :=
    if (form == .dotted) == keys.dropLast.isEmpty || has es last.text then none
    else some ((), es ++ [(last, v)])
  (alter? true put keys.dropLast form es).map Prod.snd

end Entries

end Scaffold.Toml
