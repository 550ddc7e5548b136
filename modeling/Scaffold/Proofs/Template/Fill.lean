import Mathlib.Data.List.Infix
import Scaffold.Proofs.Text.Parts
import Scaffold.Template.Basic

namespace Scaffold

namespace Bindings

def Binds (b : Bindings) (slots : List Slot) : Prop := ∀ s ∈ slots, (b s).isSome = true

theorem Binds.set {b : Bindings} {slots : List Slot} (h : b.Binds slots) (s : Slot) (value : Text) :
    (b.set s value).Binds (s :: slots) := by
  intro s' hs'
  rw [Bindings.set]
  split
  · rfl
  · next hne => exact h s' ((List.mem_cons.1 hs').resolve_left hne)

theorem set_self (b : Bindings) (s : Slot) (value : Text) : b.set s value s = some value :=
  if_pos rfl

end Bindings

namespace Template

variable (t : Template) (b : Bindings)

def fill : Text := t.pieces.flatMap (Piece.fill b)

variable {t b}

theorem render_of_binds {slots : List Slot} (hb : b.Binds slots) (ht : t.slots ⊆ slots) :
    t.render b = .ok (t.fill b) := by
  have hnone : (t.slots.find? fun s => (b s).isNone) = none := by
    rw [List.find?_eq_none]
    intro s hs
    simpa [Option.isSome_iff_ne_none] using hb s (ht hs)
  rw [render, hnone]
  rfl

theorem isInfix_fill_slot {s : Slot} {value : Text} (hs : s ∈ t.slots) (hvalue : b s = some value) :
    value <:+: t.fill b := by
  have hpiece : Piece.fill b (.slot s) <:+: t.fill b :=
    Text.isInfix_flatMap ((mem_slots t).1 hs)
  rwa [Piece.fill, hvalue, Option.getD_some] at hpiece

theorem isInfix_fill_line {line ps : Line} (hline : line ∈ t.lines) (hps : ps <:+: line) :
    ps.flatMap (Piece.fill b) <:+: t.fill b := by
  have hmem : line ++ [.text "\n"] <:+: t.pieces :=
    Text.isInfix_flatMap (f := fun l : Line => l ++ [Piece.text "\n"]) hline
  exact ((hps.trans (List.prefix_append _ _).isInfix).trans hmem).flatMap _

theorem isInfix_fill_around {line : Line} {s : Slot} {u v x y value : Text} (hline : line ∈ t.lines)
    (hpieces : [.text u, .slot s, .text v] <:+: line) (hx : x <:+ u) (hy : y <+: v)
    (hvalue : b s = some value) : x ++ value ++ y <:+: t.fill b := by
  obtain ⟨before, rfl⟩ := hx
  obtain ⟨after, rfl⟩ := hy
  have hfill := isInfix_fill_line (b := b) hline hpieces
  simp only [List.flatMap_cons, List.flatMap_nil, Piece.fill, hvalue, Option.getD_some] at hfill
  exact List.IsInfix.trans ⟨before, after, by simp⟩ hfill

end Template

end Scaffold
