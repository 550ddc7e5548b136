import Scaffold.Proofs.Toml.Keyed
import Scaffold.Toml.Value

namespace Scaffold.Toml

namespace Reader

variable {α β : Type} {P : α → Prop} {Q : β → Prop} {r : Reader α} {f : α → Reader β} {n : Nat}

/-- Whatever the reader gives has the property. -/
def Yields (r : Reader α) (P : α → Prop) : Prop := ∀ k a k', r.run k = some (a, k') → P a

theorem yields_true (r : Reader α) : r.Yields fun _ => True := fun _ _ _ _ => trivial

theorem yields_pure {a : α} (h : P a) : (pure a : Reader α).Yields P := by
  intro k a' k' hrun
  obtain ⟨rfl, rfl⟩ := Prod.mk.inj (Option.some.inj hrun)
  exact h

theorem yields_fail : (fail : Reader α).Yields P := fun _ _ _ hrun => by cases hrun

theorem yields_ofOption {o : Option α} (h : ∀ a, o = some a → P a) : (ofOption o).Yields P := by
  cases o with
  | none => exact yields_fail
  | some a => exact yields_pure (h a rfl)

theorem Yields.bind (hr : r.Yields P) (hf : ∀ a, P a → (f a).Yields Q) : (r >>= f).Yields Q := by
  intro k b k' hrun
  rw [StateT.run_bind] at hrun
  obtain ⟨⟨a, k₁⟩, ha, hb⟩ := Option.bind_eq_some_iff.1 hrun
  exact hf a (hr k a k₁ ha) k₁ b k' hb

theorem yields_bind (r : Reader α) (hf : ∀ a, (f a).Yields Q) : (r >>= f).Yields Q :=
  (yields_true r).bind fun a _ => hf a

theorem Yields.upTo {step : Reader (Option α)} (h : step.Yields fun o => ∀ a ∈ o, P a) :
    (Reader.upTo n step).Yields fun l => ∀ a ∈ l, P a := by
  induction n with
  | zero => exact yields_fail
  | succ n ih =>
      refine h.bind fun o ho => ?_
      cases o with
      | none => exact yields_pure (by simp)
      | some a =>
          refine ih.bind fun l hl => yields_pure ?_
          intro b hb
          rcases List.mem_cons.1 hb with rfl | hb
          · exact ho b rfl
          · exact hl b hb

theorem Yields.many {step : Reader (Option α)} (h : step.Yields fun o => ∀ a ∈ o, P a) :
    (Reader.many step).Yields fun l => ∀ a ∈ l, P a :=
  yields_bind _ fun _ => h.upTo

end Reader

open Reader

variable {α : Type} {P : α → Prop}

theorem yields_items {close : Text} {item : Reader α} (h : item.Yields P) :
    (items close item).Yields fun l => ∀ a ∈ l, P a := by
  refine yields_bind _ fun _ => yields_bind _ fun closed => ?_
  split
  · exact yields_pure (by simp)
  refine h.bind fun first hfirst => (Yields.many (P := P) ?_).bind fun others hothers => ?_
  · -- A step gives nothing, or an item after a comma.
    refine yields_bind _ fun _ => yields_bind _ fun closed => ?_
    split
    · exact yields_pure (by simp)
    refine yields_bind _ fun _ => yields_bind _ fun _ => yields_bind _ fun closed => ?_
    split
    · exact yields_pure (by simp)
    · exact h.bind fun a ha => yields_pure (by simpa using ha)
  · refine yields_pure fun a ha => ?_
    rcases List.mem_cons.1 ha with rfl | ha
    · exact hfirst
    · exact hothers a ha

theorem yields_scalar : Scalar.read.Yields Node.Keyed := by
  refine yields_bind _ fun start => yields_bind _ fun t => yields_bind _ fun stop => ?_
  dsimp only
  split
  · exact yields_pure .boolean
  split
  · exact yields_pure .boolean
  split
  · exact yields_pure .integer
  · exact yields_pure .float
  split
  · exact yields_pure .moment
  · exact yields_fail

theorem yields_plainValue : plainValue.Yields Node.Keyed := by
  refine yields_bind _ fun start => yields_bind _ fun literal => ?_
  cases literal with
  | none => exact yields_scalar
  | some t => exact yields_bind _ fun stop => yields_pure .string

theorem yields_keyValue {value : Reader Node} (h : value.Yields Node.Keyed) :
    (keyValue value).Yields fun entry => entry.2.Keyed :=
  yields_bind _ fun _ => yields_bind _ fun _ => yields_bind _ fun _ => yields_bind _ fun _ =>
    h.bind fun _ hv => yields_pure hv

theorem keyed_foldlM_assign? {parts : List (List Key × Node)} {es es' : Entries}
    (hparts : ∀ p ∈ parts, p.2.Keyed) (hes : Entries.Keyed es)
    (h : parts.foldlM (fun es (keys, v) => Entries.assign? es .inline keys v) es = some es') :
    Entries.Keyed es' := by
  induction parts generalizing es with
  | nil => cases h; exact hes
  | cons p parts ih =>
      rw [List.foldlM_cons] at h
      obtain ⟨es₁, hassign, hrest⟩ := Option.bind_eq_some_iff.1 h
      exact ih (fun q hq => hparts q (by simp [hq])) (hes.assign? (hparts p (by simp)) hassign)
        hrest

theorem yields_value (depth : Nat) : (value depth).Yields Node.Keyed := by
  induction depth with
  | zero => exact yields_plainValue
  | succ depth ih =>
      refine yields_bind _ fun start => yields_bind _ fun isArray => ?_
      split
      · exact (yields_items ih).bind fun parts hparts => yields_bind _ fun stop =>
          yields_pure (.array hparts)
      refine yields_bind _ fun isTable => ?_
      split
      · refine (yields_items (yields_keyValue ih)).bind fun parts hparts => ?_
        refine Yields.bind (yields_ofOption fun es hes => ?_) fun es hes => yields_bind _ fun stop =>
          yields_pure (Entries.keyed_table_iff.2 hes)
        exact keyed_foldlM_assign? hparts Entries.keyed_nil hes
      · exact yields_plainValue

end Scaffold.Toml
