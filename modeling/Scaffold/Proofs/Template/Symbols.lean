import Scaffold.Proofs.Template.Fill

namespace Scaffold

/-- A template is a text of which some letters, its slots, are not known yet. -/
inductive Symbol where
  | char (c : Char)
  | slot (s : Slot)
deriving DecidableEq, Repr

namespace Symbol

variable {v v' : Slot → Text} {f g : List Symbol} {sep : Char}

def fill (v : Slot → Text) : Symbol → Text
  | char c => [c]
  | slot s => v s

def fillAll (v : Slot → Text) (f : List Symbol) : Text := f.flatMap (fill v)

def ofText (t : Text) : List Symbol := t.map char

@[simp] theorem fillAll_nil : fillAll v [] = [] := rfl

@[simp] theorem fillAll_char (c : Char) (f : List Symbol) :
    fillAll v (char c :: f) = c :: fillAll v f := rfl

@[simp] theorem fillAll_slot (s : Slot) (f : List Symbol) :
    fillAll v (slot s :: f) = v s ++ fillAll v f := rfl

theorem fillAll_append (f g : List Symbol) : fillAll v (f ++ g) = fillAll v f ++ fillAll v g :=
  List.flatMap_append

@[simp] theorem fillAll_ofText (t : Text) : fillAll v (ofText t) = t := by
  induction t with
  | nil => rfl
  | cons c t ih => exact congrArg (c :: ·) ih

theorem mem_fillAll {c : Char} (h : c ∈ fillAll v f) : char c ∈ f ∨ ∃ s, slot s ∈ f ∧ c ∈ v s := by
  obtain ⟨a, ha, hc⟩ := List.mem_flatMap.1 h
  cases a with
  | char d =>
      obtain rfl := List.mem_singleton.1 hc
      exact .inl ha
  | slot s => exact .inr ⟨s, ha, hc⟩

theorem splitOn_fillAll (h : ∀ s, slot s ∈ f → sep ∉ v s) :
    List.splitOn sep (fillAll v f) = (List.splitOn (char sep) f).map (fillAll v) := by
  induction f with
  | nil => rfl
  | cons a f ih =>
      have hrest := ih fun s hs => h s (List.mem_cons_of_mem a hs)
      obtain ⟨p, ps, hp⟩ := List.exists_cons_of_ne_nil (List.splitOn_ne_nil (char sep) f)
      cases a with
      | char c =>
          rw [fillAll_char, List.splitOn_cons_eq_if_modifyHead, List.splitOn_cons_eq_if_modifyHead,
            hrest, hp]
          by_cases hc : c = sep
          · rw [if_pos (by simp [hc]), if_pos (by simp [hc])]
            rfl
          · rw [if_neg (by simp [hc]), if_neg (by simp [hc])]
            rfl
      | slot s =>
          obtain ⟨q, qs, hq, hall⟩ :=
            Text.splitOn_append_of_not_mem (h s List.mem_cons_self) (fillAll v f)
          rw [hrest, hp, List.map_cons] at hq
          cases hq
          rw [fillAll_slot, hall, List.splitOn_cons_eq_if_modifyHead, if_neg (by simp), hp]
          rfl

/-- The first is no beginning of the second, whatever the values are. -/
def strays : List Symbol → List Symbol → Bool
  | char _ :: _, [] => true
  | char c :: f, char d :: g => c != d || strays f g
  | _, _ => false

def apart (f g : List Symbol) : Bool :=
  strays f g || strays g f || strays f.reverse g.reverse || strays g.reverse f.reverse

theorem not_isPrefix_of_strays (h : strays f g = true) : ¬fillAll v f <+: fillAll v' g := by
  fun_induction strays f g with
  | case1 => simp
  | case2 c f d g ih =>
      rw [fillAll_char, fillAll_char, List.cons_prefix_cons]
      rintro ⟨rfl, hbegins⟩
      exact ih (by simpa using h) hbegins
  | case3 => cases h

theorem ne_of_strays (h : strays f g = true) : fillAll v f ≠ fillAll v' g := by
  intro heq
  have hbegins : fillAll v f <+: fillAll v' g := heq ▸ List.prefix_refl _
  exact not_isPrefix_of_strays h hbegins

theorem reverse_fillAll (v : Slot → Text) (f : List Symbol) :
    (fillAll v f).reverse = fillAll (fun s => (v s).reverse) f.reverse := by
  rw [fillAll, fillAll, List.reverse_flatMap]
  congr 1
  funext a
  cases a <;> rfl

theorem ne_of_apart (h : apart f g = true) : fillAll v f ≠ fillAll v' g := by
  intro hfill
  have hreverse := congrArg List.reverse hfill
  rw [reverse_fillAll, reverse_fillAll] at hreverse
  simp only [apart, Bool.or_eq_true] at h
  rcases h with ((h | h) | h) | h
  · exact ne_of_strays h hfill
  · exact ne_of_strays h hfill.symm
  · exact ne_of_strays h hreverse
  · exact ne_of_strays h hreverse.symm

def slots (f : List Symbol) : List Slot :=
  f.filterMap fun
    | char _ => none
    | slot s => some s

theorem fillAll_congr (h : slots f = []) : fillAll v f = fillAll v' f := by
  induction f with
  | nil => rfl
  | cons a f ih =>
      cases a with
      | char c => rw [fillAll_char, fillAll_char, ih h]
      | slot s => cases h

theorem eq_of_fillAll_eq {s : Slot} (h : slots f = [s]) (hfill : fillAll v f = fillAll v' f) :
    v s = v' s := by
  induction f with
  | nil => cases h
  | cons a f ih =>
      cases a with
      | char c =>
          rw [fillAll_char, fillAll_char, List.cons_inj_right] at hfill
          exact ih h hfill
      | slot s' =>
          obtain ⟨rfl, hrest⟩ : s' = s ∧ slots f = [] := by simpa [slots] using h
          have hsame : fillAll v f = fillAll v' f := fillAll_congr hrest
          rw [fillAll_slot, fillAll_slot, hsame] at hfill
          exact List.append_cancel_right hfill

end Symbol

def Piece.symbols : Piece → List Symbol
  | text t => Symbol.ofText t
  | slot s => [.slot s]

def Line.symbols (line : Line) : List Symbol := line.flatMap Piece.symbols

namespace Template

variable (t : Template)

def symbols : List Symbol := t.pieces.flatMap Piece.symbols

theorem fill_eq_fillAll (b : Bindings) :
    t.fill b = Symbol.fillAll (fun s => (b s).getD []) t.symbols := by
  rw [fill, symbols, Symbol.fillAll, List.flatMap_assoc]
  congr 1
  funext p
  cases p with
  | text u => exact (Symbol.fillAll_ofText u).symm
  | slot s => exact (List.append_nil _).symm

def expand (s : Slot) (ps : List Piece) : Template :=
  { t with lines := t.lines.map fun line => line.flatMap fun p => if p = .slot s then ps else [p] }

theorem fill_expand (s : Slot) (ps : List Piece) (b : Bindings) :
    (t.expand s ps).fill b = t.fill (b.set s (ps.flatMap (Piece.fill b))) := by
  simp only [fill, pieces, expand, List.flatMap_map, List.flatMap_assoc]
  congr 1
  funext line
  rw [List.flatMap_append, List.flatMap_append, List.flatMap_assoc]
  congr 1
  congr 1
  funext p
  cases p with
  | text u => rw [if_neg (by simp)]; exact List.append_nil _
  | slot s' =>
      by_cases hs : s' = s
      · rw [if_pos (by rw [hs]), hs, Piece.fill, Bindings.set_self]
        rfl
      · rw [if_neg (by simpa using hs), Piece.fill, Bindings.set, if_neg hs]
        exact List.append_nil _

end Template

end Scaffold
