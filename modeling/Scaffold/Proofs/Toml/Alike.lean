import Scaffold.Proofs.Toml.Keyed

namespace Scaffold.Toml

/-- Values that differ only in places, in the forms of tables and in the order of entries. -/
inductive Node.Alike : Node → Node → Prop
  | string {s s' : Span} {t : Text} : Alike (.string s t) (.string s' t)
  | integer {s s' : Span} {n : Int} : Alike (.integer s n) (.integer s' n)
  | float {s s' : Span} {t : Text} : Alike (.float s t) (.float s' t)
  | boolean {s s' : Span} {b : Bool} : Alike (.boolean s b) (.boolean s' b)
  | moment {s s' : Span} : Alike (.moment s) (.moment s')
  | array {s s' : Span} {isOpen isOpen' : Bool} {items items' : List Node}
      (hlength : items.length = items'.length)
      (h : ∀ (i : Nat) n n', items[i]? = some n → items'[i]? = some n' → Alike n n') :
      Alike (.array s isOpen items) (.array s' isOpen' items')
  | table {s s' : Option Span} {form form' : Form} {es es' : Entries}
      (hkeys : ∀ k, k ∈ Entries.keys es ↔ k ∈ Entries.keys es')
      (h : ∀ k n n', Entries.get? es k = some n → Entries.get? es' k = some n' → Alike n n') :
      Alike (.table s form es) (.table s' form' es')

theorem Entries.sizeOf_lt_of_get? {es : Entries} {k : Text} {n : Node}
    (h : Entries.get? es k = some n) : sizeOf n < sizeOf es := by
  obtain ⟨⟨key, n⟩, he, -, rfl⟩ := Entries.of_get? h
  have hlt := List.sizeOf_lt_of_mem he
  simp only [Prod.mk.sizeOf_spec] at hlt ⊢
  omega

theorem Node.Alike.refl : ∀ n : Node, n.Alike n
  | .string .. => .string
  | .integer .. => .integer
  | .float .. => .float
  | .boolean .. => .boolean
  | .moment _ => .moment
  | .array _ _ items => .array rfl fun i n n' hn hn' => by
      obtain rfl := Option.some.inj (hn.symm.trans hn')
      exact refl n
  | .table _ _ es => .table (fun _ => Iff.rfl) fun k n n' hn hn' => by
      obtain rfl := Option.some.inj (hn.symm.trans hn')
      exact refl n
termination_by n => sizeOf n
decreasing_by
  · have hlt := List.sizeOf_lt_of_mem (List.mem_of_getElem? hn)
    simp only [Node.array.sizeOf_spec]
    omega
  · have hlt := Entries.sizeOf_lt_of_get? hn
    simp only [Node.table.sizeOf_spec]
    omega

theorem Node.Alike.symm {n n' : Node} (h : n.Alike n') : n'.Alike n := by
  induction h with
  | string => exact .string
  | integer => exact .integer
  | float => exact .float
  | boolean => exact .boolean
  | moment => exact .moment
  | array hlength _ ih => exact .array hlength.symm fun i n n' hn hn' => ih i n' n hn' hn
  | table hkeys _ ih => exact .table (fun k => (hkeys k).symm) fun k n n' hn hn' => ih k n' n hn' hn

def Node.text? : Node → Option Text
  | .string _ t => some t
  | _ => none

theorem Node.Alike.text?_eq {n n' : Node} (h : n.Alike n') : n.text? = n'.text? := by
  cases h <;> rfl

namespace Entries

/-- Tables with the same keys, and with values under them that are alike. -/
structure Alike (es es' : Entries) : Prop where
  keys : ∀ k, k ∈ keys es ↔ k ∈ keys es'
  values : ∀ k n n', get? es k = some n → get? es' k = some n' → n.Alike n'

def text? (es : Entries) (k : Text) : Option Text := (get? es k).bind Node.text?

def inner (es : Entries) (k : Text) : Entries :=
  match get? es k with
  | some (.table _ _ entries) => entries
  | _ => []

variable {es es' : Entries} {k : Text} {n : Node}

theorem inner_cons_table {name other : Text} {key : Key} {span : Option Span} {form : Form}
    {entries : Entries} (hname : key.text = name) (hne : name ≠ other)
    (hnone : get? es key.text = none) :
    inner ((key, .table span form entries) :: es) name = entries ∧ inner es name = [] ∧
      inner ((key, .table span form entries) :: es) other = inner es other := by
  subst hname
  refine ⟨?_, ?_, ?_⟩
  · rw [inner, get?_cons, if_pos rfl]
  · rw [inner, hnone]
  · rw [inner, inner, get?_cons, if_neg hne]

theorem Keyed.inner (h : Keyed es) (k : Text) : Keyed (inner es k) := by
  rw [Entries.inner]
  split
  · next hget => exact keyed_table_iff.1 (h.get? hget)
  · exact keyed_nil

theorem Keyed.get?_of_mem (h : Keyed es) {e : Key × Node} (he : e ∈ es) :
    Entries.get? es e.1.text = some e.2 := by
  induction es with
  | nil => cases he
  | cons e' es ih =>
      obtain ⟨hes, hnone⟩ := h.of_cons
      rw [get?_cons]
      rcases List.mem_cons.1 he with rfl | he
      · rw [if_pos rfl]
      · have htail := ih hes he
        rw [if_neg, htail]
        rintro hkey
        rw [← hkey, hnone] at htail
        cases htail

namespace Alike

theorem symm (h : Alike es es') : Alike es' es :=
  ⟨fun k => (h.keys k).symm, fun k n n' hn hn' => (h.values k n' n hn' hn).symm⟩

theorem nil : Alike [] [] := ⟨fun _ => Iff.rfl, by simp [Entries.get?]⟩

theorem of_perm (h : es.Perm es') (hes' : Keyed es') : Alike es es' where
  keys k := (h.map _).mem_iff
  values k n n' hn hn' := by
    obtain ⟨e, he, rfl, rfl⟩ := of_get? hn
    rw [hes'.get?_of_mem (h.mem_iff.1 he)] at hn'
    exact Option.some.inj hn' ▸ .refl e.2

theorem get?_eq_none_iff (h : Alike es es') :
    Entries.get? es k = none ↔ Entries.get? es' k = none := by
  rw [Entries.get?_eq_none_iff, Entries.get?_eq_none_iff, h.keys]

theorem text?_eq (h : Alike es es') (k : Text) : text? es k = text? es' k := by
  rw [text?, text?]
  cases hn : Entries.get? es k with
  | none => rw [h.get?_eq_none_iff.1 hn]
  | some n =>
      cases hn' : Entries.get? es' k with
      | none => rw [h.get?_eq_none_iff.2 hn'] at hn; cases hn
      | some n' => exact (h.values k n n' hn hn').text?_eq

theorem inner (h : Alike es es') (k : Text) : Alike (inner es k) (inner es' k) := by
  rw [Entries.inner, Entries.inner]
  cases hn : Entries.get? es k with
  | none =>
      rw [h.get?_eq_none_iff.1 hn]
      exact nil
  | some n =>
      cases hn' : Entries.get? es' k with
      | none => rw [h.get?_eq_none_iff.2 hn'] at hn; cases hn
      | some n' =>
          cases h.values k n n' hn hn' with
          | table hkeys hvalues => exact ⟨hkeys, hvalues⟩
          | _ => exact nil

end Alike

end Entries

end Scaffold.Toml
