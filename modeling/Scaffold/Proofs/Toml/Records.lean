import Scaffold.Proofs.Toml.Alike
import Scaffold.Toml.Decode

namespace Scaffold.Toml.RecordShape

variable {F : Type} {shape : RecordShape F} {values values' : F → Text} {es es' : Entries}

def Fits (shape : RecordShape F) (es : Entries) : Prop :=
  ∀ e ∈ es, (∃ f ∈ shape.fields, shape.key f = e.1.text) ∧ ∃ t, e.2.text? = some t

def given (shape : RecordShape F) (values : F → Text) (es : Entries) : F → Text := fun f =>
  (Entries.text? es (shape.key f)).getD (values f)

@[simp] theorem fits_nil : shape.Fits [] := by simp [Fits]

@[simp] theorem given_nil : shape.given values [] = values := rfl

theorem fits_cons_iff {e : Key × Node} : shape.Fits (e :: es) ↔
    ((∃ f ∈ shape.fields, shape.key f = e.1.text) ∧ ∃ t, e.2.text? = some t) ∧ shape.Fits es :=
  List.forall_mem_cons

theorem fits_of_alike (h : Entries.Alike es es') (hes' : Entries.Keyed es') (hfits : shape.Fits es) :
    shape.Fits es' := by
  intro e' he'
  have hget' := hes'.get?_of_mem he'
  cases hget : Entries.get? es e'.1.text with
  | none =>
      rw [h.get?_eq_none_iff.1 hget] at hget'
      cases hget'
  | some n =>
      obtain ⟨e, he, hkey, rfl⟩ := Entries.of_get? hget
      obtain ⟨hfield, t, ht⟩ := hfits e he
      rw [hkey] at hfield
      exact ⟨hfield, t, (h.values _ _ _ hget hget').text?_eq ▸ ht⟩

theorem given_of_alike (h : Entries.Alike es es') :
    shape.given values es = shape.given values es' := by
  funext f
  rw [given, given, h.text?_eq]

variable [DecidableEq F] {span : Span}

theorem set_eq_ok_iff {f : F} {n : Node} : shape.set values f n span = .ok values' ↔
    ∃ t, n.text? = some t ∧ values' = fun g => if g = f then t else values g := by
  cases n <;> simp [set, Node.text?, eq_comm]

theorem given_cons {e : Key × Node} {f : F} {t : Text} (he : e.2.text? = some t)
    (hf : shape.key f = e.1.text) (hkey : ∀ f g, shape.key f = shape.key g → f = g)
    (hnone : Entries.get? es e.1.text = none) :
    shape.given values (e :: es) = shape.given (fun g => if g = f then t else values g) es := by
  funext g
  simp only [given, Entries.text?, Entries.get?_cons]
  by_cases hg : g = f
  · subst hg
    simp [hf, he, hnone]
  · have hne : e.1.text ≠ shape.key g := fun h => hg (hkey g f (by rw [hf, h]))
    simp [hne, hg]

section Cons

variable {tableSpan : Option Span} {form : Form} {k : Key} {n : Node}

theorem read_cons_of_known {f : F}
    (hfind : shape.fields.find? (fun f => shape.key f == k.text) = some f) :
    shape.read values (.table tableSpan form ((k, n) :: es)) span =
      (shape.set values f n k.span).bind fun values =>
        shape.read values (.table tableSpan form es) span := by
  rw [read, List.foldlM_cons]
  dsimp only
  rw [hfind]
  rfl

theorem read_cons_of_unknown
    (hfind : shape.fields.find? (fun f => shape.key f == k.text) = none) :
    shape.read values (.table tableSpan form ((k, n) :: es)) span =
      .error (shape.unknown k.span k.text) := by
  rw [read, List.foldlM_cons]
  dsimp only
  rw [hfind]
  rfl

end Cons

/-- A record is read from a table if the table fits, and each field then has the text given to it. -/
theorem read_table_eq_ok_iff (hkey : ∀ f g, shape.key f = shape.key g → f = g)
    {tableSpan : Option Span} {form : Form} (hes : Entries.Keyed es) :
    shape.read values (.table tableSpan form es) span = .ok values' ↔
      shape.Fits es ∧ values' = shape.given values es := by
  induction es generalizing values with
  | nil =>
      change Except.ok values = Except.ok values' ↔ _
      rw [Except.ok.injEq, eq_comm]
      exact (and_iff_right fits_nil).symm
  | cons e es ih =>
      obtain ⟨k, n⟩ := e
      obtain ⟨hes, hnone⟩ := hes.of_cons
      rw [fits_cons_iff]
      cases hfind : shape.fields.find? fun f => shape.key f == k.text with
      | none =>
          rw [read_cons_of_unknown hfind]
          refine ⟨(fun h => by cases h), ?_⟩
          rintro ⟨⟨⟨⟨f, hf, hfk⟩, -⟩, -⟩, -⟩
          exact absurd (by simpa using hfk) (List.find?_eq_none.1 hfind f hf)
      | some f =>
          have hf := List.mem_of_find?_eq_some hfind
          have hfk : shape.key f = k.text := by simpa using List.find?_some hfind
          rw [read_cons_of_known hfind]
          cases hset : shape.set values f n k.span with
          | error m =>
              refine ⟨(fun h => by cases h), ?_⟩
              rintro ⟨⟨⟨-, t, ht⟩, -⟩, -⟩
              rw [set_eq_ok_iff.2 ⟨t, ht, rfl⟩] at hset
              cases hset
          | ok v =>
              obtain ⟨t, ht, rfl⟩ := set_eq_ok_iff.1 hset
              simp only [Except.bind]
              rw [ih hes, given_cons ht hfk hkey hnone]
              exact and_congr_left fun _ => ⟨fun h => ⟨⟨⟨f, hf, hfk⟩, t, ht⟩, h⟩, And.right⟩

theorem read_bind_eq_ok_iff (hkey : ∀ f g, shape.key f = shape.key g → f = g)
    {tableSpan : Option Span} {form : Form} (hes : Entries.Keyed es) {β : Type}
    {next : (F → Text) → Except Mismatch β} {b : β} :
    (shape.read values (.table tableSpan form es) span).bind next = .ok b ↔
      shape.Fits es ∧ next (shape.given values es) = .ok b := by
  cases hread : shape.read values (.table tableSpan form es) span with
  | error m =>
      refine ⟨(fun h => by cases h), ?_⟩
      rintro ⟨hfits, -⟩
      rw [(read_table_eq_ok_iff hkey hes).2 ⟨hfits, rfl⟩] at hread
      cases hread
  | ok v =>
      obtain ⟨hfits, rfl⟩ := (read_table_eq_ok_iff hkey hes).1 hread
      exact (and_iff_right hfits).symm

end Scaffold.Toml.RecordShape
