import Mathlib.Data.List.Chain
import Scaffold.Proofs.Text.Parts

namespace Scaffold.Text

def breaks : List Char := ['\n', '{', '}', ',']

abbrev Apart (a b : Char) : Prop := ¬(a = '/' ∧ b = '/')

/-- A text that no change at the joints of a text can part. It has no line feed, brace or comma,
does not begin or end with a blank, and a comment can only begin where it does. -/
structure Sturdy (m : Text) : Prop where
  solid : Solid m
  whole : ∀ c ∈ m, c ∉ breaks
  slashes : m.tail.IsChain Apart
  last : m.getLast? ≠ some '/'

structure Lead (x : Text) : Prop where
  head : ∃ c, x.head? = some c ∧ isBlank c = false
  whole : ∀ c ∈ x, c ∉ breaks
  slashes : x.tail.IsChain Apart

structure Trail (y : Text) : Prop where
  head : y.head? ≠ some '/'
  last : ∃ c, y.getLast? = some c ∧ isBlank c = false ∧ c ≠ '/'
  whole : ∀ c ∈ y, c ∉ breaks
  slashes : y.IsChain Apart

theorem lead_iff {x : Text} : Lead x ↔ x.head?.any (!isBlank ·) = true ∧
    x.all (!breaks.contains ·) = true ∧ x.tail.IsChain Apart := by
  have hhead : x.head?.any (!isBlank ·) = true ↔ ∃ c, x.head? = some c ∧ isBlank c = false := by
    simp [Option.any_eq_true]
  have hwhole : x.all (!breaks.contains ·) = true ↔ ∀ c ∈ x, c ∉ breaks := by simp
  rw [hhead, hwhole]
  constructor
  · intro h
    exact ⟨h.head, h.whole, h.slashes⟩
  · rintro ⟨hhead, hwhole, hslashes⟩
    exact ⟨hhead, hwhole, hslashes⟩

instance (x : Text) : Decidable (Lead x) := decidable_of_iff _ lead_iff.symm

theorem trail_iff {y : Text} : Trail y ↔ y.head? ≠ some '/' ∧
    y.getLast?.any (fun c => !isBlank c && c != '/') = true ∧
    y.all (!breaks.contains ·) = true ∧ y.IsChain Apart := by
  have hlast : y.getLast?.any (fun c => !isBlank c && c != '/') = true ↔
      ∃ c, y.getLast? = some c ∧ isBlank c = false ∧ c ≠ '/' := by
    simp [Option.any_eq_true]
  have hwhole : y.all (!breaks.contains ·) = true ↔ ∀ c ∈ y, c ∉ breaks := by simp
  rw [hlast, hwhole]
  constructor
  · intro h
    exact ⟨h.head, h.last, h.whole, h.slashes⟩
  · rintro ⟨hhead, hlast, hwhole, hslashes⟩
    exact ⟨hhead, hlast, hwhole, hslashes⟩

instance (y : Text) : Decidable (Trail y) := decidable_of_iff _ trail_iff.symm

def isPlain (c : Char) : Bool := c.isAlpha || c.isDigit || c == '-' || c == ':'

theorem toNat_of_isPlain {c : Char} (h : isPlain c = true) :
    0x20 < c.toNat ∧ c.toNat < 0x7b ∧ c ∉ breaks ∧ c ≠ '/' := by
  have hbreak : c ∉ breaks := by
    intro hc
    simp only [breaks, List.mem_cons, List.not_mem_nil, or_false] at hc
    rcases hc with rfl | rfl | rfl | rfl <;> exact absurd h (by decide)
  have hslash : c ≠ '/' := by
    rintro rfl
    exact absurd h (by decide)
  simp only [isPlain, Bool.or_eq_true, beq_iff_eq] at h
  rcases h with ((h | h) | rfl) | rfl
  · have := toNat_of_isAlpha h
    exact ⟨by omega, by omega, hbreak, hslash⟩
  · have := toNat_of_isDigit h
    exact ⟨by omega, by omega, hbreak, hslash⟩
  · exact ⟨by decide, by decide, hbreak, hslash⟩
  · exact ⟨by decide, by decide, hbreak, hslash⟩

theorem not_slash_of_plain {value : Text} (h : ∀ c ∈ value, isPlain c = true) :
    ∀ c ∈ value, c ≠ '/' :=
  fun c hc => (toNat_of_isPlain (h c hc)).2.2.2

theorem isChain_plain_append {value y : Text} (h : ∀ c ∈ value, isPlain c = true)
    (hy : y.IsChain Apart) : (value ++ y).IsChain Apart := by
  induction value with
  | nil => exact hy
  | cons c value ih =>
      have hc := not_slash_of_plain h c List.mem_cons_self
      exact (ih fun d hd => h d (List.mem_cons_of_mem c hd)).cons fun _ _ hslash => hc hslash.1

theorem sturdy_around {x value y : Text} (hx : Lead x) (hy : Trail y)
    (hvalue : ∀ c ∈ value, isPlain c = true) : Sturdy (x ++ value ++ y) := by
  obtain ⟨c, hc, hblank⟩ := hx.head
  obtain ⟨d, hd, hblank', hslash⟩ := hy.last
  obtain ⟨x, rfl⟩ := List.head?_eq_some_iff.1 hc
  have hlast : (c :: x ++ value ++ y).getLast? = some d := by
    rw [List.getLast?_append, hd, Option.some_or]
  refine ⟨⟨⟨c, rfl, hblank⟩, ⟨d, hlast, hblank'⟩⟩, ?_, ?_, by rw [hlast]; simpa using hslash⟩
  · intro e he
    simp only [List.mem_append] at he
    rcases he with (he | he) | he
    · exact hx.whole e he
    · exact (toNat_of_isPlain (hvalue e he)).2.2.1
    · exact hy.whole e he
  · rw [List.append_assoc]
    refine hx.slashes.append (isChain_plain_append hvalue hy.slashes) ?_
    intro a ha b hb hboth
    rw [List.head?_append] at hb
    cases hv : value.head? with
    | none =>
        rw [hv] at hb
        exact hy.head (hboth.2 ▸ hb)
    | some e =>
        rw [hv] at hb
        obtain rfl : e = b := by simpa using hb
        exact not_slash_of_plain hvalue e (List.mem_of_mem_head? hv) hboth.2

end Scaffold.Text
