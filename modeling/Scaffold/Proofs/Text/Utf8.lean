import Scaffold.Proofs.Text.Bytes

namespace Scaffold.Text

def utf8 (t : Text) : List UInt8 := t.flatMap String.utf8EncodeChar

@[simp] theorem utf8_nil : utf8 [] = [] := rfl

@[simp] theorem utf8_cons (c : Char) (t : Text) :
    utf8 (c :: t) = String.utf8EncodeChar c ++ utf8 t := rfl

@[simp] theorem utf8_append (s t : Text) : utf8 (s ++ t) = utf8 s ++ utf8 t :=
  List.flatMap_append

@[simp] theorem length_utf8 (t : Text) : (utf8 t).length = bytes t := by
  induction t with
  | nil => rfl
  | cons c t ih => simp [ih]

def IsSign (c : Char) : Prop := c.utf8Size = 1

instance (c : Char) : Decidable (IsSign c) := inferInstanceAs (Decidable (c.utf8Size = 1))

variable {a c : Char} {t u v : Text} {i : Nat}

theorem IsSign.val_le (h : IsSign c) : c.val.toNat ≤ 127 :=
  UInt32.le_iff_toNat_le.1 (Char.utf8Size_eq_one_iff.1 h)

theorem IsSign.toNat_toUInt8 (h : IsSign c) : c.toUInt8.toNat = c.val.toNat := by
  have hle := h.val_le
  change c.val.toUInt8.toNat = _
  rw [UInt32.toNat_toUInt8]
  omega

theorem IsSign.toUInt8_inj (ha : IsSign a) (hc : IsSign c) : a.toUInt8 = c.toUInt8 ↔ a = c := by
  constructor
  · intro h
    have hval := congrArg UInt8.toNat h
    rw [ha.toNat_toUInt8, hc.toNat_toUInt8] at hval
    exact Char.ext (UInt32.toNat_inj.1 hval)
  · rintro rfl
    rfl

theorem IsSign.utf8_cons (h : IsSign c) (t : Text) : utf8 (c :: t) = c.toUInt8 :: utf8 t := by
  rw [Text.utf8_cons, String.utf8EncodeChar_eq_singleton h]
  rfl

theorem IsSign.bytes_append (h : IsSign c) (u v : Text) :
    bytes (u ++ c :: v) = bytes u + 1 + bytes v := by
  rw [Text.bytes_append, Text.bytes_cons, h, Nat.add_assoc]

theorem IsSign.bytes_concat (h : IsSign c) (u : Text) : bytes (u ++ [c]) = bytes u + 1 :=
  h.bytes_append u []

theorem le_of_mem_utf8EncodeChar (hc : ¬IsSign c) {b : UInt8} (hb : b ∈ String.utf8EncodeChar c) :
    128 ≤ b.toNat := by
  have hv : ¬c.val.toNat ≤ 127 := fun h =>
    hc (Char.utf8Size_eq_one_iff.2 (UInt32.le_iff_toNat_le.2 h))
  delta String.utf8EncodeChar at hb
  simp only [if_neg hv] at hb
  split at hb
  · simp only [List.mem_cons, List.not_mem_nil, or_false] at hb
    rcases hb with rfl | rfl <;> rw [UInt8.toNat_ofNat'] <;> omega
  split at hb
  · simp only [List.mem_cons, List.not_mem_nil, or_false] at hb
    rcases hb with rfl | rfl | rfl <;> rw [UInt8.toNat_ofNat'] <;> omega
  · simp only [List.mem_cons, List.not_mem_nil, or_false] at hb
    rcases hb with rfl | rfl | rfl | rfl <;> rw [UInt8.toNat_ofNat'] <;> omega

theorem IsSign.ne_of_le (ha : IsSign a) {b : UInt8} (hb : 128 ≤ b.toNat) : b ≠ a.toUInt8 := by
  rintro rfl
  have hval := ha.val_le
  rw [ha.toNat_toUInt8] at hb
  omega

theorem ne_of_mem_utf8EncodeChar (hc : ¬IsSign c) (ha : IsSign a) {b : UInt8}
    (hb : b ∈ String.utf8EncodeChar c) : b ≠ a.toUInt8 :=
  ha.ne_of_le (le_of_mem_utf8EncodeChar hc hb)

theorem getElem?_utf8 (u v : Text) : (utf8 (u ++ v))[bytes u]? = (utf8 v).head? := by
  rw [utf8_append, ← length_utf8, List.getElem?_append_right (Nat.le_refl _), Nat.sub_self,
    List.head?_eq_getElem?]

theorem head?_utf8_eq_some_iff (ha : IsSign a) :
    (utf8 t).head? = some a.toUInt8 ↔ t.head? = some a := by
  cases t with
  | nil => simp
  | cons c t =>
      rw [List.head?_cons, Option.some_inj]
      constructor
      · intro h
        by_cases hc : IsSign c
        · rw [hc.utf8_cons, List.head?_cons, Option.some_inj] at h
          exact (hc.toUInt8_inj ha).1 h
        · obtain ⟨b, bs, hbs⟩ := List.exists_cons_of_ne_nil (String.utf8EncodeChar_ne_nil (c := c))
          rw [utf8_cons, hbs, List.cons_append, List.head?_cons, Option.some_inj] at h
          exact absurd h (ne_of_mem_utf8EncodeChar hc ha (by simp [hbs]))
      · rintro rfl
        rw [ha.utf8_cons, List.head?_cons]

/-- The first byte of a character tells which ASCII sign it is, if it is one. -/
theorem exists_byte (u : Text) (c : Char) (v : Text) : ∃ b,
    (utf8 (u ++ c :: v))[bytes u]? = some b ∧ ∀ a, IsSign a → (b = a.toUInt8 ↔ c = a) := by
  rw [getElem?_utf8]
  cases hhead : (utf8 (c :: v)).head? with
  | none => simp [String.utf8EncodeChar_ne_nil] at hhead
  | some b =>
      refine ⟨b, rfl, fun a ha => ?_⟩
      have h := head?_utf8_eq_some_iff (t := c :: v) ha
      rwa [hhead, List.head?_cons, Option.some_inj, Option.some_inj] at h

/-- What goes from byte to byte while they are 128 or more goes over the further bytes of a
character. -/
theorem skip_character {α : Type} {f : Nat → α} (u : Text) (c : Char) (v : Text)
    (hf : ∀ i b, (utf8 (u ++ c :: v))[i]? = some b → 128 ≤ b.toNat → f i = f (i + 1)) :
    f (bytes u + 1) = f (bytes (u ++ [c])) := by
  have hsize : bytes (u ++ [c]) = bytes u + c.utf8Size := by simp
  rw [hsize]
  by_cases hc : IsSign c
  · rw [hc]
  have hstep : ∀ k, k + 1 ≤ c.utf8Size → f (bytes u + 1) = f (bytes u + (k + 1)) := by
    intro k hk
    induction k with
    | zero => rfl
    | succ k ih =>
        rw [ih (by omega)]
        have hlt : k + 1 < (String.utf8EncodeChar c).length := by
          rw [String.length_utf8EncodeChar]
          omega
        refine hf _ (String.utf8EncodeChar c)[k + 1] ?_
          (le_of_mem_utf8EncodeChar hc (List.getElem_mem hlt))
        rw [utf8_append, utf8_cons, ← length_utf8, List.getElem?_append_right (by omega),
          Nat.add_sub_cancel_left, List.getElem?_append_left hlt, List.getElem?_eq_getElem hlt]
  have hpos := c.utf8Size_pos
  have hlast := hstep (c.utf8Size - 1) (by omega)
  rwa [Nat.sub_add_cancel hpos] at hlast

theorem exists_of_getElem?_utf8 (ha : IsSign a) (h : (utf8 t)[i]? = some a.toUInt8) :
    ∃ u v, t = u ++ a :: v ∧ bytes u = i := by
  induction t generalizing i with
  | nil => simp at h
  | cons c t ih =>
      by_cases hi : i < c.utf8Size
      · rw [utf8_cons, List.getElem?_append_left (by simpa using hi)] at h
        have hmem := List.mem_of_getElem? h
        by_cases hc : IsSign c
        · obtain rfl : i = 0 := by rw [hc] at hi; omega
          rw [String.utf8EncodeChar_eq_singleton hc] at h
          exact ⟨[], t, by rw [(hc.toUInt8_inj ha).1 (Option.some.inj h)]; rfl, rfl⟩
        · exact absurd rfl (ne_of_mem_utf8EncodeChar hc ha hmem)
      · rw [utf8_cons, List.getElem?_append_right (by simpa using Nat.not_lt.1 hi),
          String.length_utf8EncodeChar] at h
        obtain ⟨u, v, rfl, hu⟩ := ih h
        exact ⟨c :: u, v, rfl, by rw [bytes_cons, hu]; omega⟩

end Scaffold.Text
