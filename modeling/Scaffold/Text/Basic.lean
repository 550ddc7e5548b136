namespace Scaffold

abbrev Text := List Char

instance : Coe String Text := ⟨String.toList⟩

def inRanges (ranges : List (Nat × Nat)) (c : Char) : Bool :=
  ranges.any fun (lo, hi) => lo ≤ c.toNat && c.toNat ≤ hi

namespace Text

/-- A literal as a list. To evaluate long literals it is better to put the lists in their place, since
`String.toList` reads them from their bytes, and takes longer for each further character. -/
theorem toList_eq {s : String} {t : Text} (h : s = String.ofList t) : s.toList = t := by
  rw [h, String.toList_ofList]

def bytes : Text → Nat
  | [] => 0
  | c :: t => c.utf8Size + bytes t

/-- The longest beginning that fits in `n` bytes. -/
def takeBytes : Nat → Text → Text
  | _, [] => []
  | n, c :: t => if c.utf8Size ≤ n then c :: takeBytes (n - c.utf8Size) t else []

def dropBytes : Nat → Text → Text
  | _, [] => []
  | n, c :: t => if c.utf8Size ≤ n then dropBytes (n - c.utf8Size) t else c :: t

/-- Whether `n` is the offset of a place between two characters, or of either end. -/
def isBoundary (t : Text) (n : Nat) : Bool := bytes (takeBytes n t) == n

def slice (t : Text) (i j : Nat) : Text := takeBytes (j - i) (dropBytes i t)

@[simp] theorem bytes_nil : bytes [] = 0 := rfl

@[simp] theorem bytes_cons (c : Char) (t : Text) : bytes (c :: t) = c.utf8Size + bytes t := rfl

@[simp] theorem bytes_append (s t : Text) : bytes (s ++ t) = bytes s + bytes t := by
  induction s with
  | nil => simp
  | cons c s ih => simp [ih, Nat.add_assoc]

@[simp] theorem takeBytes_append_dropBytes (n : Nat) (t : Text) :
    takeBytes n t ++ dropBytes n t = t := by
  induction t generalizing n with
  | nil => rfl
  | cons c t ih => by_cases h : c.utf8Size ≤ n <;> simp [takeBytes, dropBytes, h, ih]

@[simp] theorem takeBytes_bytes_append (s t : Text) : takeBytes (bytes s) (s ++ t) = s := by
  induction s with
  | nil =>
    cases t with
    | nil => rfl
    | cons c t => simp [takeBytes, Nat.not_le.2 c.utf8Size_pos]
  | cons c s ih => simp [takeBytes, ih]

@[simp] theorem dropBytes_bytes_append (s t : Text) : dropBytes (bytes s) (s ++ t) = t := by
  have h := takeBytes_append_dropBytes (bytes s) (s ++ t)
  rwa [takeBytes_bytes_append, List.append_cancel_left_eq] at h

theorem isBoundary_bytes_append (s t : Text) : isBoundary (s ++ t) (bytes s) = true := by
  simp [isBoundary]

end Text

/-- A place in a text: what stands before it and what stands after it. -/
structure Cut where
  before : Text
  after : Text
deriving DecidableEq, Repr

namespace Cut

def whole (k : Cut) : Text := k.before ++ k.after

def offset (k : Cut) : Nat := Text.bytes k.before

def at? (t : Text) (n : Nat) : Option Cut :=
  if Text.isBoundary t n then some ⟨Text.takeBytes n t, Text.dropBytes n t⟩ else none

/-- The place before `rest`, which ends `t`. -/
def ofRest (t rest : Text) : Cut := ⟨t.take (t.length - rest.length), rest⟩

theorem ofRest_append (s t : Text) : ofRest (s ++ t) t = ⟨s, t⟩ := by simp [ofRest]

theorem at?_offset (k : Cut) : at? k.whole k.offset = some k := by
  simp [at?, whole, offset, Text.isBoundary]

end Cut

end Scaffold
