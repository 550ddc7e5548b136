import Scaffold.Text.Basic

namespace Scaffold

def blankRanges : List (Nat × Nat) :=
  [(0x9, 0xd), (0x20, 0x20), (0x85, 0x85), (0xa0, 0xa0), (0x1680, 0x1680), (0x2000, 0x200a),
  (0x2028, 0x2029), (0x202f, 0x202f), (0x205f, 0x205f), (0x3000, 0x3000)]

def isBlank (c : Char) : Bool := inRanges blankRanges c

theorem isBlank_of_visible {c : Char} (hlow : 0x20 < c.toNat) (hhigh : c.toNat < 0x7f) :
    isBlank c = false := by
  simp [isBlank, inRanges, blankRanges]
  omega

theorem toNat_of_isAlpha {c : Char} (h : c.isAlpha = true) : 0x40 < c.toNat ∧ c.toNat < 0x7b := by
  have hval : c.val.toNat = c.toNat := rfl
  delta Char.isAlpha Char.isUpper Char.isLower at h
  simp only [Bool.or_eq_true, Bool.and_eq_true, decide_eq_true_eq, ge_iff_le,
    UInt32.le_iff_toNat_le] at h
  simp at h
  omega

theorem toNat_of_isDigit {c : Char} (h : c.isDigit = true) : 0x2f < c.toNat ∧ c.toNat < 0x3a := by
  have hdigit := Char.isDigit_iff_toNat.1 h
  simp only [Char.reduceToNat] at hdigit
  omega

namespace Text

def trimStart (t : Text) : Text := t.dropWhile isBlank

def dropEndWhile (p : Char → Bool) (t : Text) : Text := (t.reverse.dropWhile p).reverse

def trimEnd (t : Text) : Text := dropEndWhile isBlank t

def trim (t : Text) : Text := trimEnd (trimStart t)

def isBlankText (t : Text) : Bool := t.all isBlank

def indent (t : Text) : Text := t.takeWhile isBlank

end Text

end Scaffold
