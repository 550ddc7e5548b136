import Scaffold.Text.Quoted

namespace Scaffold.Decimal

structure Quotient where
  num : Nat
  den : Nat
deriving DecidableEq, Repr

namespace Quotient

def scaled (n base : Nat) (e : Int) : Quotient :=
  if 0 ≤ e then ⟨n * Nat.pow base e.toNat, 1⟩ else ⟨n, Nat.pow base (-e).toNat⟩

def le (a b : Quotient) : Bool := a.num * b.den ≤ b.num * a.den

def lt (a b : Quotient) : Bool := a.num * b.den < b.num * a.den

def div (a b : Quotient) : Quotient := ⟨a.num * b.den, a.den * b.num⟩

def floor (a : Quotient) : Nat := a.num / a.den

def round (a : Quotient) : Nat :=
  let twice := 2 * (a.num % a.den)
  if a.den < twice ∨ (a.den = twice ∧ a.floor % 2 = 1) then a.floor + 1 else a.floor

def distance (a b : Quotient) : Quotient :=
  let x := a.num * b.den
  let y := b.num * a.den
  ⟨(x - y) + (y - x), a.den * b.den⟩

end Quotient

structure Binary where
  mantissa : Nat
  exponent : Int
deriving DecidableEq, Repr

def leastFull : Nat := Nat.pow 2 52

/-- The floating point number nearest to a positive quotient, or nothing where that is out of range.
Mantissas have 53 bits, and fewer only at the least exponent. -/
def nearest? (a : Quotient) : Option Binary :=
  let guess : Int := (a.num.log2 : Int) - a.den.log2 - 52
  let exact := if (a.div (.scaled 1 2 guess)).floor < leastFull then guess - 1 else guess
  let e := max exact (-1074)
  let m := (a.div (.scaled 1 2 e)).round
  let b : Binary := if m = 2 * leastFull then ⟨leastFull, e + 1⟩ else ⟨m, e⟩
  if 971 < b.exponent then none else some b

namespace Binary

variable (b : Binary)

def value : Quotient := .scaled b.mantissa 2 b.exponent

/-- Below a power of two the numbers lie twice as close. -/
def low : Quotient :=
  if b.mantissa = leastFull ∧ -1074 < b.exponent then
    .scaled (4 * b.mantissa - 1) 2 (b.exponent - 2)
  else .scaled (2 * b.mantissa - 1) 2 (b.exponent - 1)

def high : Quotient := .scaled (2 * b.mantissa + 1) 2 (b.exponent - 1)

/-- Whether a quotient is rounded to this number; the ends of the range are if the mantissa is
even. -/
def holds (a : Quotient) : Bool :=
  if b.mantissa % 2 = 0 then b.low.le a && a.le b.high else b.low.lt a && a.lt b.high

/-- The nearest number with `e` decimal places to the left that is rounded to this one. -/
def onGrid? (e : Int) : Option Nat :=
  let below := (b.value.div (.scaled 1 10 e)).floor
  let at_ (d : Nat) := Quotient.scaled d 10 e
  match b.holds (at_ below) && below != 0, b.holds (at_ (below + 1)) with
  | true, true =>
    if ((at_ (below + 1)).distance b.value).lt ((at_ below).distance b.value) then some (below + 1)
    else some below
  | true, false => some below
  | false, true => some (below + 1)
  | false, false => none

def firstGrid (b : Binary) : Nat → Int → Nat × Int
  | 0, e => (0, e)
  | n + 1, e =>
    match b.onGrid? e with
    | some d => (d, e)
    | none => firstGrid b n (e - 1)

/-- The decimal with the fewest digits that is rounded to this number. -/
def shortest : Nat × Int := b.firstGrid 400 ((b.exponent + 53) * 30103 / 100000 + 2)

end Binary

def positional (digits : Nat) (e : Int) : Text :=
  let ds := Text.decimal digits
  let zeros (n : Nat) : Text := List.replicate n '0'
  if 0 ≤ e then ds ++ zeros e.toNat ++ ".0"
  else
    let places := (-e).toNat
    let ds := zeros (places + 1 - ds.length) ++ ds
    ds.take (ds.length - places) ++ "." ++ ds.drop (ds.length - places)

def Binary.text (b : Binary) : Text :=
  if b.mantissa = 0 then "0.0" else positional b.shortest.1 b.shortest.2

end Scaffold.Decimal
