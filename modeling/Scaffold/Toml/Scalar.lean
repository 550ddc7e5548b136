import Scaffold.Decimal.Shortest
import Scaffold.Text.Search
import Scaffold.Toml.Node
import Scaffold.Toml.Reader

namespace Scaffold.Toml.Scalar

def value (base : Nat) (digits : Text) : Nat :=
  digits.foldl
    (fun acc c => acc * base + (if c.isDigit then c.toNat - 48 else c.toLower.toNat - 87)) 0

def digits? (p : Char → Bool) (t : Text) : Option Text :=
  let groups := List.splitOn '_' t
  if groups.all fun g => !g.isEmpty && g.all p then some groups.flatten else none

def splitSign (t : Text) : Text × Text :=
  match t with
  | '+' :: r => (['+'], r)
  | '-' :: r => (['-'], r)
  | _ => ([], t)

def wholePart? (t : Text) : Option Text := do
  let ds ← digits? Char.isDigit t
  if 1 < ds.length ∧ ds.head? = some '0' then none else some ds

def ofBase? (base : Nat) (p : Char → Bool) (t : Text) : Option Int := do
  let ds ← digits? p t
  let n : Int := value base ds
  if n ≤ Int64.maxValue.toInt then some n else none

def integer? (t : Text) : Option Int :=
  match t with
  | '0' :: 'x' :: r => ofBase? 16 (fun c => c.isDigit || ('a' ≤ c.toLower && c.toLower ≤ 'f')) r
  | '0' :: 'o' :: r => ofBase? 8 (fun c => '0' ≤ c && c ≤ '7') r
  | '0' :: 'b' :: r => ofBase? 2 (fun c => c == '0' || c == '1') r
  | _ => do
    let (sign, r) := splitSign t
    let ds ← wholePart? r
    let n : Int := value 10 ds
    let n := if sign = ['-'] then -n else n
    if Int64.minValue.toInt ≤ n ∧ n ≤ Int64.maxValue.toInt then some n else none

def floatText? (digits : Text) (exponent : Int) : Option Text :=
  let n := value 10 digits
  let size : Int := (digits.dropWhile (· == '0')).length + exponent
  if n = 0 ∨ size < -400 then some "0.0"
  else if 400 < size then none
  else (Decimal.nearest? (.scaled n 10 exponent)).map Decimal.Binary.text

def float? (t : Text) : Option Text := do
  let (sign, r) := splitSign t
  let minus : Text := if sign = ['-'] then ['-'] else []
  if r = "inf".toList then some (minus ++ "inf")
  else if r = "nan".toList then some "NaN"
  else
    let whole := r.takeWhile fun c => c.isDigit || c == '_'
    let r := r.drop whole.length
    let whole ← wholePart? whole
    let (fraction, r) ← match r with
      | '.' :: r => do
        let fraction := r.takeWhile fun c => c.isDigit || c == '_'
        some (← digits? Char.isDigit fraction, r.drop fraction.length)
      | _ => some ([], r)
    let exponent ← match r with
      | [] => if fraction.isEmpty then none else some 0
      | c :: r => do
        if c ≠ 'e' ∧ c ≠ 'E' then none
        let (sign, r) := splitSign r
        let n : Int := value 10 (← digits? Char.isDigit r)
        some (if sign = ['-'] then -n else n)
    let text ← floatText? (whole ++ fraction) (exponent - fraction.length)
    some (minus ++ text)

def field? (n lo hi : Nat) (t : Text) : Option (Nat × Text) :=
  let ds := t.take n
  let v := value 10 ds
  if ds.length = n ∧ ds.all Char.isDigit ∧ lo ≤ v ∧ v ≤ hi then some (v, t.drop n) else none

def mark? (c : Char) (t : Text) : Option Text :=
  if t.head? = some c then some (t.drop 1) else none

def daysIn (year month : Nat) : Nat :=
  if month = 2 then
    if year % 4 = 0 ∧ (year % 100 ≠ 0 ∨ year % 400 = 0) then 29 else 28
  else if month = 4 ∨ month = 6 ∨ month = 9 ∨ month = 11 then 30
  else 31

def date? (t : Text) : Option Text := do
  let (year, t) ← field? 4 0 9999 t
  let (month, t) ← field? 2 1 12 (← mark? '-' t)
  let (_, t) ← field? 2 1 (daysIn year month) (← mark? '-' t)
  some t

def time? (t : Text) : Option Text := do
  let (_, t) ← field? 2 0 23 t
  let (_, t) ← field? 2 0 59 (← mark? ':' t)
  match mark? ':' t with
  | none => some t
  | some t => do
    let (_, t) ← field? 2 0 60 t
    match mark? '.' t with
    | none => some t
    | some t =>
      let fraction := t.takeWhile Char.isDigit
      if fraction.isEmpty then none else some (t.drop fraction.length)

def isOffset (t : Text) : Bool :=
  match t with
  | [] => true
  | ['Z'] => true
  | ['z'] => true
  | c :: r => (c == '+' || c == '-') && (do
      let (_, r) ← field? 2 0 23 r
      let (_, r) ← field? 2 0 59 (← mark? ':' r)
      some r) == some []

def isMoment (t : Text) : Bool :=
  if time? t == some [] then true
  else
    match date? t with
    | none => false
    | some [] => true
    | some (c :: r) =>
      (c == 'T' || c == 't' || c == ' ') &&
        match time? r with
        | some r => isOffset r
        | none => false

open Reader

/-- The longest run of characters of bare values. A space belongs to it where a date stands before
and a time after it. -/
def token : Reader Text := do
  let isBare (c : Char) : Bool :=
    c.isAlphanum || c == '+' || c == '-' || c == '_' || c == '.' || c == ':'
  let first ← takeWhile isBare
  let following := (← rest).takeWhile fun c => c == ' ' || isBare c
  match following with
  | ' ' :: r =>
    let second := r.takeWhile isBare
    if date? first == some [] ∧ (field? 2 0 99 second).isSome then
      skip (second.length + 1)
      return first ++ " " ++ second
    else return first
  | _ => return first

def read : Reader Node := do
  let start ← offset
  let t ← token
  let span : Span := ⟨start, ← offset⟩
  if t = "true".toList then return .boolean span true
  else if t = "false".toList then return .boolean span false
  else
    match integer? t, float? t with
    | some n, _ => return .integer span n
    | none, some f => return .float span f
    | none, none => if isMoment t then return .moment span else fail

end Scaffold.Toml.Scalar
