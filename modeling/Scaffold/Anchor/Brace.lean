import Scaffold.Anchor.Shape

namespace Scaffold.Brace

/-- What follows a string literal, from after its opening quote. A backslash takes the next
character with it, and only a literal in backquotes may hold a line feed. -/
def afterLiteral? (quote : Char) : Text → Option Text
  | [] => none
  | c :: t =>
    if c = '\\' then
      match t with
      | [] => none
      | _ :: t => afterLiteral? quote t
    else if c = '\n' ∧ quote ≠ '\x60' then none
    else if c = quote then some t
    else afterLiteral? quote t

def afterComment? : Text → Option Text
  | [] => none
  | c :: t => if c = '*' ∧ t.head? = some '/' then some (t.drop 1) else afterComment? t

def lineEnd (t : Text) : Text := t.dropWhile (· != '\n')

theorem length_afterLiteral? {quote : Char} {t u : Text} (h : afterLiteral? quote t = some u) :
    u.length < t.length := by
  fun_induction afterLiteral? quote t with
  | case1 => cases h
  | case2 => cases h
  | case3 _ t ih => have := ih h; simp only [List.length_cons]; omega
  | case4 => cases h
  | case5 => cases h; simp
  | case6 _ _ _ _ _ ih => have := ih h; simp only [List.length_cons]; omega

theorem length_afterComment? {t u : Text} (h : afterComment? t = some u) :
    u.length < t.length := by
  fun_induction afterComment? t with
  | case1 => cases h
  | case2 => cases h; simp only [List.length_drop, List.length_cons]; omega
  | case3 _ _ _ ih => have := ih h; simp only [List.length_cons]; omega

theorem length_lineEnd (t : Text) : (lineEnd t).length ≤ t.length :=
  (List.dropWhile_sublist _).length_le

/-- What remains at the brace that closes the outermost of `depth` open braces. Braces in string
literals and in comments do not count. -/
def close? (depth : Nat) (t : Text) : Option Text :=
  match t with
  | [] => none
  | c :: r =>
    if c = '{' then close? (depth + 1) r
    else if c = '}' then
      match depth with
      | 0 => none
      | 1 => some t
      | d + 2 => close? (d + 1) r
    else if Shape.isLiteralQuote c then
      match _h : afterLiteral? c r with
      | none => none
      | some u => close? depth u
    else if c = '/' ∧ r.head? = some '/' then close? depth (lineEnd r)
    else if c = '/' ∧ r.head? = some '*' then
      match _h : afterComment? (r.drop 1) with
      | none => none
      | some u => close? depth u
    else close? depth r
termination_by t.length
decreasing_by
  all_goals simp only [List.length_cons]
  · omega
  · omega
  · have := length_afterLiteral? _h; omega
  · have := length_lineEnd r; omega
  · have := length_afterComment? _h; simp only [List.length_drop] at this; omega
  · omega

def closing? (t : Text) : Option Text := close? 0 t

end Scaffold.Brace
