import Scaffold.Proofs.Anchor.Nesting

namespace Scaffold.Lexing

/-- What a brace opens: a block, or the code that a template literal takes in. -/
inductive Opening where
  | block | substitution
deriving DecidableEq, Repr

/-- Where a reader is. In code it counts whether a slash comes right before, in a literal whether a
backslash does, in a template literal whether a dollar sign does, and in a block comment whether a star
does. -/
inductive Mode where
  | code (slash : Bool)
  | quoted (quote : Brace.Quote) (escaped : Bool)
  | template (dollar escaped : Bool)
  | lineComment
  | blockComment (star : Bool)
deriving DecidableEq, Repr

/-- Where a reader is and what is open there, the innermost first. -/
abbrev State := Mode × List Opening

/-- One character more. Reading ends at a line feed in a literal that cannot hold it. A brace that
closes nothing is passed over. -/
def step : State → Char → Option State
  | (.code slash, os), c =>
    if slash ∧ c = '/' then some (.lineComment, os)
    else if slash ∧ c = '*' then some (.blockComment false, os)
    else if c = '{' then some (.code false, .block :: os)
    else if c = '}' then
      match os with
      | [] => some (.code false, [])
      | .block :: os => some (.code false, os)
      | .substitution :: os => some (.template false false, os)
    else if c = '\x60' then some (.template false false, os)
    else if h : Shape.isLiteralQuote c then some (.quoted ⟨c, h⟩ false, os)
    else some (.code (c == '/'), os)
  | (.quoted q escaped, os), c =>
    if escaped then some (.quoted q false, os)
    else if c = '\\' then some (.quoted q true, os)
    else if c = '\n' then none
    else if c = q.1 then some (.code false, os)
    else some (.quoted q false, os)
  | (.template dollar escaped, os), c =>
    if escaped then some (.template false false, os)
    else if c = '\\' then some (.template false true, os)
    else if c = '\x60' then some (.code false, os)
    else if dollar ∧ c = '{' then some (.code false, .substitution :: os)
    else some (.template (c == '$') false, os)
  | (.lineComment, os), c => some (if c = '\n' then .code false else .lineComment, os)
  | (.blockComment star, os), c =>
    some (if star ∧ c = '/' then .code false else .blockComment (c == '*'), os)

def Mode.isCode : Mode → Bool
  | .code _ => true
  | _ => false

def Mode.isComment : Mode → Bool
  | .lineComment | .blockComment _ => true
  | _ => false

def closeFrom? (s : State) : Text → Option Text
  | [] => none
  | c :: t =>
    if s.1.isCode ∧ s.2 = [] ∧ c = '}' then some (c :: t)
    else (step s c).bind fun s => closeFrom? s t

def closing? : Text → Option Text
  | [] => none
  | c :: t => if c = '{' then closeFrom? (.code false, []) t else none

variable {s s' : State} {t u rest : Text} {c : Char}

theorem of_closeFrom? (h : closeFrom? s t = some rest) : ∃ body slash, t = body ++ rest ∧
    rest.head? = some '}' ∧ body.foldlM step s = some (.code slash, []) ∧
    ∀ a b slash, body = a ++ '}' :: b → a.foldlM step s ≠ some (.code slash, []) := by
  induction t generalizing s with
  | nil => cases h
  | cons c t ih =>
      obtain ⟨m, os⟩ := s
      rw [closeFrom?] at h
      split at h
      · next hclose =>
          obtain ⟨hcode, rfl, rfl⟩ := hclose
          cases h
          cases m with
          | code slash => exact ⟨[], slash, rfl, rfl, rfl, fun a b _ hab => absurd hab (by simp)⟩
          | quoted | template | lineComment | blockComment => cases hcode
      · next hopen =>
          obtain ⟨s', hstep, hrest⟩ := Option.bind_eq_some_iff.1 h
          obtain ⟨body, slash, rfl, hhead, hread, hfirst⟩ := ih hrest
          refine ⟨c :: body, slash, rfl, hhead, (Text.foldlM_cons_of_eq hstep body).trans hread, ?_⟩
          intro a b slash' hab hclosed
          cases a with
          | nil =>
              cases hclosed
              exact hopen ⟨rfl, rfl, (List.cons.inj hab).1⟩
          | cons d a =>
              obtain ⟨rfl, hbody⟩ := List.cons.inj hab
              rw [Text.foldlM_cons_of_eq hstep] at hclosed
              exact hfirst a b slash' hbody hclosed

end Scaffold.Lexing
