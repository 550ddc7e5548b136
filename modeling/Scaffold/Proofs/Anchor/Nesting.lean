import Scaffold.Anchor.Brace

namespace Scaffold

namespace Text

variable {σ : Type} {f : σ → Char → Option σ} {s s' : σ} {t : Text} {c : Char}

theorem foldlM_append_of_eq (h : t.foldlM f s = some s') (u : Text) :
    (t ++ u).foldlM f s = u.foldlM f s' := by
  rw [List.foldlM_append, h, Option.bind_eq_bind, Option.bind_some]

theorem foldlM_cons_of_eq (h : f s c = some s') (t : Text) :
    (c :: t).foldlM f s = t.foldlM f s' := by
  rw [List.foldlM_cons, h, Option.bind_eq_bind, Option.bind_some]

theorem foldlM_concat_of_eq (h : t.foldlM f s = some s') (c : Char) :
    (t ++ [c]).foldlM f s = f s' c := by
  rw [foldlM_append_of_eq h, List.foldlM_cons]
  exact bind_pure _

end Text

namespace Brace

abbrev Quote := { c : Char // Shape.isLiteralQuote c = true }

/-- Where a reader is. In code it counts whether a slash comes right before, in a literal whether a
backslash does, and in a block comment whether a star does. -/
inductive Mode where
  | code (slash : Bool)
  | literal (quote : Quote) (escaped : Bool)
  | lineComment
  | blockComment (star : Bool)
deriving DecidableEq, Repr

/-- One character more, where `depth` braces are open. Reading ends at a brace that closes none of
them, and at a line feed in a literal that cannot hold it. -/
def step : Mode × Nat → Char → Option (Mode × Nat)
  | (.code slash, depth), c =>
    if slash ∧ c = '/' then some (.lineComment, depth)
    else if slash ∧ c = '*' then some (.blockComment false, depth)
    else if c = '{' then some (.code false, depth + 1)
    else if c = '}' then
      match depth with
      | 0 => none
      | d + 1 => some (.code false, d)
    else if h : Shape.isLiteralQuote c then some (.literal ⟨c, h⟩ false, depth)
    else some (.code (c == '/'), depth)
  | (.literal q escaped, depth), c =>
    if escaped then some (.literal q false, depth)
    else if c = '\\' then some (.literal q true, depth)
    else if c = '\n' ∧ q.1 ≠ '\x60' then none
    else if c = q.1 then some (.code false, depth)
    else some (.literal q false, depth)
  | (.lineComment, depth), c => some (if c = '\n' then .code false else .lineComment, depth)
  | (.blockComment star, depth), c =>
    some (if star ∧ c = '/' then .code false else .blockComment (c == '*'), depth)

inductive Leads : Mode → Char → Mode → Prop
  | opensLine : Leads (.code true) '/' .lineComment
  | opensBlock : Leads (.code true) '*' (.blockComment false)
  | opensLiteral {slash : Bool} (q : Quote) : Leads (.code slash) q.1 (.literal q false)
  | code {slash : Bool} {c : Char} (h : ¬(slash = true ∧ (c = '/' ∨ c = '*'))) :
      Leads (.code slash) c (.code (c == '/'))
  | literal {q : Quote} {escaped escaped' : Bool} {c : Char} :
      Leads (.literal q escaped) c (.literal q escaped')
  | closesLiteral {q : Quote} : Leads (.literal q false) q.1 (.code false)
  | lineComment {c : Char} (h : c ≠ '\n') : Leads .lineComment c .lineComment
  | closesLine : Leads .lineComment '\n' (.code false)
  | blockComment {star : Bool} {c : Char} : Leads (.blockComment star) c (.blockComment (c == '*'))
  | closesBlock : Leads (.blockComment true) '/' (.code false)

theorem leads_of_step {m m' : Mode} {d d' : Nat} {c : Char}
    (h : step (m, d) c = some (m', d')) : Leads m c m' := by
  cases m with
  | code slash =>
      simp only [step] at h
      split at h
      · next hline =>
          cases h
          obtain ⟨rfl, rfl⟩ := hline
          exact .opensLine
      split at h
      · next hblock =>
          cases h
          obtain ⟨rfl, rfl⟩ := hblock
          exact .opensBlock
      · next hline hblock =>
      have hcode : ¬(slash = true ∧ (c = '/' ∨ c = '*')) := by
        rintro ⟨hslash, hc | hc⟩
        · exact hline ⟨hslash, hc⟩
        · exact hblock ⟨hslash, hc⟩
      split at h
      · next hc => subst hc; cases h; exact .code hcode
      split at h
      · next hc => subst hc; split at h <;> cases h; exact .code hcode
      split at h
      · next hquote => cases h; exact .opensLiteral ⟨c, hquote⟩
      · cases h; exact .code hcode
  | literal q escaped =>
      simp only [step] at h
      split at h
      · cases h; exact .literal
      split at h
      · cases h; exact .literal
      split at h
      · cases h
      split at h
      · next hescaped _ _ hquote =>
          cases h
          obtain rfl : escaped = false := by simpa using hescaped
          exact hquote ▸ .closesLiteral
      · cases h; exact .literal
  | lineComment =>
      simp only [step] at h
      split at h
      · next hline => cases h; exact hline ▸ .closesLine
      · next hline => cases h; exact .lineComment hline
  | blockComment star =>
      simp only [step] at h
      split at h
      · next hclose =>
          cases h
          obtain ⟨rfl, rfl⟩ := hclose
          exact .closesBlock
      · cases h; exact .blockComment

/-- Read from code, the text closes no brace that it has not opened, and it ends in code with all
the braces closed that it has opened. -/
def IsBalanced (t : Text) : Prop := ∃ slash, t.foldlM step (.code false, 0) = some (.code slash, 0)

def isCode : Mode → Bool
  | .code _ => true
  | _ => false

def closeFrom? (s : Mode × Nat) : Text → Option Text
  | [] => none
  | c :: t =>
    if isCode s.1 ∧ s.2 = 0 ∧ c = '}' then some (c :: t)
    else (step s c).bind fun s => closeFrom? s t

variable {s s' : Mode × Nat} {t u rest : Text} {depth : Nat}

theorem foldlM_line (slash : Bool) (depth : Nat) (t : Text) :
    ('\n' :: t).foldlM step (.code slash, depth) = t.foldlM step (.code false, depth) := by
  cases slash <;> rfl

theorem IsBalanced.append_line (ht : IsBalanced t) (hu : IsBalanced ('\n' :: u)) :
    IsBalanced (t ++ '\n' :: u) := by
  obtain ⟨slash, ht⟩ := ht
  obtain ⟨slash', hu⟩ := hu
  exact ⟨slash', by rwa [Text.foldlM_append_of_eq ht, foldlM_line, ← foldlM_line false]⟩

def IsMargin (t : Text) : Prop := ∀ c ∈ t, isBlank c = true ∧ c ≠ '\n'

theorem not_isLiteralQuote_of_isBlank {c : Char} (hc : isBlank c = true) :
    Shape.isLiteralQuote c = false := by
  rw [Bool.eq_false_iff]
  intro hquote
  simp only [Shape.isLiteralQuote, Shape.isQuote, Bool.or_eq_true, beq_iff_eq] at hquote
  rcases hquote with (rfl | rfl) | rfl <;> exact absurd hc (by decide)

theorem step_margin {c : Char} (hc : isBlank c = true) (slash : Bool) (depth : Nat) :
    step (.code slash, depth) c = some (.code false, depth) := by
  have hne : ∀ d, isBlank d = false → c ≠ d := by
    rintro d hd rfl
    rw [hd] at hc
    cases hc
  simp [step, not_isLiteralQuote_of_isBlank hc, beq_eq_false_iff_ne.2 (hne '/' (by decide)),
    hne '/' (by decide), hne '*' (by decide), hne '{' (by decide), hne '}' (by decide)]

theorem code_of_step_margin {c : Char} {slash : Bool} (hc : isBlank c = true ∧ c ≠ '\n')
    (h : step s c = some (.code slash, depth)) : ∃ slash, s = (.code slash, depth) := by
  obtain ⟨m, d⟩ := s
  generalize hm : Mode.code slash = m' at h
  cases leads_of_step h with
  | @code slash' =>
      rw [step_margin hc.1] at h
      obtain rfl : d = depth := congrArg Prod.snd (Option.some.inj h)
      exact ⟨slash', rfl⟩
  | @closesLiteral q => exact absurd q.2 (by rw [not_isLiteralQuote_of_isBlank hc.1]; decide)
  | closesLine => exact absurd rfl hc.2
  | closesBlock => exact absurd hc.1 (by decide)
  | _ => cases hm

theorem foldlM_margin (ht : IsMargin t) (slash : Bool) (depth : Nat) :
    ∃ slash', t.foldlM step (.code slash, depth) = some (.code slash', depth) := by
  induction t generalizing slash with
  | nil => exact ⟨slash, rfl⟩
  | cons c t ih =>
      rw [Text.foldlM_cons_of_eq (step_margin (ht c (by simp)).1 slash depth)]
      exact ih (fun d hd => ht d (by simp [hd])) false

theorem IsBalanced.append_margin (hu : IsMargin u) (h : IsBalanced t) : IsBalanced (t ++ u) := by
  obtain ⟨slash, h⟩ := h
  obtain ⟨slash', hslash'⟩ := foldlM_margin hu slash 0
  exact ⟨slash', by rwa [Text.foldlM_append_of_eq h]⟩

/-- Where a line goes on with blanks alone to a place in code, it was in code before them. -/
theorem IsBalanced.of_append_margin (hu : IsMargin u) (h : IsBalanced (t ++ u)) :
    IsBalanced t := by
  induction u generalizing t with
  | nil => rwa [List.append_nil] at h
  | cons c u ih =>
      have hc : IsBalanced (t ++ [c]) :=
        ih (fun d hd => hu d (by simp [hd])) (by rwa [List.append_assoc, List.singleton_append])
      obtain ⟨slash, hread⟩ := hc
      rw [List.foldlM_append] at hread
      obtain ⟨s, ht, hstep⟩ := Option.bind_eq_some_iff.1 hread
      obtain ⟨slash', rfl⟩ := code_of_step_margin (hu c (by simp)) (by simpa using hstep)
      exact ⟨slash', ht⟩

theorem step_eq_none_of_closing {slash : Bool} : step (.code slash, 0) '}' = none := by
  cases slash <;> rfl

theorem closeFrom?_eq_some_iff : closeFrom? s t = some rest ↔ ∃ body slash, t = body ++ rest ∧
    rest.head? = some '}' ∧ body.foldlM step s = some (.code slash, 0) := by
  constructor
  · intro h
    induction t generalizing s with
    | nil => cases h
    | cons c t ih =>
        rw [closeFrom?] at h
        split at h
        · next hclose =>
            obtain ⟨hcode, hdepth, rfl⟩ := hclose
            cases h
            obtain ⟨m, d⟩ := s
            cases m with
            | code slash => exact ⟨[], slash, rfl, rfl, by rw [← hdepth]; rfl⟩
            | literal | lineComment | blockComment => cases hcode
        · obtain ⟨s', hstep, hrest⟩ := Option.bind_eq_some_iff.1 h
          obtain ⟨body, slash, rfl, hhead, hread⟩ := ih hrest
          exact ⟨c :: body, slash, rfl, hhead, (Text.foldlM_cons_of_eq hstep body).trans hread⟩
  · rintro ⟨body, slash, rfl, hhead, hread⟩
    induction body generalizing s with
    | nil =>
        obtain ⟨v, rfl⟩ := List.head?_eq_some_iff.1 hhead
        cases hread
        rfl
    | cons c body ih =>
        obtain ⟨s', hstep, hrest⟩ := Option.bind_eq_some_iff.1 hread
        rw [List.cons_append, closeFrom?, if_neg, hstep]
        · exact ih hrest
        · rintro ⟨hcode, hdepth, rfl⟩
          obtain ⟨m, d⟩ := s
          cases m with
          | code slash =>
              obtain rfl : d = 0 := hdepth
              rw [step_eq_none_of_closing] at hstep
              cases hstep
          | literal | lineComment | blockComment => cases hcode

theorem closeFrom?_literal (q : Quote) (depth : Nat) (t : Text) :
    closeFrom? (.literal q false, depth) t =
      (afterLiteral? q.1 t).bind (closeFrom? (.code false, depth)) := by
  generalize hc : q.1 = quote
  fun_induction afterLiteral? quote t with
  | case1 => rfl
  | case2 => rfl
  | case3 c r ih => simpa [closeFrom?, step, isCode] using ih
  | case4 c r hescape hline => simp [closeFrom?, step, isCode, hc, hline]
  | case5 r hescape hline => simp [closeFrom?, step, isCode, hc, hescape, hline]
  | case6 c r hescape hline hclose ih =>
      rw [closeFrom?, if_neg (by simp [isCode]), ← ih]
      simp only [step, Bool.false_eq_true, if_false, hescape, hc, hline, hclose]
      rfl

theorem closeFrom?_star (depth : Nat) (t : Text) :
    closeFrom? (.blockComment true, depth) t =
      if t.head? = some '/' then closeFrom? (.code false, depth) (t.drop 1)
      else closeFrom? (.blockComment false, depth) t := by
  cases t with
  | nil => rfl
  | cons c t => by_cases h : c = '/' <;> simp [closeFrom?, step, isCode, h]

theorem closeFrom?_blockComment (depth : Nat) (t : Text) :
    closeFrom? (.blockComment false, depth) t =
      (afterComment? t).bind (closeFrom? (.code false, depth)) := by
  fun_induction afterComment? t with
  | case1 => rfl
  | case2 c r hend => simp [closeFrom?, step, isCode, hend, closeFrom?_star]
  | case3 c r hend ih =>
      rw [← ih, closeFrom?, if_neg (by simp [isCode])]
      by_cases hstar : c = '*'
      · have hslash : r.head? ≠ some '/' := fun h => hend ⟨hstar, h⟩
        simp [step, hstar, closeFrom?_star, hslash]
      · simp [step, beq_eq_false_iff_ne.2 hstar]

theorem closeFrom?_lineComment (depth : Nat) (t : Text) :
    closeFrom? (.lineComment, depth) t = closeFrom? (.code false, depth) (lineEnd t) := by
  induction t with
  | nil => rfl
  | cons c t ih =>
      by_cases h : c = '\n'
      · simp [closeFrom?, step, isCode, lineEnd, h, Shape.isLiteralQuote, Shape.isQuote]
      · rw [closeFrom?, if_neg (by simp [isCode])]
        simpa [step, lineEnd, h] using ih

theorem closeFrom?_slash (depth : Nat) (t : Text) :
    closeFrom? (.code true, depth) t =
      if t.head? = some '/' then closeFrom? (.lineComment, depth) (t.drop 1)
      else if t.head? = some '*' then closeFrom? (.blockComment false, depth) (t.drop 1)
      else closeFrom? (.code false, depth) t := by
  cases t with
  | nil => rfl
  | cons c t =>
      by_cases hline : c = '/'
      · simp [closeFrom?, step, isCode, hline]
      by_cases hblock : c = '*'
      · simp [closeFrom?, step, isCode, hblock]
      · simp [closeFrom?, step, isCode, hline, hblock]

/-- Skipping literals and comments whole comes to the same brace as reading them. -/
theorem close?_eq_closeFrom? (depth : Nat) (t : Text) :
    close? (depth + 1) t = closeFrom? (.code false, depth) t := by
  -- Along the search; where it skips a literal or a comment, the reader is led to the end of that.
  generalize hd : depth + 1 = d
  fun_induction close? d t generalizing depth with
  | case1 => rfl
  | case2 d r ih => subst hd; simp [closeFrom?, step, isCode, ih]
  | case3 => cases hd
  | case4 r hopen =>
      obtain rfl : depth = 0 := by omega
      simp [closeFrom?, isCode]
  | case5 r n hopen ih =>
      obtain rfl : depth = n + 1 := by omega
      simp [closeFrom?, step, isCode, ih]
  | case6 d c r hopen hclose hquote hliteral =>
      simp [closeFrom?, step, isCode, hopen, hclose, hquote, closeFrom?_literal, hliteral]
  | case7 d c r hopen hclose hquote u hliteral ih =>
      subst hd
      simp [closeFrom?, step, isCode, hopen, hclose, hquote, closeFrom?_literal, hliteral, ih]
  | case8 d c r hopen hclose hquote hcomment ih =>
      subst hd
      obtain ⟨rfl, hnext⟩ := hcomment
      obtain ⟨v, rfl⟩ := List.head?_eq_some_iff.1 hnext
      rw [ih _ rfl, closeFrom?, if_neg (by simp [isCode])]
      simp [step, hquote, closeFrom?_slash, closeFrom?_lineComment, lineEnd]
  | case9 d c r hopen hclose hquote hline hblock hcomment =>
      obtain ⟨rfl, hnext⟩ := hblock
      obtain ⟨v, rfl⟩ := List.head?_eq_some_iff.1 hnext
      rw [closeFrom?, if_neg (by simp [isCode])]
      simp_all [step, closeFrom?_slash, closeFrom?_blockComment]
  | case10 d c r hopen hclose hquote hline hblock u hcomment ih =>
      subst hd
      obtain ⟨rfl, hnext⟩ := hblock
      obtain ⟨v, rfl⟩ := List.head?_eq_some_iff.1 hnext
      rw [ih _ rfl, closeFrom?, if_neg (by simp [isCode])]
      simp_all [step, closeFrom?_slash, closeFrom?_blockComment]
  | case11 d c r hopen hclose hquote hline hblock ih =>
      subst hd
      rw [ih _ rfl, closeFrom?, if_neg (by simp [isCode, hclose])]
      by_cases hslash : c = '/'
      · simp_all [step, closeFrom?_slash]
      · simp [step, hopen, hclose, hquote, beq_eq_false_iff_ne.2 hslash]

/-- What closes a brace is the first brace that what stands between them does not account for. -/
theorem close?_eq_some_iff : close? (depth + 1) t = some rest ↔ ∃ body slash, t = body ++ rest ∧
    rest.head? = some '}' ∧ body.foldlM step (.code false, depth) = some (.code slash, 0) := by
  rw [close?_eq_closeFrom?, closeFrom?_eq_some_iff]

end Brace

end Scaffold
