import Scaffold.Proofs.Anchor.Nesting
import Scaffold.Proofs.Text.Ended

namespace Scaffold.Brace

/-- What is still to come of the code read so far: a slash waits for the character after it, with which
it may begin a comment. -/
def pending : Mode → Text
  | .code true => ['/']
  | _ => []

def yield : Mode → Char → Text
  | .code slash, c =>
    if slash ∧ (c = '/' ∨ c = '*') then []
    else pending (.code slash) ++ if isBlank c ∨ c = '/' then [] else [c]
  | _, _ => []

def outlineFrom : Mode × Nat → Text → Text
  | _, [] => []
  | s, c :: t => yield s.1 c ++ match step s c with
    | none => []
    | some s => outlineFrom s t

/-- The outline of a text: its code without blanks and comments, in which a string literal is no
more than its opening quote. -/
def outline (t : Text) : Text := outlineFrom (.code false, 0) (t ++ ['\n'])

structure Gives (s : Mode × Nat) (t out : Text) (s' : Mode × Nat) : Prop where
  read_eq : t.foldlM step s = some s'
  outline_eq : outlineFrom s t = out

variable {s s' s'' : Mode × Nat} {m m' : Mode} {slash : Bool} {d d' depth : Nat} {c : Char}
  {t u b out out' : Text}

theorem outlineFrom_append (h : t.foldlM step s = some s') :
    outlineFrom s (t ++ u) = outlineFrom s t ++ outlineFrom s' u := by
  induction t generalizing s with
  | nil => cases h; rfl
  | cons c t ih =>
      obtain ⟨s₁, hstep, hread⟩ := Option.bind_eq_some_iff.1 h
      simp only [List.cons_append, outlineFrom, hstep, ih hread, List.append_assoc]

namespace Gives

theorem of_foldlM (h : t.foldlM step s = some s') : Gives s t (outlineFrom s t) s' := ⟨h, rfl⟩

theorem nil : Gives s [] [] s := ⟨rfl, rfl⟩

theorem append (h : Gives s t out s') (h' : Gives s' u out' s'') :
    Gives s (t ++ u) (out ++ out') s'' :=
  ⟨(Text.foldlM_append_of_eq h.read_eq u).trans h'.read_eq,
    by rw [outlineFrom_append h.read_eq, h.outline_eq, h'.outline_eq]⟩

theorem single (h : step s c = some s') : Gives s [c] (yield s.1 c) s' :=
  ⟨Text.foldlM_cons_of_eq h [], by simp [outlineFrom, h]⟩

theorem cons (h : step s c = some s') (ht : Gives s' t out s'') :
    Gives s (c :: t) (yield s.1 c ++ out) s'' := (single h).append ht

end Gives

theorem exists_of_gives_append (h : Gives s (t ++ u) out s') : ∃ s₁ out₁ out₂,
    Gives s t out₁ s₁ ∧ Gives s₁ u out₂ s' ∧ out = out₁ ++ out₂ := by
  obtain ⟨hread, rfl⟩ := h
  rw [List.foldlM_append] at hread
  obtain ⟨s₁, ht, hu⟩ := Option.bind_eq_some_iff.1 hread
  exact ⟨s₁, _, _, .of_foldlM ht, .of_foldlM hu, outlineFrom_append ht⟩

theorem exists_of_gives_concat (h : Gives s (t ++ [c]) out (m', d')) : ∃ m d out₁,
    Gives s t out₁ (m, d) ∧ step (m, d) c = some (m', d') ∧ out = out₁ ++ yield m c := by
  obtain ⟨⟨m, d⟩, out₁, out₂, ht, hc, rfl⟩ := exists_of_gives_append h
  obtain ⟨s', hstep, hs'⟩ := Option.bind_eq_some_iff.1 hc.read_eq
  cases hs'
  exact ⟨m, d, out₁, ht, hstep, by rw [← hc.outline_eq, (Gives.single hstep).outline_eq]⟩

theorem yield_of_isBlank (hc : isBlank c = true) (m : Mode) : yield m c = pending m := by
  have hne : c ≠ '/' ∧ c ≠ '*' := by
    constructor <;> (rintro rfl; exact absurd hc (by decide))
  cases m with
  | code slash => simp [yield, hc, hne]
  | literal | lineComment | blockComment => rfl

theorem gives_blank (slash : Bool) (depth : Nat) (hc : isBlank c = true) :
    Gives (.code slash, depth) [c] (pending (.code slash)) (.code false, depth) :=
  yield_of_isBlank hc (.code slash) ▸ .single (step_margin hc slash depth)

theorem gives_blanks (slash : Bool) (depth : Nat) (hb : ∀ c ∈ b, isBlank c = true) : ∃ slash',
    Gives (.code slash, depth) b (if b = [] then [] else pending (.code slash))
      (.code slash', depth) ∧ (b ≠ [] → slash' = false) := by
  induction b generalizing slash with
  | nil => exact ⟨slash, .nil, fun h => absurd rfl h⟩
  | cons c b ih =>
      obtain ⟨slash', hrest, hslash⟩ := ih false fun d hd => hb d (List.mem_cons_of_mem c hd)
      have hcons := (gives_blank slash depth (hb c List.mem_cons_self)).append hrest
      have hnil : (if b = [] then [] else pending (.code false)) = [] := by split <;> rfl
      rw [hnil, List.append_nil] at hcons
      refine ⟨slash', hcons, fun _ => ?_⟩
      by_cases hne : b = []
      · subst hne
        cases hrest.read_eq
        rfl
      · exact hslash hne

theorem Gives.outline_append_pending (h : Gives (.code false, 0) t out s) :
    outline t = out ++ pending s.1 := by
  rw [outline, outlineFrom_append h.read_eq, h.outline_eq, outlineFrom,
    yield_of_isBlank (by decide)]
  cases step s '\n' <;> simp [outlineFrom]

theorem eq_slash_of_step (h : step (m, d) c = some (.code true, depth)) : c = '/' := by
  generalize hm : Mode.code true = m' at h
  cases leads_of_step h with
  | code => simpa using (Mode.code.inj hm).symm
  | _ => cases hm

theorem isBalanced_iff : IsBalanced t ↔ ∃ slash out, Gives (.code false, 0) t out (.code slash, 0) := by
  constructor
  · rintro ⟨slash, h⟩
    exact ⟨slash, _, .of_foldlM h⟩
  · rintro ⟨slash, out, h⟩
    exact ⟨slash, h.read_eq⟩

theorem IsBalanced.gives_append_blanks (h : IsBalanced t) (hb : ∀ c ∈ b, isBlank c = true)
    (hlast : (t ++ b).getLast?.any isBlank = true) :
    Gives (.code false, 0) (t ++ b) (outline t) (.code false, 0) := by
  obtain ⟨slash, out, hgives⟩ := isBalanced_iff.1 h
  rw [hgives.outline_append_pending]
  obtain ⟨slash', hblanks, hslash⟩ := gives_blanks slash 0 hb
  by_cases hne : b = []
  · subst hne
    obtain ⟨c, hc, hblank⟩ := (Option.any_eq_true _ _).1 hlast
    rw [List.append_nil] at hc ⊢
    obtain ⟨u, rfl⟩ := List.getLast?_eq_some_iff.1 hc
    cases slash with
    | false => simpa [pending] using hgives
    | true =>
        obtain ⟨_, _, _, -, hstep, -⟩ := exists_of_gives_concat hgives
        rw [eq_slash_of_step hstep] at hblank
        exact absurd hblank (by decide)
  · obtain rfl := hslash hne
    rw [if_neg hne] at hblanks
    exact hgives.append hblanks

theorem IsBalanced.outline_append_blanks (h : IsBalanced t) (hb : ∀ c ∈ b, isBlank c = true) :
    outline (t ++ b) = outline t := by
  have hline : ∀ c ∈ b ++ ['\n'], isBlank c = true := by
    intro c hc
    rcases List.mem_append.1 hc with hc | hc
    · exact hb c hc
    · rw [List.mem_singleton.1 hc]
      decide
  have hgives := h.gives_append_blanks hline (by
    rw [← List.append_assoc, List.getLast?_concat]
    decide)
  rw [outline, List.append_assoc, hgives.outline_eq]

theorem IsBalanced.append_blanks (h : IsBalanced t) (hb : ∀ c ∈ b, isBlank c = true) :
    IsBalanced (t ++ b) := by
  obtain ⟨slash, ht⟩ := h
  obtain ⟨slash', hblanks, -⟩ := gives_blanks slash 0 hb
  exact ⟨slash', (Text.foldlM_append_of_eq ht b).trans hblanks.read_eq⟩

theorem isCode_of_foldlM_blanks (hb : ∀ c ∈ b, isBlank c = true)
    (h : b.foldlM step (m, d) = some (.code slash, depth)) :
    isCode m = true ∨ m = .lineComment := by
  induction b generalizing m d with
  | nil => cases h; exact .inl rfl
  | cons c b ih =>
      obtain ⟨⟨m', d'⟩, hstep, hread⟩ := Option.bind_eq_some_iff.1 h
      have hm' := ih (fun e he => hb e (List.mem_cons_of_mem c he)) hread
      have hc := hb c List.mem_cons_self
      cases leads_of_step hstep with
      | opensLine | opensBlock | opensLiteral | code => exact .inl rfl
      | lineComment | closesLine => exact .inr rfl
      | literal | blockComment => simp [isCode] at hm'
      | @closesLiteral q =>
          have hquote := q.2
          rw [not_isLiteralQuote_of_isBlank hc] at hquote
          cases hquote
      | closesBlock => exact absurd hc (by decide)

theorem ne_lineComment_of_line (h : (t ++ ['\n']).foldlM step s = some (m, depth)) :
    m ≠ .lineComment := by
  obtain ⟨_, _, _, -, hstep, -⟩ := exists_of_gives_concat (.of_foldlM h)
  rintro rfl
  generalize hc : '\n' = c at hstep
  cases leads_of_step hstep with
  | opensLine => cases hc
  | lineComment hne => exact hne hc.symm

theorem IsBalanced.of_append_blanks (hb : ∀ c ∈ b, isBlank c = true)
    (hline : b = [] ∨ t.getLast? = some '\n') (h : IsBalanced (t ++ b)) : IsBalanced t := by
  rcases hline with rfl | hline
  · rwa [List.append_nil] at h
  · obtain ⟨u, rfl⟩ := List.getLast?_eq_some_iff.1 hline
    obtain ⟨slash, hwhole⟩ := h
    rw [List.foldlM_append] at hwhole
    obtain ⟨⟨m, depth⟩, ht, hread⟩ := Option.bind_eq_some_iff.1 hwhole
    have hcode : isCode m = true :=
      (isCode_of_foldlM_blanks hb hread).resolve_right (ne_lineComment_of_line ht)
    cases m with
    | code slash' =>
        obtain ⟨_, hblanks, -⟩ := gives_blanks slash' depth hb
        cases hblanks.read_eq.symm.trans hread
        exact ⟨slash', ht⟩
    | literal | lineComment | blockComment => cases hcode

def calm : Mode → Mode
  | .code _ => .code false
  | .blockComment _ => .blockComment false
  | m => m

/-- What comes next belongs to the character before it: after a backslash, or where a comment begins or
a block comment ends. -/
def Bonds : Mode → Option Char → Prop
  | .code slash, next => slash = true ∧ (next = some '/' ∨ next = some '*')
  | .literal _ escaped, _ => escaped = true
  | .lineComment, _ => False
  | .blockComment star, next => star = true ∧ next = some '/'

theorem step_comma (h : ¬Bonds m t.head?) : Gives (m, depth) [',']
    (pending m ++ if isCode m then [','] else []) (calm m, depth) := by
  cases m with
  | code slash => cases slash <;> exact ⟨rfl, rfl⟩
  | literal q escaped =>
      have hq : ',' ≠ q.1 := by
        intro hc
        have hquote := q.2
        rw [← hc] at hquote
        cases hquote
      obtain rfl : escaped = false := by simpa [Bonds] using h
      exact .single (by simp [step, hq, calm])
  | lineComment => exact ⟨rfl, rfl⟩
  | blockComment star => exact .single (by simp [step, calm])

theorem step_calm (depth : Nat) (h : ¬Bonds m (some c)) : step (calm m, depth) c = step (m, depth) c ∧
    yield m c = pending m ++ yield (calm m) c := by
  cases m with
  | code slash =>
      cases slash with
      | false => exact ⟨rfl, rfl⟩
      | true =>
          obtain ⟨hslash, hstar⟩ : c ≠ '/' ∧ c ≠ '*' := by simpa [Bonds] using h
          simp [step, calm, yield, pending, hslash, hstar]
  | literal | lineComment => exact ⟨rfl, rfl⟩
  | blockComment star =>
      refine ⟨?_, rfl⟩
      by_cases hslash : c = '/'
      · obtain rfl : star = false := by simpa [Bonds, hslash] using h
        rfl
      · simp [step, calm, hslash]

theorem not_bonds_line (h : ¬Bonds m u.head?) : ¬Bonds m (u ++ ['\n']).head? := by
  cases u with
  | cons c u => exact h
  | nil => cases m <;> simp_all [Bonds]

theorem foldlM_calm (depth : Nat) (h : ¬Bonds m u.head?) (hne : u ≠ []) :
    u.foldlM step (calm m, depth) = u.foldlM step (m, depth) ∧
      outlineFrom (m, depth) u = pending m ++ outlineFrom (calm m, depth) u := by
  obtain ⟨c, u, rfl⟩ := List.exists_cons_of_ne_nil hne
  obtain ⟨hstep, hyield⟩ := step_calm depth h
  rw [List.foldlM_cons, List.foldlM_cons, outlineFrom, outlineFrom, hstep, hyield,
    List.append_assoc]
  exact ⟨rfl, rfl⟩

/-- Between characters that do not belong together a comma is one character more of what it is put into,
and what follows is read as before. -/
theorem outline_comma (ht : Gives (.code false, 0) t out (m, depth)) (h : ¬Bonds m u.head?) :
    (IsBalanced (t ++ u) → IsBalanced (t ++ ',' :: u)) ∧
    ∃ below, outlineFrom (calm m, depth) (u ++ ['\n']) = below ∧
      outline (t ++ u) = out ++ pending m ++ below ∧
      outline (t ++ ',' :: u) = out ++ pending m ++ (if isCode m then [','] else []) ++ below := by
  have hcomma := ht.append (step_comma h)
  refine ⟨fun ⟨slash, hread⟩ => ?_, _, rfl, ?_, ?_⟩
  · rw [Text.foldlM_append_of_eq ht.read_eq] at hread
    rw [List.append_cons]
    by_cases hne : u = []
    · subst hne
      cases hread
      exact ⟨false, by rw [List.append_nil]; exact hcomma.read_eq⟩
    · exact ⟨slash, by rw [Text.foldlM_append_of_eq hcomma.read_eq, (foldlM_calm depth h hne).1,
        hread]⟩
  · rw [outline, List.append_assoc, outlineFrom_append ht.read_eq, ht.outline_eq,
      (foldlM_calm depth (not_bonds_line h) (by simp)).2, List.append_assoc]
  · rw [List.append_cons, outline, List.append_assoc (t ++ [',']), outlineFrom_append hcomma.read_eq,
      hcomma.outline_eq, ← List.append_assoc out]

def IsIdle (l : Text) : Prop := '\n' ∉ l ∧
  ∃ b r, l = b ++ r ∧ (∀ c ∈ b, isBlank c = true) ∧ (r = [] ∨ "//".toList <+: r)

theorem gives_lineComment (depth : Nat) (h : '\n' ∉ t) :
    Gives (.lineComment, depth) t [] (.lineComment, depth) := by
  induction t with
  | nil => exact .nil
  | cons c t ih =>
      rw [List.mem_cons, not_or] at h
      exact .cons (by simp [step, Ne.symm h.1]) (ih h.2)

theorem gives_line_of_isIdle {l : Text} (h : IsIdle l) :
    Gives (.code false, depth) (l ++ ['\n']) [] (.code false, depth) := by
  obtain ⟨hline, b, r, rfl, hb, hr⟩ := h
  obtain ⟨slash, hblanks, hslash⟩ := gives_blanks false depth hb
  have hnil : (if b = [] then [] else pending (.code false)) = [] := by split <;> rfl
  rw [hnil] at hblanks
  obtain rfl : slash = false := by
    by_cases hne : b = []
    · subst hne
      cases hblanks.read_eq
      rfl
    · exact hslash hne
  rw [List.append_assoc]
  refine hblanks.append ?_
  rcases hr with rfl | ⟨u, rfl⟩
  · exact .single rfl
  · have hopens : Gives (.code false, depth) "//".toList [] (.lineComment, depth) := ⟨rfl, rfl⟩
    have hcomment := gives_lineComment depth fun hmem : '\n' ∈ u => hline (by simp [hmem])
    exact (hopens.append hcomment).append (.single rfl)

theorem gives_unlines_of_isIdle {ls : List Text} (h : ∀ l ∈ ls, IsIdle l) :
    Gives (.code false, depth) (Text.unlines ls) [] (.code false, depth) := by
  induction ls with
  | nil => exact .nil
  | cons l ls ih =>
      rw [Text.unlines_cons, List.append_cons]
      exact (gives_line_of_isIdle (h l List.mem_cons_self)).append
        (ih fun m hm => h m (List.mem_cons_of_mem l hm))

theorem visible_of_isLiteralQuote (h : Shape.isLiteralQuote c = true) :
    isBlank c = false ∧ ¬(c = '/' ∨ c = '*') := by
  refine ⟨Bool.eq_false_iff.2 fun hc => ?_, ?_⟩
  · rw [not_isLiteralQuote_of_isBlank hc] at h
    cases h
  · rintro (rfl | rfl) <;> exact absurd h (by decide)

theorem yield_of_visible (hc : isBlank c = false) (hslash : ¬(c = '/' ∨ c = '*')) :
    yield (.code slash) c = pending (.code slash) ++ [c] := by
  rw [yield, if_neg fun h => hslash h.2, if_neg]
  simp [hc, (not_or.1 hslash).1]

theorem getLast?_of_literal {q : Quote} {escaped : Bool}
    (h : Gives (.code false, 0) t out (.literal q escaped, depth)) : out.getLast? = some q.1 := by
  induction t using List.reverseRecOn generalizing out escaped depth with
  | nil => cases h.read_eq
  | append_singleton u c ih =>
      obtain ⟨m, d, out₁, hu, hstep, rfl⟩ := exists_of_gives_concat h
      generalize hm' : Mode.literal q escaped = m' at hstep
      cases leads_of_step hstep with
      | @opensLiteral slash p =>
          obtain ⟨rfl, -⟩ := Mode.literal.inj hm'
          obtain ⟨hvisible, hslash⟩ := visible_of_isLiteralQuote q.2
          rw [yield_of_visible hvisible hslash, ← List.append_assoc, List.getLast?_concat]
      | @literal p =>
          obtain ⟨rfl, -⟩ := Mode.literal.inj hm'
          change (out₁ ++ []).getLast? = _
          rw [List.append_nil]
          exact ih hu
      | _ => cases hm'

theorem getLast?_of_star (h : Gives (.code false, 0) t out (.blockComment true, depth)) :
    t.getLast? = some '*' := by
  rcases List.eq_nil_or_concat' t with rfl | ⟨u, c, rfl⟩
  · cases h.read_eq
  · obtain ⟨m, d, out₁, -, hstep, -⟩ := exists_of_gives_concat h
    generalize hm' : Mode.blockComment true = m' at hstep
    rw [List.getLast?_concat]
    cases leads_of_step hstep with
    | blockComment => rw [show c = '*' by simpa using (Mode.blockComment.inj hm').symm]
    | _ => cases hm'

/-- Code ends with a visible character that is no comma, and its outline with a comma, only behind a
block comment. -/
theorem ends_comment (h : Gives (.code false, 0) t out (.code slash, depth)) (hc : t.getLast? = some c)
    (hvisible : isBlank c = false) (hcomma : c ≠ ',')
    (hlast : (out ++ pending (.code slash)).getLast? = some ',') : "*/".toList <:+ t := by
  obtain ⟨u, rfl⟩ := List.getLast?_eq_some_iff.1 hc
  obtain ⟨m, d, out₁, hu, hstep, rfl⟩ := exists_of_gives_concat h
  generalize hm' : Mode.code slash = m' at hstep
  cases leads_of_step hstep with
  | @code slash₁ _ hnone =>
      obtain rfl := Mode.code.inj hm'
      by_cases hslash : c = '/'
      · subst hslash
        rw [show pending (.code ('/' == '/')) = ['/'] from rfl, List.getLast?_concat] at hlast
        cases hlast
      · have hwait : pending (.code (c == '/')) = [] := by
          rw [beq_eq_false_iff_ne.2 hslash]
          rfl
        have hyield : yield (.code slash₁) c = pending (.code slash₁) ++ [c] := by
          rw [yield, if_neg hnone, if_neg]
          simp [hvisible, hslash]
        rw [hwait, hyield, List.append_nil, ← List.append_assoc, List.getLast?_concat] at hlast
        exact absurd (Option.some.inj hlast) hcomma
  | @closesLiteral q =>
      obtain rfl := Mode.code.inj hm'
      have hout : (out₁ ++ yield (.literal q false) q.1 ++ pending (.code false)) = out₁ := by
        simp [yield, pending]
      rw [hout, getLast?_of_literal hu] at hlast
      exact absurd (Option.some.inj hlast) hcomma
  | closesLine => exact absurd hvisible (by decide)
  | closesBlock =>
      obtain ⟨w, rfl⟩ := List.getLast?_eq_some_iff.1 (getLast?_of_star hu)
      exact ⟨w, by simp⟩
  | _ => cases hm'

theorem gives_literal (q : Quote) (escaped : Bool) (depth : Nat) (h : ∀ c ∈ t, c ≠ q.1 ∧ c ≠ '\n') :
    ∃ escaped', Gives (.literal q escaped, depth) t [] (.literal q escaped', depth) ∧
      (escaped' = true → t = [] ∧ escaped = true ∨ t.getLast? = some '\\') := by
  induction t generalizing escaped with
  | nil => exact ⟨escaped, .nil, fun h => .inl ⟨rfl, h⟩⟩
  | cons c t ih =>
      obtain ⟨hquote, hline⟩ := h c List.mem_cons_self
      have hstep : step (.literal q escaped, depth) c =
          some (.literal q (!escaped && c == '\\'), depth) := by
        cases escaped with
        | true => rfl
        | false => by_cases hc : c = '\\' <;> simp [step, hc, hquote, hline]
      obtain ⟨escaped', ht, hends⟩ := ih (!escaped && c == '\\') fun d hd =>
        h d (List.mem_cons_of_mem c hd)
      refine ⟨escaped', .cons hstep ht, fun hescaped => .inr ?_⟩
      rw [List.getLast?_cons]
      rcases hends hescaped with ⟨rfl, hc⟩ | hlast
      · rw [Bool.and_eq_true, beq_iff_eq] at hc
        rw [hc.2]
        rfl
      · rw [hlast]
        rfl

theorem gives_quoted (h : ∀ c ∈ t, c ≠ '\'' ∧ c ≠ '\n') (hlast : t.getLast? ≠ some '\\') :
    Gives (.code false, depth) ('\'' :: t ++ ['\'']) ['\''] (.code false, depth) := by
  let q : Quote := ⟨'\'', by decide⟩
  obtain ⟨escaped, ht, hends⟩ := gives_literal q false depth h
  obtain rfl : escaped = false := by
    rw [Bool.eq_false_iff]
    exact fun hescaped => (hends hescaped).elim (fun h => by cases h.2) hlast
  have hopens : Gives (.code false, depth) ['\''] ['\''] (.literal q false, depth) := ⟨rfl, rfl⟩
  have hcloses : Gives (.literal q false, depth) ['\''] [] (.code false, depth) := ⟨rfl, rfl⟩
  exact (hopens.append ht).append hcloses

end Scaffold.Brace
