import Scaffold.Proofs.Anchor.ClassBody
import Scaffold.Proofs.Anchor.Lexing

namespace Scaffold.Lexing

def escapes (u : Text) : Bool := (u.reverse.takeWhile (· == '\\')).length % 2 == 1

def backquote : Brace.Quote := ⟨'\x60', by decide⟩

def Mode.flat : Mode → Brace.Mode
  | .code slash => .code slash
  | .quoted q escaped => .literal q escaped
  | .template _ escaped => .literal backquote escaped
  | .lineComment => .lineComment
  | .blockComment star => .blockComment star

/-- Where the brace search is after the text `u`, by where a reader is that follows the lexical rules. Both
began where `base` was open. In a substitution the search is still in the outermost literal. -/
inductive Follows (base : List Opening) (u : Text) : State → Brace.Mode × Nat → Prop
  | outside {m : Mode} {os : List Opening} (h : .substitution ∉ os) :
      Follows base u (m, os ++ base) (m.flat, os.length)
  | inside {m : Mode} {inner outer : List Opening} (h : .substitution ∉ outer) :
      Follows base u (m, inner ++ .substitution :: (outer ++ base))
        (.literal backquote (escapes u), outer.length)

/-- A backquote that comes after the text stands in a substitution, and no backslash takes it. -/
def Nests (base : List Opening) (u : Text) : Prop :=
  escapes u = false ∧ ∃ m os, u.foldlM step (.code false, base) = some (m, os ++ base) ∧
    .substitution ∈ os

variable {base : List Opening} {u t w rest : Text} {s s' : State} {f f' : Brace.Mode × Nat} {c : Char}
  {m m' : Mode} {os os' : List Opening}

theorem escapes_concat (u : Text) (c : Char) :
    escapes (u ++ [c]) = (c == '\\' && !escapes u) := by
  rw [escapes, escapes, List.reverse_concat]
  by_cases hc : c = '\\'
  · rw [List.takeWhile_cons_of_pos (by simp [hc]), List.length_cons]
    generalize (u.reverse.takeWhile (· == '\\')).length = n
    rw [hc, Bool.eq_iff_iff]
    simp only [beq_iff_eq, beq_self_eq_true, Bool.true_and, Bool.not_eq_true', beq_eq_false_iff_ne]
    omega
  · rw [List.takeWhile_cons_of_neg (by simp [hc])]
    simp [hc]

/-- A character opens something, closes what was opened last, or does neither. Behind a substitution a
template literal goes on. -/
theorem stack_of_step (h : step (m, os) c = some (m', os')) : os' = os ∨ (∃ o, os' = o :: os) ∨
    c = '}' ∧ ∃ o, os = o :: os' ∧ (o = .substitution → m' = .template false false) := by
  cases m with
  | code slash =>
      simp only [step] at h
      split at h
      · cases h; exact .inl rfl
      split at h
      · cases h; exact .inl rfl
      split at h
      · cases h; exact .inr (.inl ⟨_, rfl⟩)
      split at h
      · next hclose =>
          cases os with
          | nil => cases h; exact .inl rfl
          | cons o os =>
              cases o with
              | block => cases h; exact .inr (.inr ⟨hclose, _, rfl, fun h => by cases h⟩)
              | substitution => cases h; exact .inr (.inr ⟨hclose, _, rfl, fun _ => rfl⟩)
      split at h
      · cases h; exact .inl rfl
      split at h <;> (cases h; exact .inl rfl)
  | quoted q escaped =>
      simp only [step] at h
      split at h
      · cases h; exact .inl rfl
      split at h
      · cases h; exact .inl rfl
      split at h
      · cases h
      split at h <;> (cases h; exact .inl rfl)
  | template dollar escaped =>
      simp only [step] at h
      split at h
      · cases h; exact .inl rfl
      split at h
      · cases h; exact .inl rfl
      split at h
      · cases h; exact .inl rfl
      split at h
      · cases h; exact .inr (.inl ⟨_, rfl⟩)
      · cases h; exact .inl rfl
  | lineComment | blockComment => cases h; exact .inl rfl

/-- The search stays in a literal in backquotes up to a backquote that no backslash takes. -/
theorem step_backquote {depth : Nat} (hc : ¬(c = '\x60' ∧ escapes u = false)) :
    Brace.step (.literal backquote (escapes u), depth) c =
      some (.literal backquote (escapes (u ++ [c])), depth) := by
  rw [escapes_concat, Brace.step]
  cases hu : escapes u with
  | true => simp
  | false =>
      have hquote : c ≠ '\x60' := fun h => hc ⟨h, hu⟩
      by_cases hslash : c = '\\'
      · simp [hslash]
      · simp [backquote, hslash, hquote]

theorem not_nests_of_all (h : ((List.range t.length).all fun n => (t.drop n).head? != some '\x60' ||
    !((t.take n).foldlM step (.code false, base)).any fun s => decide (.substitution ∈ s.2)) = true) :
    ∀ u v, t = u ++ '\x60' :: v → ¬Nests base u := by
  rintro u v rfl ⟨-, m, os, hread, hin⟩
  have hu := List.all_eq_true.1 h u.length (List.mem_range.2 (by simp))
  rw [List.take_left, List.drop_left, hread] at hu
  simp [hin] at hu

theorem follows_of_code {slash : Bool} (hout : .substitution ∉ os)
    (hstep : step (.code slash, os ++ base) c = some s') (hopen : ¬(os = [] ∧ c = '}')) :
    ∃ f', Brace.step (.code slash, os.length) c = some f' ∧ Follows base (u ++ [c]) s' f' := by
  simp only [step, Brace.step] at hstep ⊢
  split at hstep
  · next hline =>
      cases hstep
      exact ⟨_, if_pos hline, .outside (m := .lineComment) hout⟩
  · next hline =>
  rw [if_neg hline]
  split at hstep
  · next hcomment =>
      cases hstep
      exact ⟨_, if_pos hcomment, .outside (m := .blockComment false) hout⟩
  · next hcomment =>
  rw [if_neg hcomment]
  split at hstep
  · next hblock =>
      cases hstep
      have hout : Opening.substitution ∉ Opening.block :: os := by simpa using hout
      exact ⟨_, if_pos hblock, @Follows.outside base _ (.code false) (.block :: os) hout⟩
  · next hblock =>
  rw [if_neg hblock]
  split at hstep
  · next hclose =>
      rw [if_pos hclose]
      cases os with
      | nil => exact absurd ⟨rfl, hclose⟩ hopen
      | cons o os =>
          obtain ⟨ho, hrest⟩ := not_or.1 (mt List.mem_cons.2 hout)
          cases o with
          | block =>
              cases hstep
              exact ⟨_, rfl, .outside (m := .code false) hrest⟩
          | substitution => exact absurd rfl ho
  · next hclose =>
  rw [if_neg hclose]
  split at hstep
  · next hquote =>
      subst hquote
      cases hstep
      exact ⟨_, rfl, .outside (m := .template false false) hout⟩
  · split at hstep
    · next hquote =>
        cases hstep
        exact ⟨_, dif_pos hquote, .outside (m := .quoted ⟨c, hquote⟩ false) hout⟩
    · next hquote =>
        cases hstep
        exact ⟨_, dif_neg hquote, .outside (m := .code (c == '/')) hout⟩

theorem follows_of_quoted {q : Brace.Quote} {escaped : Bool} (hout : .substitution ∉ os)
    (hstep : step (.quoted q escaped, os ++ base) c = some s') :
    ∃ f', Brace.step (.literal q escaped, os.length) c = some f' ∧
      Follows base (u ++ [c]) s' f' := by
  simp only [step, Brace.step] at hstep ⊢
  split at hstep
  · next hescaped =>
      cases hstep
      exact ⟨_, if_pos hescaped, .outside (m := .quoted q false) hout⟩
  · next hescaped =>
  rw [if_neg hescaped]
  split at hstep
  · next hslash =>
      cases hstep
      exact ⟨_, if_pos hslash, .outside (m := .quoted q true) hout⟩
  · next hslash =>
  rw [if_neg hslash]
  split at hstep
  · cases hstep
  · next hline =>
  rw [if_neg fun h => hline h.1]
  split at hstep
  · next hquote =>
      cases hstep
      exact ⟨_, if_pos hquote, .outside (m := .code false) hout⟩
  · next hquote =>
      cases hstep
      exact ⟨_, if_neg hquote, .outside (m := .quoted q false) hout⟩

theorem follows_of_template {dollar escaped : Bool} (hout : .substitution ∉ os)
    (hstep : step (.template dollar escaped, os ++ base) c = some s') :
    ∃ f', Brace.step (.literal backquote escaped, os.length) c = some f' ∧
      Follows base (u ++ [c]) s' f' := by
  simp only [step, Brace.step] at hstep ⊢
  split at hstep
  · next hescaped =>
      cases hstep
      exact ⟨_, if_pos hescaped, .outside (m := .template false false) hout⟩
  · next hescaped =>
  rw [if_neg hescaped]
  split at hstep
  · next hslash =>
      cases hstep
      exact ⟨_, if_pos hslash, .outside (m := .template false true) hout⟩
  · next hslash =>
  rw [if_neg hslash, if_neg fun h => h.2 rfl]
  split at hstep
  · next hquote =>
      cases hstep
      exact ⟨_, if_pos hquote, .outside (m := .code false) hout⟩
  · next hquote =>
  refine ⟨_, if_neg hquote, ?_⟩
  split at hstep
  · next hopens =>
      have hbrace : escapes (u ++ [c]) = false := by
        rw [escapes_concat, hopens.2]
        rfl
      cases hstep
      rw [← hbrace]
      exact @Follows.inside base _ _ [] os hout
  · cases hstep
    exact .outside (m := .template (c == '$') false) hout

theorem Follows.step_outside (hout : .substitution ∉ os) (hstep : step (m, os ++ base) c = some s')
    (hopen : ¬(m.isCode = true ∧ os = [] ∧ c = '}')) :
    ∃ f', Brace.step (m.flat, os.length) c = some f' ∧ Follows base (u ++ [c]) s' f' := by
  cases m with
  | code slash => exact follows_of_code hout hstep fun h => hopen ⟨rfl, h⟩
  | quoted q escaped => exact follows_of_quoted hout hstep
  | template dollar escaped => exact follows_of_template hout hstep
  | lineComment =>
      cases hstep
      refine ⟨_, rfl, ?_⟩
      split
      · exact .outside (m := .code false) hout
      · exact .outside (m := .lineComment) hout
  | blockComment star =>
      cases hstep
      refine ⟨_, rfl, ?_⟩
      split
      · exact .outside (m := .code false) hout
      · exact .outside (m := .blockComment (c == '*')) hout

/-- The search keeps pace with the lexical rules by a character that is not a backquote in a
substitution, and not the brace that closes what was opened before. -/
theorem Follows.step (h : Follows base u s f) (hstep : Lexing.step s c = some s')
    (hbare : c = '\x60' → escapes u = false → ∀ os, s.2 = os ++ base → .substitution ∉ os)
    (hopen : ¬(s.1.isCode = true ∧ s.2 = base ∧ c = '}')) :
    ∃ f', Brace.step f c = some f' ∧ Follows base (u ++ [c]) s' f' := by
  cases h with
  | outside hout =>
      exact Follows.step_outside hout hstep fun h => hopen ⟨h.1, by simp [h.2.1], h.2.2⟩
  | @inside m inner outer hout =>
      have hflat : Brace.step (.literal backquote (escapes u), outer.length) c = _ :=
        step_backquote fun h => hbare h.1 h.2 (inner ++ .substitution :: outer) (by simp) (by simp)
      refine ⟨_, hflat, ?_⟩
      obtain ⟨m', os'⟩ := s'
      rcases stack_of_step hstep with rfl | ⟨o, rfl⟩ | ⟨rfl, o, hos, hmode⟩
      · exact .inside hout
      · exact @Follows.inside base _ _ (o :: inner) outer hout
      · cases inner with
        | nil =>
            obtain ⟨rfl, rfl⟩ := List.cons.inj hos
            obtain rfl := hmode rfl
            rw [escapes_concat]
            exact .outside (m := .template false false) hout
        | cons i inner =>
            obtain ⟨rfl, rfl⟩ := List.cons.inj hos
            exact .inside hout

/-- At a place in code where all that was opened is closed, the search has all braces closed as well. -/
theorem Follows.eq_of_closed {slash : Bool} (h : Follows base u (.code slash, base) f) :
    f = (.code slash, 0) := by
  generalize hs : ((.code slash, base) : State) = s at h
  cases h with
  | @outside m os =>
      obtain ⟨rfl, hos⟩ := Prod.mk.inj hs
      obtain rfl : os = [] := List.self_eq_append_left.1 hos
      rfl
  | @inside m inner outer =>
      have hlength := congrArg List.length (Prod.mk.inj hs).2
      simp only [List.length_append, List.length_cons] at hlength
      omega

/-- The search keeps pace with the lexical rules over a text that has no backquote in a substitution.
Where the lexical rules come to a brace that closes what was open before, it must not end. -/
theorem follows_of_foldlM (hread : u.foldlM step (.code false, base) = some s)
    (hbare : ∀ a b, u = a ++ '\x60' :: b → ¬Nests base a)
    (hopen : ∀ a b slash, u = a ++ '}' :: b →
      a.foldlM step (.code false, base) = some (.code slash, base) →
      (a ++ ['}']).foldlM Brace.step (.code false, 0) ≠ none) :
    ∃ f, u.foldlM Brace.step (.code false, 0) = some f ∧ Follows base u s f := by
  induction u using List.reverseRecOn generalizing s with
  | nil =>
      cases hread
      exact ⟨_, rfl, @Follows.outside base _ (.code false) [] (by simp)⟩
  | append_singleton u c ih =>
      rw [List.foldlM_append] at hread
      obtain ⟨s₀, hread₀, hstep⟩ := Option.bind_eq_some_iff.1 hread
      obtain ⟨f₀, hflat, hfollows⟩ := ih hread₀
        (fun a b hab => hbare a (b ++ [c]) (by rw [hab, List.append_assoc]; rfl))
        fun a b slash hab => hopen a (b ++ [c]) slash (by rw [hab, List.append_assoc]; rfl)
      obtain ⟨s₁, hstep, hs₁⟩ := Option.bind_eq_some_iff.1 hstep
      cases hs₁
      obtain ⟨f, hf, hafter⟩ := hfollows.step hstep
        (by
          rintro rfl hescapes os hos hin
          refine hbare u [] rfl ⟨hescapes, s₀.1, os, ?_, hin⟩
          rw [hread₀, ← hos])
        (by
          rintro ⟨hcode, hbase, rfl⟩
          obtain ⟨m, os⟩ := s₀
          obtain rfl : os = base := hbase
          cases m with
          | code slash =>
              refine hopen u [] slash rfl hread₀ ?_
              rw [Text.foldlM_concat_of_eq hflat, hfollows.eq_of_closed,
                Brace.step_eq_none_of_closing]
          | quoted | template | lineComment | blockComment => cases hcode)
      exact ⟨f, by rw [Text.foldlM_concat_of_eq hflat, hf], hafter⟩

end Scaffold.Lexing

namespace Scaffold.Brace

variable {s s' : Mode × Nat} {t u rest : Text}

theorem closing?_eq_closeFrom? (t : Text) : closing? ('{' :: t) = closeFrom? (.code false, 0) t := by
  rw [← close?_eq_closeFrom?, closing?, close?, if_pos rfl]

theorem closeFrom?_append_of_eq (h : u.foldlM step s = some s') :
    closeFrom? s (u ++ t) = closeFrom? s' t := by
  induction u generalizing s with
  | nil => cases h; rfl
  | cons c u ih =>
      obtain ⟨s₁, hstep, hrest⟩ := Option.bind_eq_some_iff.1 h
      rw [List.cons_append, closeFrom?, if_neg, hstep, Option.bind_some, ih hrest]
      rintro ⟨hcode, hdepth, rfl⟩
      obtain ⟨m, d⟩ := s
      obtain rfl : d = 0 := hdepth
      cases m with
      | code slash =>
          rw [step_eq_none_of_closing] at hstep
          cases hstep
      | literal | lineComment | blockComment => cases hcode

end Scaffold.Brace

namespace Scaffold

open Lexing

variable {t rest : Text}

namespace Lexing

theorem exists_of_closing? (h : closing? t = some rest) : ∃ body slash, t = '{' :: (body ++ rest) ∧
    rest.head? = some '}' ∧ body.foldlM step (.code false, []) = some (.code slash, []) ∧
    ∀ a b slash, body = a ++ '}' :: b → a.foldlM step (.code false, []) ≠ some (.code slash, []) := by
  cases t with
  | nil => cases h
  | cons c t =>
      rw [closing?] at h
      split at h
      · next hbrace =>
          obtain ⟨body, slash, rfl, hclosing⟩ := of_closeFrom? h
          exact ⟨body, slash, by rw [hbrace], hclosing⟩
      · cases h

/-- At a backquote in a substitution the search leaves the literal, and knows of no braces but those
around it. -/
theorem exists_of_nests {u : Text} (hnests : Nests [] u)
    (hbare : ∀ a b, u = a ++ '\x60' :: b → ¬Nests [] a)
    (hopen : ∀ a b slash, u = a ++ '}' :: b →
      a.foldlM step (.code false, []) ≠ some (.code slash, [])) :
    ∃ m inner outer, u.foldlM step (.code false, []) = some (m, inner ++ .substitution :: outer) ∧
      .substitution ∉ outer ∧
      (u ++ ['\x60']).foldlM Brace.step (.code false, 0) = some (.code false, outer.length) := by
  obtain ⟨hescapes, m, os, hread, hin⟩ := hnests
  obtain ⟨f, hflat, hfollows⟩ := follows_of_foldlM hread hbare fun a b slash hab h =>
    absurd h (hopen a b slash hab)
  rw [List.append_nil] at hread hfollows
  generalize hs : (m, os) = s at hfollows
  cases hfollows with
  | outside hout =>
      rw [List.append_nil] at hs
      cases hs
      exact absurd hin hout
  | @inside m inner outer hout =>
      rw [List.append_nil] at hs
      cases hs
      refine ⟨_, inner, outer, hread, hout, ?_⟩
      rw [Text.foldlM_append_of_eq hflat, hescapes]
      rfl

end Lexing

/-- Which brace closes a class body. It is the one that the lexical rules name, wherever no backquote
stands in a substitution. At the first one that does the search leaves the outermost template literal,
and goes on in code with the braces that are open around that literal. It then comes to the right
brace just if what follows, read as code, closes all of them. -/
theorem closing_brace_by_lexical_rules (h : Lexing.closing? t = some rest) :
    ∃ body, t = '{' :: (body ++ rest) ∧ rest.head? = some '}' ∧
      ((∀ u v, body = u ++ '\x60' :: v → ¬Nests [] u) → Brace.closing? t = some rest) ∧
      ∀ u v, body = u ++ '\x60' :: v → Nests [] u → (∀ a b, u = a ++ '\x60' :: b → ¬Nests [] a) →
        ∃ m inner outer,
          u.foldlM Lexing.step (.code false, []) = some (m, inner ++ .substitution :: outer) ∧
          .substitution ∉ outer ∧
          Brace.closing? t = Brace.closeFrom? (.code false, outer.length) (v ++ rest) ∧
          (Brace.closing? t = some rest ↔
            ∃ slash, v.foldlM Brace.step (.code false, outer.length) = some (.code slash, 0)) := by
  obtain ⟨body, slash, rfl, hhead, hread, hfirst⟩ := exists_of_closing? h
  refine ⟨body, rfl, hhead, fun hbare => ?_, fun u v huv hnests hbare => ?_⟩
  · obtain ⟨f, hflat, hfollows⟩ := follows_of_foldlM hread hbare
      fun a b slash hab h => absurd h (hfirst a b slash hab)
    obtain ⟨tail, rfl⟩ := List.head?_eq_some_iff.1 hhead
    obtain rfl := hfollows.eq_of_closed
    exact Brace.closing?_eq_some_iff.2 ⟨body, tail, rfl, rfl, slash, hflat⟩
  · subst huv
    obtain ⟨m, inner, outer, hread, hout, hflat⟩ := exists_of_nests hnests hbare
      fun a b slash hab => hfirst a (b ++ '\x60' :: v) slash (by rw [hab, List.append_assoc]; rfl)
    have hclosing : Brace.closing? ('{' :: (u ++ '\x60' :: v ++ rest)) =
        Brace.closeFrom? (.code false, outer.length) (v ++ rest) := by
      rw [Brace.closing?_eq_closeFrom?, List.append_cons, List.append_assoc,
        Brace.closeFrom?_append_of_eq hflat]
    refine ⟨m, inner, outer, hread, hout, hclosing, ?_⟩
    rw [hclosing, Brace.closeFrom?_eq_some_iff]
    constructor
    · rintro ⟨w, slash, hw, -, hclosed⟩
      exact ⟨slash, by rwa [List.append_cancel_right hw]⟩
    · rintro ⟨slash, hclosed⟩
      exact ⟨v, slash, rfl, hhead, hclosed⟩

theorem closing_brace_by_lexical_rules_template :
    let body : Text := "\n  a = '\x7d' + `$\x7bf(\x7b b: '\x7d' \x7d)\x7d`; // \x7d\n  /* \x7b */\n"
    let rest : Text := "\x7d\n"
    Lexing.closing? ('{' :: (body ++ rest)) = some rest ∧
      Brace.closing? ('{' :: (body ++ rest)) = some rest := by
  intro body rest
  have hlexical : Lexing.closing? ('{' :: (body ++ rest)) = some rest := by decide +kernel
  obtain ⟨body', hbody, -, hclosing, -⟩ := closing_brace_by_lexical_rules hlexical
  obtain rfl : body = body' := List.append_cancel_right (List.cons.inj hbody).2
  exact ⟨hlexical, hclosing (not_nests_of_all (by decide +kernel))⟩

/-- The template literal in the substitution ends the outer one for the search, which then takes the
brace in it for the one that closes the class. -/
theorem substitution_hides_closing_brace :
    let t : Text := "\x7b\n  a = `$\x7b`\x7d`\x7d`;\n\x7d\n"
    Lexing.closing? t = some "\x7d\n" ∧ Brace.closing? t = some "\x7d`\x7d`;\n\x7d\n" ∧
      Anchor.locate ("class A ".toList ++ t) .classEnd =
        some ⟨"class A \x7b\n  a = `$\x7b`", "\x7d`\x7d`;\n\x7d\n"⟩ := by
  decide +kernel

end Scaffold
