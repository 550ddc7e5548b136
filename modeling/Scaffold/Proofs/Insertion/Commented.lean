import Scaffold.Proofs.Anchor.Substitutions
import Scaffold.Proofs.Insertion.Fitting
import Scaffold.Proofs.Insertion.Presence

namespace Scaffold

namespace Lexing

/-- Strings, template literals and block comments are all closed at the end of the text. -/
def IsClosed (t : Text) : Prop := ∃ m os, t.foldlM step (.code false, []) = some (m, os) ∧
  (m.isCode = true ∨ m = .lineComment) ∧ .substitution ∉ os

variable {s : State} {m : Mode} {os : List Opening} {t u : Text} {c : Char}

theorem exists_of_isClosed (h : IsClosed (t ++ u)) :
    ∃ s, t.foldlM step (.code false, []) = some s := by
  obtain ⟨m, os, hread, -⟩ := h
  rw [List.foldlM_append] at hread
  exact (Option.bind_eq_some_iff.1 hread).imp fun s hs => hs.1

theorem step_margin (hc : isBlank c = true ∧ c ≠ '\n') (s : State) :
    ∃ m, step s c = some (m, s.2) ∧ m.isCode = s.1.isCode ∧ m.isComment = s.1.isComment := by
  have hne : ∀ d, isBlank d = false → c ≠ d := by
    rintro d hd rfl
    rw [hd] at hc
    cases hc.1
  have hquote := Brace.not_isLiteralQuote_of_isBlank hc.1
  have hslash : c ≠ '/' := hne _ (by decide)
  obtain ⟨m, os⟩ := s
  cases m with
  | code slash =>
      refine ⟨.code false, ?_, rfl, rfl⟩
      have hslash' : (c == '/') = false := beq_eq_false_iff_ne.2 hslash
      simp [step, hquote, hslash, hslash', hne '*' (by decide), hne '{' (by decide),
        hne '}' (by decide), hne '\x60' (by decide)]
  | quoted q escaped =>
      have hq : c ≠ q.1 := by
        rintro rfl
        rw [q.2] at hquote
        cases hquote
      exact ⟨.quoted q false, by simp [step, hc.2, hq, hne '\\' (by decide)], rfl, rfl⟩
  | template dollar escaped =>
      have hdollar : (c == '$') = false := beq_eq_false_iff_ne.2 (hne _ (by decide))
      exact ⟨.template false false, by simp [step, hdollar, hne '\\' (by decide),
        hne '\x60' (by decide), hne '{' (by decide)], rfl, rfl⟩
  | lineComment => exact ⟨.lineComment, by simp [step, hc.2], rfl, rfl⟩
  | blockComment star => exact ⟨.blockComment (c == '*'), by simp [step, hslash], rfl, rfl⟩

theorem foldlM_margin (hu : Brace.IsMargin u) (s : State) : ∃ m, u.foldlM step s = some (m, s.2) ∧
    m.isCode = s.1.isCode ∧ m.isComment = s.1.isComment := by
  induction u generalizing s with
  | nil => exact ⟨s.1, rfl, rfl, rfl⟩
  | cons c u ih =>
      obtain ⟨m, hstep, hcode, hcomment⟩ := step_margin (hu c List.mem_cons_self) s
      obtain ⟨m', hread, hcode', hcomment'⟩ := ih (fun d hd => hu d (List.mem_cons_of_mem c hd)) (m, s.2)
      exact ⟨m', (Text.foldlM_cons_of_eq hstep u).trans hread, hcode'.trans hcode,
        hcomment'.trans hcomment⟩

theorem ne_lineComment_of_line (h : (t ++ ['\n']).foldlM step s = some (m, os)) :
    m ≠ .lineComment := by
  rw [List.foldlM_append] at h
  obtain ⟨⟨m', os'⟩, -, hread⟩ := Option.bind_eq_some_iff.1 h
  obtain ⟨s', hstep, hs'⟩ := Option.bind_eq_some_iff.1 hread
  cases hs'
  rintro rfl
  cases m' with
  | code slash => cases slash <;> cases hstep
  | quoted q escaped => cases escaped <;> simp [step] at hstep
  | template dollar escaped => cases escaped <;> simp [step] at hstep
  | lineComment => simp [step] at hstep
  | blockComment star => simp [step] at hstep

theorem foldlM_line (os : List Opening) (h : m.isCode = true ∨ m = .lineComment) : ∃ os',
    ['\n'].foldlM step (m, os) = some (.code false, os') := by
  rcases h with h | rfl
  · cases m with
    | code slash => exact ⟨os, by cases slash <;> rfl⟩
    | quoted | template | lineComment | blockComment => cases h
  · exact ⟨os, rfl⟩

theorem Follows.mode_eq_code {base : List Opening} {slash : Bool} {depth : Nat}
    (h : Follows base u s (.code slash, depth)) : s.1 = .code slash := by
  generalize hf : ((.code slash, depth) : Brace.Mode × Nat) = f at h
  cases h with
  | @outside m os =>
      have hm := (Prod.mk.inj hf).1
      cases m <;> cases hm
      rfl
  | inside => cases (Prod.mk.inj hf).1

end Lexing

namespace Cut

/-- The place has a part of one comment on either side. -/
def InComment (k : Cut) : Prop :=
  ∃ m os, k.before.foldlM Lexing.step (.code false, []) = some (m, os) ∧
    (m.isComment = true ∧ k.after ≠ [] ∨
      m = .code true ∧ (k.after.head? = some '/' ∨ k.after.head? = some '*'))

def pastIndent (k : Cut) : Cut :=
  ⟨k.before ++ k.after.takeWhile fun c => c == ' ' || c == '\t', Shape.indent k.after⟩

variable {k : Cut} {before margin after : Text} {c : Char}

theorem inComment_iff (hc : k.after.head? = some c) (hslash : c ≠ '/') (hstar : c ≠ '*') :
    k.InComment ↔ ∃ m os, k.before.foldlM Lexing.step (.code false, []) = some (m, os) ∧
      m.isComment = true := by
  refine exists₂_congr fun m os => and_congr_right fun _ => ?_
  rw [hc, Option.some_inj, Option.some_inj]
  have hne : k.after ≠ [] := fun hnil => by rw [hnil] at hc; cases hc
  simp [hslash, hstar, hne]

theorem exists_head_margin (hmargin : Brace.IsMargin margin) (hc : after.head? = some c)
    (hslash : c ≠ '/') (hstar : c ≠ '*') :
    ∃ d, (margin ++ after).head? = some d ∧ d ≠ '/' ∧ d ≠ '*' := by
  cases margin with
  | nil => exact ⟨c, hc, hslash, hstar⟩
  | cons d margin =>
      have hd := (hmargin d List.mem_cons_self).1
      refine ⟨d, rfl, ?_, ?_⟩ <;> (rintro rfl; exact absurd hd (by decide))

theorem inComment_append_margin (before : Text) (hmargin : Brace.IsMargin margin)
    (hc : after.head? = some c) (hslash : c ≠ '/') (hstar : c ≠ '*') :
    InComment ⟨before, margin ++ after⟩ ↔ InComment ⟨before ++ margin, after⟩ := by
  obtain ⟨d, hd, hdslash, hdstar⟩ := exists_head_margin hmargin hc hslash hstar
  rw [inComment_iff (k := ⟨before, margin ++ after⟩) hd hdslash hdstar,
    inComment_iff (k := ⟨before ++ margin, after⟩) hc hslash hstar]
  constructor
  · rintro ⟨m, os, hread, hcomment⟩
    obtain ⟨m', hread', -, hcomment'⟩ := Lexing.foldlM_margin hmargin (m, os)
    exact ⟨m', os, (Text.foldlM_append_of_eq hread _).trans hread', hcomment'.trans hcomment⟩
  · rintro ⟨m, os, hread, hcomment⟩
    rw [List.foldlM_append] at hread
    obtain ⟨s, hs, hread⟩ := Option.bind_eq_some_iff.1 hread
    obtain ⟨m', hread', -, hcomment'⟩ := Lexing.foldlM_margin hmargin s
    cases hread'.symm.trans hread
    exact ⟨s.1, s.2, hs, hcomment'.symm.trans hcomment⟩

theorem inComment_lineStart (hstarts : k.startsLine = true) (hclose : k.after.head? = some '}') :
    k.lineStart.InComment ↔ k.InComment := by
  have hmargin : Brace.IsMargin k.lineHead := fun c hc =>
    ⟨List.all_eq_true.1 hstarts c hc, k.not_mem_lineHead c hc⟩
  have hiff := inComment_append_margin k.lineStart.before hmargin hclose (by decide) (by decide)
  rwa [k.lineStart_append_lineHead] at hiff

theorem inComment_pastIndent (hc : (Shape.indent k.after).head? = some c) (hslash : c ≠ '/')
    (hstar : c ≠ '*') : k.pastIndent.InComment ↔ k.InComment := by
  have hmargin : Brace.IsMargin (k.after.takeWhile fun c => c == ' ' || c == '\t') := by
    intro c hc
    have hc := List.mem_takeWhile_imp hc
    simp only [Bool.or_eq_true, beq_iff_eq] at hc
    rcases hc with rfl | rfl <;> decide
  have hiff := inComment_append_margin k.before hmargin hc hslash hstar
  rw [Shape.indent, List.takeWhile_append_dropWhile] at hiff
  exact hiff.symm

theorem pastIndent_eq_self (hclose : k.after.head? = some '}') : k.pastIndent = k := by
  obtain ⟨rest, hrest⟩ := List.head?_eq_some_iff.1 hclose
  obtain ⟨before, after⟩ := k
  cases hrest
  simp [pastIndent, Shape.indent]

end Cut

namespace Shape

variable {t : Text}

theorem head?_of_catchAllRoute (h : (catchAllRoute t).isSome = true) :
    ∃ c, (indent t).head? = some c ∧ c ≠ '/' ∧ c ≠ '*' := by
  obtain ⟨r, hr⟩ := Option.isSome_iff_exists.1 h
  obtain ⟨u, hu, -⟩ := Option.bind_eq_some_iff.1 hr
  cases hindent : indent t with
  | nil => rw [hindent] at hu; cases hu
  | cons c v =>
      rw [hindent, many, one] at hu
      split at hu
      · next hword =>
          refine ⟨c, rfl, ?_, ?_⟩ <;> (rintro rfl; exact absurd hword (by decide))
      · cases hu

theorem head?_of_defaultExport (h : (defaultExport t).isSome = true) :
    (indent t).head? = some 'e' := by
  obtain ⟨r, hr⟩ := Option.isSome_iff_exists.1 h
  obtain ⟨u, hu, -⟩ := Option.bind_eq_some_iff.1 hr
  rw [literal] at hu
  split at hu
  · next hword =>
      obtain ⟨v, hv⟩ := List.isPrefixOf_iff_prefix.1 hword
      rw [← hv]
      rfl
  · cases hu

end Shape

namespace Anchor

variable {a : Anchor} {t : Text} {k : Cut}

/-- Lines that are anchors begin with code, and where a mapping is closed there is a brace. -/
theorem inComment_pastIndent (ha : a ≠ .classEnd) (hfirst : a ≠ .firstImport)
    (h : a.locate t = some k) : k.pastIndent.InComment ↔ k.InComment := by
  cases a with
  | inputMapping => rw [Cut.pastIndent_eq_self (closing_of_inputMapping h).2]
  | catchAllRoute =>
      have hk := Text.of_lastCut? h
      obtain ⟨c, hc, hslash, hstar⟩ := Shape.head?_of_catchAllRoute (Bool.and_eq_true_iff.1 hk).2
      exact Cut.inComment_pastIndent hc hslash hstar
  | defaultExport =>
      have hk := Text.of_lastCut? h
      have hc := Shape.head?_of_defaultExport (Bool.and_eq_true_iff.1 hk).2
      exact Cut.inComment_pastIndent hc (by decide) (by decide)
  | classEnd => exact absurd rfl ha
  | textEnd =>
      cases h
      simp [Cut.pastIndent, Shape.indent]
  | firstImport => exact absurd rfl hfirst

end Anchor

/-- A class whose body opens in code is closed in code, unless a template literal in it has another one
within. -/
theorem HasClass.not_inComment {t head body tail : Text} {k : Cut} {slash : Bool}
    {os : List Lexing.Opening} (hclass : HasClass t head body tail) (hclosed : Lexing.IsClosed t)
    (hk : Anchor.locate t .classEnd = some k)
    (hhead : head.foldlM Lexing.step (.code false, []) = some (.code slash, os))
    (hbare : ∀ u v, body = u ++ '\x60' :: v → ¬Lexing.Nests (.block :: os) u) : ¬k.InComment := by
  obtain ⟨members, margin, rfl, hmargin, -, hlocate⟩ := hclass.exists_margin
  obtain rfl := Option.some.inj (hlocate.symm.trans hk)
  obtain ⟨slash', hbalanced⟩ := hclass.isBalanced.of_append_margin hmargin
  have hopen : (head ++ ['{']).foldlM Lexing.step (.code false, []) =
      some (.code false, .block :: os) := by
    rw [Text.foldlM_append_of_eq hhead]
    cases slash <;> rfl
  have hsplit : head ++ '{' :: members = (head ++ ['{']) ++ members := by simp
  obtain ⟨s, hs⟩ : ∃ s, (head ++ '{' :: members).foldlM Lexing.step (.code false, []) = some s := by
    refine Lexing.exists_of_isClosed (u := margin ++ '}' :: tail) ?_
    have hwhole := hclass.whole
    rw [List.append_assoc, ← List.cons_append, ← List.append_assoc] at hwhole
    rwa [← hwhole]
  rw [hsplit, Text.foldlM_append_of_eq hopen] at hs
  obtain ⟨f, hf, hfollows⟩ := Lexing.follows_of_foldlM hs
    (fun a b hab => hbare a (b ++ margin) (by rw [hab]; simp))
    fun a b _ hab _ hnone => by
      rw [hab, List.append_cons, List.foldlM_append, hnone] at hbalanced
      cases hbalanced
  obtain rfl := Option.some.inj (hf.symm.trans hbalanced)
  have hbrace : ('}' :: tail).head? = some '}' := rfl
  obtain ⟨c, hc, hslash, hstar⟩ := Cut.exists_head_margin hmargin hbrace (by decide) (by decide)
  rw [Cut.inComment_iff (k := ⟨head ++ '{' :: members, margin ++ '}' :: tail⟩) hc hslash hstar]
  rintro ⟨m, os', hread, hcomment⟩
  rw [hsplit, Text.foldlM_append_of_eq hopen] at hread
  obtain rfl := Option.some.inj (hs.symm.trans hread)
  obtain rfl : m = .code slash' := hfollows.mode_eq_code
  cases hcomment

namespace Insertion

variable {i : Insertion} {t : Text} {edits : List Edit} {a anchor : Anchor} {missed : Option Anchor}
  {k : Cut}

theorem exists_fragmentEdit (hplace : i.place? t = some (a, k)) : ∃ j others new,
    i.fragmentEdits k = others ++ [.insert j.before new] ∧ i.core <:+: new ∧
      (j = k ∨ a = .inputMapping ∧ k.startsLine = true ∧ j = k.lineStart) ∧
      (a = .textEnd → new = i.appended t) := by
  obtain ⟨hlocate, hmem⟩ := mem_of_place? hplace
  have hblock : i.core <:+: i.block := core_prefix_block.isInfix
  unfold fragmentEdits
  split
  · next hkind =>
      obtain rfl := (exists_of_place? hplace).2 hkind
      have hcore : i.core <:+: i.fragment := (Text.begins_dropEndWhile _ _).isInfix
      rw [Mapping.edits, Mapping.entryEdit]
      split
      · next hline =>
          exact ⟨k.lineStart, _, _, rfl, hcore.trans (List.infix_append _ _ _),
            .inr ⟨rfl, hline.2, rfl⟩, fun h => by cases h⟩
      · exact ⟨k, _, _, rfl, hcore.trans (List.infix_append _ _ _), .inl rfl, fun h => by cases h⟩
  · next hkind =>
      refine ⟨k, [], _, rfl, hblock.trans (List.suffix_append _ _).isInfix, .inl rfl, ?_⟩
      rintro rfl
      rw [hkind] at hmem
      exact absurd hmem (by decide)
  · split
    · next hend =>
        refine ⟨k, [], _, rfl, hblock.trans (List.suffix_append _ _).isInfix, .inl rfl, ?_⟩
        rintro rfl
        cases hlocate
        rfl
    · next hend =>
        refine ⟨k, [], _, rfl, hblock.trans (List.prefix_append _ _).isInfix, .inl rfl, ?_⟩
        rintro rfl
        cases hlocate
        exact absurd rfl hend

/-- At the end of a file a fragment comes in code. -/
theorem appended_in_code (hclosed : Lexing.IsClosed t) : ∃ lead slash os,
    i.appended t = lead ++ i.block ∧
      (t ++ lead).foldlM Lexing.step (.code false, []) = some (.code slash, os) := by
  obtain ⟨m, os, hread, hend, -⟩ := hclosed
  obtain ⟨os', hline⟩ := Lexing.foldlM_line os hend
  rw [appended]
  split
  · next hlead =>
      have hm : m ≠ .lineComment := by
        rcases Bool.or_eq_true_iff.1 hlead with hempty | hlines
        · rw [List.isEmpty_iff.1 hempty] at hread
          cases hread
          decide
        · obtain ⟨u, rfl⟩ := List.isSuffixOf_iff_suffix.1 hlines
          have hsplit : u ++ "\n\n".toList = (u ++ ['\n']) ++ ['\n'] := by simp
          rw [hsplit] at hread
          exact Lexing.ne_lineComment_of_line hread
      cases m with
      | code slash => exact ⟨[], slash, os, rfl, by rwa [List.append_nil]⟩
      | lineComment => exact absurd rfl hm
      | quoted | template | blockComment => simp [Lexing.Mode.isCode] at hend
  · split
    · exact ⟨_, false, os', rfl, (Text.foldlM_append_of_eq hread _).trans hline⟩
    · have hlines : List.foldlM Lexing.step (m, os) "\n\n" = some (.code false, os') :=
        (Text.foldlM_append_of_eq hline ['\n']).trans rfl
      exact ⟨_, false, os', rfl, (Text.foldlM_append_of_eq hread _).trans hlines⟩

/-- Where a fragment goes into a comment. It does just where the code that is the anchor stands in one
itself: the brace that closes a mapping, or the beginning of a line with a catch-all route or a default
export. At the end of a file it never does. Nor does it in a class whose body opens in code, unless a
template literal in the class has another one within. -/
theorem fragment_in_comment_iff (hclosed : Lexing.IsClosed t)
    (hplan : i.plan t = .edits edits anchor missed) :
    ∃ (k j : Cut) (others : List Edit) (new : Text), i.place? t = some (anchor, k) ∧
      edits = others ++ [.insert j.before new] ∧ j.whole = t ∧ i.core <:+: new ∧
      (anchor ≠ .classEnd → (j.InComment ↔ k.pastIndent.InComment)) ∧
      (anchor = .textEnd → ¬j.InComment ∧ ∃ lead slash os, new = lead ++ i.block ∧
        (t ++ lead).foldlM Lexing.step (.code false, []) = some (.code slash, os)) ∧
      (anchor = .classEnd → ∃ head body tail, HasClass t head body tail ∧ ∀ slash os,
        head.foldlM Lexing.step (.code false, []) = some (.code slash, os) →
        (∀ u v, body = u ++ '\x60' :: v → ¬Lexing.Nests (.block :: os) u) → ¬j.InComment) := by
  obtain ⟨-, k, hplace, rfl⟩ := of_plan hplan
  obtain ⟨hlocate, -⟩ := exists_of_place? hplace
  have hwhole := (Anchor.isJoint_of_locate hlocate).1
  obtain ⟨j, others, new, hedits, hcore, hj, happended⟩ := exists_fragmentEdit hplace
  refine ⟨k, j, i.imports.filterMap (·.plan? t) ++ others, new, hplace,
    by rw [hedits, List.append_assoc], ?_, hcore, fun hclass => ?_, ?_, ?_⟩
  · rcases hj with rfl | ⟨-, -, rfl⟩
    · exact hwhole
    · exact (Cut.whole_lineStart k).trans hwhole
  · rw [Anchor.inComment_pastIndent hclass (ne_firstImport_of_place? hplace) hlocate]
    rcases hj with rfl | ⟨rfl, hstarts, rfl⟩
    · exact Iff.rfl
    · exact Cut.inComment_lineStart hstarts (Anchor.closing_of_inputMapping hlocate).2
  · rintro rfl
    obtain ⟨lead, slash, os, hnew, hread⟩ := i.appended_in_code hclosed
    refine ⟨?_, lead, slash, os, (happended rfl).trans hnew, hread⟩
    rcases hj with rfl | ⟨ha, -, -⟩
    · cases hlocate
      rintro ⟨m, os, -, ⟨-, hne⟩ | ⟨-, hslash | hstar⟩⟩
      · exact hne rfl
      · cases hslash
      · cases hstar
    · cases ha
  · rintro rfl
    obtain ⟨head, body, tail, hclass⟩ := exists_hasClass hlocate
    refine ⟨head, body, tail, hclass, fun slash os hhead hbare => ?_⟩
    rcases hj with rfl | ⟨ha, -, -⟩
    · exact hclass.not_inComment hclosed hlocate hhead hbare
    · cases ha

/-- A class whose members have braces in a comment and in a template literal. -/
theorem fragment_in_comment_iff_class :
    let t : Text := "/* class Old \x7b\x7d */\nclass A \x7b\n  // \x7d\n  b = `\x7b$\x7b1\x7d`;\n\x7d\n"
    ∃ (j : Cut) (others : List Edit) (new : Text),
      Insertion.plan ⟨.shard, ["ping"], [], "  ping() \x7b\x7d"⟩ t =
        .edits (others ++ [.insert j.before new]) .classEnd none ∧
      j.whole = t ∧ ¬j.InComment := by
  intro t
  have hclosed : Lexing.IsClosed t := ⟨.code false, [], by decide +kernel, .inl rfl, by simp⟩
  have hplan : Insertion.plan ⟨.shard, ["ping"], [], "  ping() \x7b\x7d"⟩ t = .edits
      [.insert "/* class Old \x7b\x7d */\nclass A \x7b\n  // \x7d\n  b = `\x7b$\x7b1\x7d`;\n".toList
        "\n  ping() \x7b\x7d\n"] .classEnd none := by
    decide +kernel
  obtain ⟨k, j, others, new, -, hedits, hwhole, -, -, -, hclass⟩ :=
    fragment_in_comment_iff hclosed hplan
  rw [hedits] at hplan
  obtain ⟨head, body, tail, hclass, hcode⟩ := hclass rfl
  have hA : HasClass t "/* class Old \x7b\x7d */\nclass A " "\n  // \x7d\n  b = `\x7b$\x7b1\x7d`;\n" "\n" :=
    ⟨by decide +kernel, by decide +kernel, by decide +kernel⟩
  obtain ⟨rfl, rfl, rfl⟩ := hclass.unique hA
  exact ⟨j, others, new, hplan, hwhole, hcode false [] (by decide +kernel)
    (Lexing.not_nests_of_all (by decide +kernel))⟩

/-- A catch-all route that is commented out still is where routes go, so the new one is commented out
as well. -/
theorem fragment_joins_comment :
    let before : Text :=
      "import \x7b Hono \x7d from 'hono';\nconst app = new Hono();\n\n/*\n"
    let after : Text := "app.get('*', old);\n*/\n\nexport default app;\n"
    Lexing.IsClosed (before ++ after) ∧
      Insertion.plan ⟨.routes, ["'/api/feed'"], [], "app.get('/api/feed', feed);\n"⟩ (before ++ after) =
        .edits [.insert before "app.get('/api/feed', feed);\n\n"] .catchAllRoute none ∧
      Cut.InComment ⟨before, after⟩ := by
  refine ⟨⟨.code false, [], ?_, .inl rfl, by simp⟩, ?_, .blockComment false, [], ?_, .inl ⟨rfl, ?_⟩⟩ <;>
    decide +kernel

end Insertion

end Scaffold
