import Scaffold.Proofs.Anchor.FirstLine
import Scaffold.Proofs.Insertion.Entries

namespace Scaffold

open Text

theorem not_inRanges_of_apart {rs qs : List (Nat × Nat)} {c : Char}
    (h : (rs.all fun r => qs.all fun q => decide (r.2 < q.1 ∨ q.2 < r.1)) = true)
    (hc : inRanges rs c = true) : inRanges qs c = false := by
  obtain ⟨r, hr, hin⟩ := List.any_eq_true.1 hc
  refine List.any_eq_false.2 fun q hq => ?_
  have hapart := List.all_eq_true.1 (List.all_eq_true.1 h r hr) q hq
  simp only [decide_eq_true_eq, Bool.and_eq_true] at hapart hin ⊢
  omega

theorem not_isWord_of_isBlank {c : Char} (hc : isBlank c = true) : isWord c = false := by
  rw [isWord]
  split
  · next hascii =>
      have hall : ∀ n < 0x80, isBlank (Char.ofNat n) = true →
          ((Char.ofNat n).isAlphanum || Char.ofNat n == '_') = false := by decide
      have hn := hall c.toNat hascii
      rw [Char.ofNat_toNat] at hn
      exact hn hc
  · exact not_inRanges_of_apart (by decide +kernel) hc

namespace Shape

def IsModifier (word w : Text) : Prop :=
  w = [] ∨ ∃ g, g ≠ [] ∧ (∀ c ∈ g, isBlank c = true) ∧ w = word ++ g

def IsClassLead (lead : Text) : Prop := ∃ margin e d a : Text,
  (∀ c ∈ margin, (c == ' ' || c == '\t') = true) ∧ IsModifier "export" e ∧
    IsModifier "default" d ∧ IsModifier "abstract" a ∧ lead = margin ++ (e ++ (d ++ a))

variable {word w r lead gap name z u v : Text} {c : Char}

theorem modifier_append (hw : IsModifier word w) (hword : word ≠ []) (hr : r.head? ≠ word.head?)
    (hblank : r.head?.any isBlank = false) : modifier word (w ++ r) = r := by
  rcases hw with rfl | ⟨g, hne, hg, rfl⟩
  · exact modifier_eq_self hword hr
  · rw [modifier, List.append_assoc, literal_append, Option.bind_some, many_append hne hg hblank]
    rfl

theorem head?_of_isModifier (hw : IsModifier word w) (hword : word ≠ []) :
    (w ++ r).head? = word.head? ∨ (w ++ r).head? = r.head? := by
  rcases hw with rfl | ⟨g, -, -, rfl⟩
  · exact .inr rfl
  · rw [List.append_assoc, List.head?_append_of_ne_nil _ hword]
    exact .inl rfl

theorem classDeclaration_append (hlead : IsClassLead lead) (hgap : gap ≠ [])
    (hblank : ∀ c ∈ gap, isBlank c = true) (hname : name ≠ []) (hword : ∀ c ∈ name, isWord c = true)
    (hz : z.head?.any isWord = false) :
    classDeclaration (lead ++ ("class" ++ (gap ++ (name ++ z)))) = some z := by
  obtain ⟨margin, e, d, a, hmargin, he, hd, ha, rfl⟩ := hlead
  have hclass : ("class" ++ (gap ++ (name ++ z))).head? = some 'c' := rfl
  have hread : (literal "class" ("class" ++ (gap ++ (name ++ z)))).bind
      (fun t => (many isBlank t).bind (many isWord)) = some z := by
    have hnoblank : (name ++ z).head?.any isBlank = false := by
      obtain ⟨c, name, rfl⟩ := List.exists_cons_of_ne_nil hname
      have hc := hword c List.mem_cons_self
      rw [Bool.eq_false_iff]
      intro hblank
      rw [not_isWord_of_isBlank hblank] at hc
      cases hc
    rw [literal_append, Option.bind_some, many_append hgap hblank hnoblank, Option.bind_some,
      many_append hname hword hz]
  generalize "class" ++ (gap ++ (name ++ z)) = decl at hclass hread ⊢
  -- Each of the words begins with a letter of its own, so none is taken for another.
  have habstract : modifier "abstract" (a ++ decl) = decl :=
    modifier_append ha (by decide) (by rw [hclass]; decide) (by rw [hclass]; decide)
  have ha' : (a ++ decl).head? = some 'a' ∨ (a ++ decl).head? = some 'c' :=
    hclass ▸ head?_of_isModifier ha (by decide)
  have hdefault : modifier "default" (d ++ (a ++ decl)) = a ++ decl := by
    apply modifier_append hd (by decide) <;> rcases ha' with h | h <;> rw [h] <;> decide
  have hd' : (d ++ (a ++ decl)).head? = some 'd' ∨ (d ++ (a ++ decl)).head? = some 'a' ∨
      (d ++ (a ++ decl)).head? = some 'c' :=
    (head?_of_isModifier hd (by decide)).imp id fun (h : _ = _) => by rwa [h]
  have hexport : modifier "export" (e ++ (d ++ (a ++ decl))) = d ++ (a ++ decl) := by
    apply modifier_append he (by decide) <;> rcases hd' with h | h | h <;> rw [h] <;> decide
  have he' : (e ++ (d ++ (a ++ decl))).head? = some 'e' ∨
      (e ++ (d ++ (a ++ decl))).head? = (d ++ (a ++ decl)).head? :=
    head?_of_isModifier he (by decide)
  have hindent : indent (margin ++ (e ++ (d ++ (a ++ decl)))) = e ++ (d ++ (a ++ decl)) := by
    refine dropWhile_append hmargin ?_
    rcases he' with h | h <;> rw [h]
    · decide
    · rcases hd' with h | h | h <;> rw [h] <;> decide
  simp only [classDeclaration, List.append_assoc, hindent, hexport, hdefault, habstract]
  exact hread

theorem exists_of_classDeclaration (h : classDeclaration z = some r) :
    ∃ m, z = m ++ r ∧ '{' ∉ m := by
  obtain ⟨m, rfl⟩ := suffix_of_classDeclaration h
  refine ⟨m, rfl, fun hmem => ?_⟩
  obtain ⟨u, v, rfl⟩ := List.append_of_mem hmem
  obtain ⟨o, ho⟩ := haltsAt_classDeclaration (c := '{') (by decide) u
  have hread := ho (v ++ r)
  rw [← List.cons_append, ← List.append_assoc, h] at hread
  obtain ⟨w, -, hw⟩ := Option.map_eq_some_iff.1 hread.symm
  have hlength := congrArg List.length hw
  simp only [List.length_append, List.length_cons] at hlength
  omega

/-- What begins a class declaration only by what follows it has no opening brace. -/
theorem not_mem_of_classDeclaration (hnone : classDeclaration w = none)
    (hsome : (classDeclaration (w ++ z)).isSome = true) : '{' ∉ w := by
  intro hmem
  obtain ⟨u, v, rfl⟩ := List.append_of_mem hmem
  obtain ⟨o, ho⟩ := haltsAt_classDeclaration (c := '{') (by decide) u
  rw [ho v, Option.map_eq_none_iff] at hnone
  rw [List.append_assoc, List.cons_append, ho, hnone] at hsome
  cases hsome

end Shape

theorem Text.dropWhile_ne_append {c : Char} {w z : Text} (h : c ∉ w) :
    (w ++ z).dropWhile (· != c) = z.dropWhile (· != c) :=
  List.dropWhile_append_of_pos fun d hd => by simpa using ne_of_mem_of_not_mem hd h

/-- A text that ends with the name of a class and declares no other one before. -/
structure ClassStart where
  above : Text
  lead : Text
  gap : Text
  name : Text
  above_line : beginsLine above.getLast? = true
  above_misses : Shape.classDeclaration.Misses true (above ++ lead)
  lead_words : Shape.IsClassLead lead
  gap_blank : gap ≠ [] ∧ ∀ c ∈ gap, isBlank c = true
  name_word : name ≠ [] ∧ ∀ c ∈ name, isWord c = true

namespace ClassStart

def whole (s : ClassStart) : Text := s.above ++ (s.lead ++ ("class" ++ (s.gap ++ s.name)))

variable (s : ClassStart) {z header : Text}

/-- The body of the class is taken to begin at the first brace after the class's name. -/
theorem classOpening?_append (hz : z.head?.any isWord = false) :
    Anchor.classOpening? (s.whole ++ z) = some (z.dropWhile (· != '{')) := by
  obtain ⟨above, lead, gap, name, hline, hmisses, hlead, hgap, hname⟩ := s
  have hdeclares := Shape.classDeclaration_append hlead hgap.1 hgap.2 hname.1 hname.2 hz
  have hflat : '{' ∉ "class" ++ (gap ++ name) := by
    simp only [List.mem_append, not_or]
    exact ⟨by decide, fun h => absurd (hgap.2 _ h) (by decide),
      fun h => absurd (hname.2 _ h) (by decide)⟩
  have hwhole : ClassStart.whole ⟨above, lead, gap, name, hline, hmisses, hlead, hgap, hname⟩ ++ z =
      above ++ (lead ++ ("class" ++ (gap ++ name) ++ z)) := by simp [whole]
  have hdecl : "class" ++ (gap ++ (name ++ z)) = "class" ++ (gap ++ name) ++ z := by simp
  rw [hdecl] at hdeclares
  rw [hwhole]
  generalize "class" ++ (gap ++ name) = decl at hdeclares hflat ⊢
  obtain ⟨⟨a, b⟩, hcut⟩ := @exists_firstCut?
    (fun prev rest => beginsLine prev && (Shape.classDeclaration rest).isSome) none above
    (lead ++ (decl ++ z)) (by rw [Option.or_none, hline, hdeclares]; rfl)
  obtain ⟨hcuts, hbegins, hsome, hfirst⟩ := firstLine?_eq_some_iff.1 hcut
  -- The declaration may begin above the line that is meant, but not below it.
  obtain ⟨w, rfl, rfl⟩ : ∃ w, above = a ++ w ∧ b = w ++ (lead ++ (decl ++ z)) := by
    rcases List.append_eq_append_iff.1 hcuts with ⟨w, rfl, hb⟩ | ⟨w, rfl, hb⟩
    · by_cases hw : w = []
      · subst hw
        exact ⟨[], by simp, by simpa using hb.symm⟩
      · have hnone := hfirst above w rfl hw (lineAfter_true ▸ hline)
        rw [← hb, hdeclares] at hnone
        cases hnone
    · exact ⟨w, rfl, hb⟩
  obtain ⟨r, hr⟩ := Option.isSome_iff_exists.1 hsome
  obtain ⟨m, hm, hopen⟩ := Shape.exists_of_classDeclaration hr
  have hlead : '{' ∉ w ++ lead := Shape.not_mem_of_classDeclaration (z := decl ++ z)
    (hmisses a (w ++ lead) (by simp) (lineAfter_true ▸ hbegins)) (by rw [List.append_assoc, hsome])
  have hclass : Anchor.classOpening? (a ++ w ++ (lead ++ (decl ++ z))) =
      Shape.classOpening (w ++ (lead ++ (decl ++ z))) := congrArg (Option.bind · _) hcut
  rw [hclass, Shape.classOpening, hr, Option.bind_some, ← dropWhile_ne_append hopen, ← hm,
    ← List.append_assoc, dropWhile_ne_append hlead, dropWhile_ne_append hflat]

theorem classOpening?_brace (hheader : header.head?.any isWord = false) (hnot : '{' ∉ header) :
    Anchor.classOpening? (s.whole ++ (header ++ '{' :: z)) = some ('{' :: z) := by
  rw [classOpening?_append, dropWhile_ne_append hnot, List.dropWhile_cons_of_neg (by simp)]
  cases header with
  | nil => exact (by decide : isWord '{' = false)
  | cons c header => exact hheader

/-- The class of a header without a brace has the body that comes after the header. -/
theorem hasClass (hheader : header.head?.any isWord = false) (hnot : '{' ∉ header)
    {body : Text} (hbody : Brace.IsBalanced body) (tail : Text) :
    HasClass (s.whole ++ (header ++ '{' :: (body ++ '}' :: tail))) (s.whole ++ header) body tail where
  whole := by rw [List.append_assoc]
  opening := s.classOpening?_brace hheader hnot
  closing := Brace.closing?_eq_some_iff.2 ⟨body, tail, rfl, rfl, hbody⟩

end ClassStart

namespace Cut

theorem after_of_besideBrace {k : Cut} (h : k.after.head? = some '}') :
    k.besideBrace.after.dropWhile isBlank = k.after := by
  have hstop : k.after.head?.any isBlank = false := by rw [h]; decide
  rw [besideBrace]
  split
  · next hstarts => exact Shape.dropWhile_append (List.all_eq_true.1 hstarts) hstop
  · exact Shape.dropWhile_append (g := []) (by simp) hstop

theorem tail_eq_of_besideBrace {head body tail head' body' tail' : Text}
    (h : (closing head body tail).besideBrace = (closing head' body' tail').besideBrace) :
    tail = tail' := by
  have hafter := congrArg (·.after.dropWhile isBlank) h
  simp only [after_of_besideBrace (k := closing head body tail) rfl,
    after_of_besideBrace (k := closing head' body' tail') rfl] at hafter
  exact (List.cons.inj hafter).2

end Cut

theorem HasClass.of_locate {t o head body tail : Text}
    (hopening : Anchor.classOpening? t = some ('{' :: o))
    (h : Anchor.locate t .classEnd = some (Cut.closing head body tail).besideBrace) :
    ∃ inner, o = inner ++ '}' :: tail ∧ Brace.IsBalanced inner := by
  obtain ⟨head₀, body₀, tail₀, hclass⟩ := exists_hasClass h
  have hbeside := Option.some.inj (hclass.locate.symm.trans h)
  obtain rfl := Cut.tail_eq_of_besideBrace hbeside
  have ho := Option.some.inj (hclass.opening.symm.trans hopening)
  exact ⟨body₀, (List.cons.inj ho).2.symm, hclass.isBalanced⟩

/-- Which brace closes a class, by the header. It is the one that closes the body just if the header has
no brace, or if the first brace of the header is left open up to the body's end. An object type in the
header is taken for the body, so that the anchor is in the header. -/
theorem class_end_by_first_brace (s : ClassStart) {header body post : Text}
    (hheader : header.head?.any isWord = false) (hbody : Brace.IsBalanced body) :
    let t := s.whole ++ (header ++ '{' :: (body ++ '}' :: post))
    let close := Cut.closing (s.whole ++ header) body post
    (Anchor.locate t .classEnd = some close.besideBrace ↔ '{' ∉ header ∨
      ∃ h h', header = h ++ '{' :: h' ∧ '{' ∉ h ∧ Brace.IsBalanced (h' ++ '{' :: body)) ∧
    ∀ h type h', header = h ++ '{' :: (type ++ '}' :: h') → '{' ∉ h → Brace.IsBalanced type →
      Anchor.locate t .classEnd = some
          (Cut.closing (s.whole ++ h) type (h' ++ '{' :: (body ++ '}' :: post))).besideBrace ∧
        Anchor.locate t .classEnd ≠ some close.besideBrace := by
  intro t close
  have hlead : ∀ h z, header = h ++ z → h.head?.any isWord = false := by
    rintro h z rfl
    cases h with
    | nil => rfl
    | cons c h => exact hheader
  refine ⟨⟨fun hlocate => ?_, ?_⟩, ?_⟩
  · by_cases hmem : '{' ∈ header
    · obtain ⟨h, h', hh, hnot⟩ := List.eq_append_cons_of_mem hmem
      have ht : t = s.whole ++ (h ++ '{' :: (h' ++ '{' :: body ++ '}' :: post)) := by simp [t, hh]
      obtain ⟨inner, hinner, hbalanced⟩ :=
        HasClass.of_locate (ht ▸ s.classOpening?_brace (hlead h _ hh) hnot) hlocate
      exact .inr ⟨h, h', hh, hnot, by rwa [List.append_cancel_right hinner]⟩
    · exact .inl hmem
  · rintro (hnot | ⟨h, h', hh, hnot, hbalanced⟩)
    · exact (s.hasClass hheader hnot hbody post).locate
    · have ht : t = s.whole ++ (h ++ '{' :: (h' ++ '{' :: body ++ '}' :: post)) := by simp [t, hh]
      have hclose : close = Cut.closing (s.whole ++ h) (h' ++ '{' :: body) post := by
        simp [close, Cut.closing, hh]
      rw [ht, hclose]
      exact (s.hasClass (hlead h _ hh) hnot hbalanced post).locate
  · rintro h type h' hh hnot htype
    have ht : t = s.whole ++ (h ++ '{' :: (type ++ '}' :: (h' ++ '{' :: (body ++ '}' :: post)))) := by
      simp [t, hh]
    have hlocate := (s.hasClass (hlead h _ hh) hnot htype (h' ++ '{' :: (body ++ '}' :: post))).locate
    rw [← ht] at hlocate
    refine ⟨hlocate, fun hclose => ?_⟩
    have htail := Cut.tail_eq_of_besideBrace (Option.some.inj (hlocate.symm.trans hclose))
    have hlength := congrArg List.length htail
    simp only [List.length_append, List.length_cons] at hlength
    omega

theorem class_end_by_first_brace_shard :
    ∃ s : ClassStart,
      s.whole = "import type \x7b Env \x7d from './env';\n\nexport class UserShard".toList ∧
      Anchor.locate (s.whole ++ (" extends DurableObject<Env> /* a shard */ ".toList ++
          '{' :: ("\n  ping() \x7b\n  \x7d\n".toList ++ '}' :: "\n".toList))) .classEnd =
        some (Cut.closing (s.whole ++ " extends DurableObject<Env> /* a shard */ ")
          "\n  ping() \x7b\n  \x7d\n" "\n").besideBrace := by
  let s : ClassStart :=
    { above := "import type \x7b Env \x7d from './env';\n\n"
      lead := "export "
      gap := " "
      name := "UserShard"
      above_line := rfl
      above_misses := Text.lastLine?_eq_none_iff.1 (by decide +kernel)
      lead_words := ⟨[], "export ", [], [], by simp, .inr ⟨" ", by decide,
        List.all_eq_true.1 (by decide), rfl⟩, .inl rfl, .inl rfl, rfl⟩
      gap_blank := ⟨by decide, List.all_eq_true.1 (by decide)⟩
      name_word := ⟨by decide, List.all_eq_true.1 (by decide)⟩ }
  refine ⟨s, by decide, (class_end_by_first_brace s ?_ ⟨false, ?_⟩).1.2 (.inl ?_)⟩ <;> decide +kernel

/-- The braces of the object type are taken for the class's body, so the class would be closed in its
header. -/
theorem object_type_hides_class_body :
    let t : Text :=
      "export class UserShard extends Base<\x7b id: string \x7d> \x7b\n  ping() \x7b\n  \x7d\n\x7d\n"
    (Text.firstLine? (fun r => (Shape.classDeclaration r).isSome) t).map (·.before) = some [] ∧
      t = "export class UserShard extends Base<\x7b id: string \x7d> ".toList ++
        '{' :: ("\n  ping() \x7b\n  \x7d\n".toList ++ '}' :: "\n".toList) ∧
      Brace.IsBalanced " id: string " ∧ Brace.IsBalanced "\n  ping() \x7b\n  \x7d\n" ∧
      Anchor.locate t .classEnd = some ⟨"export class UserShard extends Base<\x7b id: string ",
        "\x7d> \x7b\n  ping() \x7b\n  \x7d\n\x7d\n"⟩ ∧
      Anchor.locate t .classEnd ≠ some (Cut.closing
        "export class UserShard extends Base<\x7b id: string \x7d> " "\n  ping() \x7b\n  \x7d\n"
        "\n").besideBrace := by
  refine ⟨?_, ?_, ⟨false, ?_⟩, ⟨false, ?_⟩, ?_, ?_⟩ <;> decide +kernel

end Scaffold
