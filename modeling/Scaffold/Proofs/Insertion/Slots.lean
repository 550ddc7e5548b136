import Mathlib.Data.List.Chain
import Scaffold.Proofs.Insertion.Commas
import Scaffold.Proofs.Insertion.Outline

namespace Scaffold

open Text

theorem Text.flatMap_lines (ls : List Text) :
    ls.flatMap ("\n".toList ++ ·) ++ ['\n'] = '\n' :: unlines ls := by
  induction ls with
  | nil => rfl
  | cons l ls ih => rw [List.flatMap_cons, List.append_assoc, ih, unlines_cons]; simp

namespace Mapping

def IsFilled (outline : Text) : Prop := outline.IsChain fun c d => ¬(c = ',' ∧ d = ',')

instance (outline : Text) : Decidable (IsFilled outline) :=
  inferInstanceAs (Decidable (List.IsChain _ _))

structure IsSlot (entry : Text) : Prop where
  braces : '{' ∉ entry ∧ '}' ∉ entry
  isBalanced : Brace.IsBalanced entry
  isFilled : IsFilled (Brace.outline entry)
  first : ∃ c, (Brace.outline entry).head? = some c ∧ c ≠ ','
  last : (Brace.outline entry).getLast? ≠ some ','

variable {code out entry body x y z lead gap : Text}

theorem isFilled_slot (h : IsSlot entry) :
    IsFilled (code ++ Brace.outline entry ++ [',']) ↔ IsFilled code := by
  obtain ⟨c, hc, hcomma⟩ := h.first
  have hslot := h.isFilled
  have hlast := h.last
  generalize Brace.outline entry = e at *
  have hne : e ≠ [] := by
    rintro rfl
    cases hc
  rw [IsFilled, IsFilled, List.isChain_append, List.isChain_append,
    List.getLast?_append_of_ne_nil _ hne, hc]
  refine ⟨fun hall => hall.1.1, fun hcode => ⟨⟨hcode, hslot, ?_⟩, List.isChain_singleton _, ?_⟩⟩
  · rintro d - _ ⟨⟩ ⟨-, rfl⟩
    exact hcomma rfl
  · rintro d hd _ - ⟨rfl, -⟩
    exact hlast hd

theorem isFilled_comma (h : IsFilled code) : IsFilled (code ++ [',']) ↔ code.getLast? ≠ some ',' := by
  rw [IsFilled, List.isChain_append]
  constructor
  · rintro ⟨-, -, hall⟩ hlast
    exact hall ',' hlast ',' rfl ⟨rfl, rfl⟩
  · refine fun hlast => ⟨h, List.isChain_singleton _, ?_⟩
    rintro d hd _ - ⟨rfl, -⟩
    exact hlast hd

theorem exists_idle (h : upToCode? (List.splitOn '\n' body).reverse = some x) :
    ∃ w ls, body = x ++ w ∧ w ++ ['\n'] = unlines ls ∧ ∀ l ∈ ls, Brace.IsIdle l := by
  obtain ⟨below, line, above, hlines, hbelow, -, rfl⟩ := of_upToCode? h
  have hpieces : List.splitOn '\n' body = above.reverse ++ line :: below.reverse := by
    rw [← List.reverse_reverse (List.splitOn '\n' body), hlines]
    simp
  have hflat : ∀ l ∈ above.reverse ++ line :: below.reverse, '\n' ∉ l :=
    fun l hl => not_mem_of_mem_splitOn (t := body) (hpieces ▸ hl)
  obtain ⟨b, hb, hblank⟩ := trimEnd_split (code line)
  obtain ⟨r, hr, hrest⟩ := codeFrom_split none false line
  have hline : line = trimEnd (code line) ++ (b ++ r) := by
    rw [← List.append_assoc, ← hb]
    exact hr
  refine ⟨(b ++ r) ++ below.reverse.flatMap ("\n".toList ++ ·), (b ++ r) :: below.reverse, ?_, ?_, ?_⟩
  · have hjoin : List.intercalate "\n" (List.splitOn '\n' body) = body :=
      List.intercalate_splitOn '\n'
    rw [hpieces, intercalate_append_cons] at hjoin
    rw [← List.append_assoc, ← intercalate_append_singleton, ← hline]
    exact hjoin.symm
  · rw [unlines_cons, List.append_assoc, flatMap_lines]
  · intro l hl
    rcases List.mem_cons.1 hl with rfl | hl
    · refine ⟨fun hmem => hflat line (by simp) ?_, b, r, rfl, hblank, hrest⟩
      rw [hline]
      exact List.mem_append_right _ hmem
    · obtain ⟨r', hr', hrest'⟩ := codeFrom_split none false l
      have hvoid := visible_eq_nil_iff.1 (hbelow l (List.mem_reverse.1 hl))
      exact ⟨hflat l (by simp [List.mem_reverse.1 hl]), code l, r', hr',
        List.all_eq_true.1 hvoid, hrest'⟩

/-- A comma behind the last line with code comes after all the code, unless it is in a literal or in a
comment. -/
theorem exists_comma (hx : upToCode? (List.splitOn '\n' body).reverse = some x)
    (hbody : Brace.IsBalanced body)
    (hseam : ∀ w m depth, body = x ++ w → x.foldlM Brace.step (.code false, 0) = some (m, depth) →
      ¬Brace.Bonds m w.head?) :
    ∃ w, body = x ++ w ∧ Brace.IsBalanced (x ++ ',' :: w) ∧
      (Brace.IsBalanced x ∧ Brace.outline (x ++ ',' :: w) = Brace.outline body ++ [','] ∧
          (x.getLast? ≠ some ',' → (Brace.outline body).getLast? = some ',' → "*/".toList <:+ x) ∨
        ¬Brace.IsBalanced x ∧ Brace.outline (x ++ ',' :: w) = Brace.outline body) := by
  obtain ⟨w, ls, rfl, hw, hls⟩ := exists_idle hx
  obtain ⟨slash, hread⟩ := hbody
  have hparts := hread
  rw [List.foldlM_append] at hparts
  obtain ⟨⟨m, depth⟩, hm, hrest⟩ := Option.bind_eq_some_iff.1 hparts
  have hgives := Brace.Gives.of_foldlM hm
  have hbonds := hseam w m depth rfl hm
  obtain ⟨hbalanced, below, hbelow, hold, hnew⟩ := Brace.outline_comma hgives hbonds
  refine ⟨w, rfl, hbalanced ⟨slash, hread⟩, ?_⟩
  cases m with
  | code slash' =>
      have hidle : Brace.Gives (.code false, depth) (w ++ ['\n']) [] (.code false, depth) :=
        hw ▸ Brace.gives_unlines_of_isIdle hls
      obtain rfl : below = [] := hbelow.symm.trans hidle.outline_eq
      obtain rfl : depth = 0 := by
        have hline := (Brace.foldlM_calm depth (Brace.not_bonds_line hbonds) (by simp)).1
        rw [Text.foldlM_append_of_eq hrest, Brace.foldlM_line] at hline
        cases hidle.read_eq.symm.trans hline
        rfl
      rw [List.append_nil] at hold hnew
      refine .inl ⟨⟨slash', hm⟩, by rw [hold, hnew]; rfl, fun hcomma hlast => ?_⟩
      obtain ⟨c, hc, hvisible⟩ := getLast?_of_upToCode? hx
      exact Brace.ends_comment hgives hc hvisible (fun h => hcomma (h ▸ hc)) (hold ▸ hlast)
  | literal | lineComment | blockComment =>
      refine .inr ⟨?_, by rw [hold, hnew]; simp [Brace.isCode]⟩
      rintro ⟨slash', hx⟩
      cases hm.symm.trans hx

theorem outline_entry (hx : Brace.IsBalanced x) (hlead : ∀ c ∈ lead, isBlank c = true)
    (hapart : (x ++ lead).getLast?.any isBlank = true) (hentry : Brace.IsBalanced entry)
    (hgap : ∀ c ∈ gap, isBlank c = true) :
    Brace.IsBalanced (x ++ lead ++ entry ++ ',' :: gap) ∧
      Brace.outline (x ++ lead ++ entry ++ ',' :: gap) =
        Brace.outline x ++ Brace.outline entry ++ [','] := by
  obtain ⟨slash, out, hgives⟩ := Brace.isBalanced_iff.1 hentry
  have hcomma : Brace.Gives (.code slash, 0) [','] (Brace.pending (.code slash) ++ [','])
      (.code false, 0) := Brace.step_comma (t := []) (by simp [Brace.Bonds])
  have hall := ((hx.gives_append_blanks hlead hapart).append hgives).append hcomma
  have hbalanced : Brace.IsBalanced (x ++ lead ++ entry ++ [',']) := ⟨false, hall.read_eq⟩
  rw [List.append_cons]
  refine ⟨hbalanced.append_blanks hgap, ?_⟩
  rw [hbalanced.outline_append_blanks hgap, hall.outline_append_pending, hgives.outline_append_pending]
  simp [Brace.pending]

/-- The last thing of the mapping that is not blank and in no comment up to a line's end is a block
comment, and before it comes a comma. -/
def HidesComma (body : Text) : Prop := (Brace.outline body).getLast? = some ',' ∧
  ∃ x, upToCode? (List.splitOn '\n' body).reverse = some x ∧ Brace.IsBalanced x ∧ "*/".toList <:+ x

theorem of_commaEdit? {head : Text} (h : commaEdit? head (x ++ y) = some (.insert (head ++ x) ",")) :
    upToCode? (List.splitOn '\n' (x ++ y)).reverse = some x ∧ x.getLast? ≠ some ',' := by
  simp only [commaEdit?, Option.bind_eq_bind, Option.bind_eq_some_iff] at h
  obtain ⟨x', hx', h⟩ := h
  split at h
  · cases h
  · next hcomma =>
      obtain ⟨w, -, hbody, -⟩ := exists_idle hx'
      obtain rfl := eq_of_insert_eq (Option.some.inj h) hbody.symm
      exact ⟨hx', hcomma⟩

theorem not_hidesComma_of_commaEdit? {head : Text} (h : commaEdit? head body = none) :
    ¬HidesComma body := by
  rintro ⟨-, x, hx, -, w, rfl⟩
  rw [commaEdit?, hx] at h
  simp at h

theorem isFilled_separated {head comma : Text}
    (hcomma : commaEdit? head (x ++ y) = none ∧ comma = [] ∨
      commaEdit? head (x ++ y) = some (.insert (head ++ x) ",") ∧ comma = [','])
    (hbody : Brace.IsBalanced (x ++ y)) (hfilled : IsFilled (Brace.outline (x ++ y)))
    (hseam : ∀ x' w m depth, upToCode? (List.splitOn '\n' (x ++ y)).reverse = some x' →
      x ++ y = x' ++ w → x'.foldlM Brace.step (.code false, 0) = some (m, depth) →
      ¬Brace.Bonds m w.head?) :
    Brace.IsBalanced (x ++ comma ++ y) ∧
      (IsFilled (Brace.outline (x ++ comma ++ y)) ↔ ¬HidesComma (x ++ y)) := by
  rcases hcomma with ⟨hnone, rfl⟩ | ⟨hsome, rfl⟩
  · rw [List.append_nil]
    exact ⟨hbody, iff_of_true hfilled (not_hidesComma_of_commaEdit? hnone)⟩
  · obtain ⟨hx, hlast⟩ := of_commaEdit? hsome
    obtain ⟨w, hw, hbalanced, hcases⟩ :=
      exists_comma hx hbody fun w m depth => hseam x w m depth hx
    obtain rfl := List.append_cancel_left hw
    rw [← List.append_cons]
    refine ⟨hbalanced, ?_⟩
    rcases hcases with ⟨hcode, hnew, hcomment⟩ | ⟨hcode, hnew⟩
    · rw [hnew, isFilled_comma hfilled]
      constructor
      · exact fun hends hhides => hends hhides.1
      · exact fun hhides hends => hhides ⟨hends, x, hx, hcode, hcomment hlast hends⟩
    · rw [hnew]
      refine iff_of_true hfilled ?_
      rintro ⟨-, x', hx', hbalanced', -⟩
      cases hx.symm.trans hx'
      exact hcode hbalanced'

/-- The comma that is put behind the last line with code does not part two characters that belong
together. -/
def HasSeam (body : Text) : Prop :=
  ∀ x w m depth, upToCode? (List.splitOn '\n' body).reverse = some x →
    body = x ++ w → x.foldlM Brace.step (.code false, 0) = some (m, depth) → ¬Brace.Bonds m w.head?

theorem exists_slot {head : Text} (rest : Text) (hslot : IsSlot entry) (hbraces : '{' ∉ body ∧ '}' ∉ body)
    (hbody : Brace.IsBalanced body) (hfilled : IsFilled (Brace.outline body)) (hseam : HasSeam body)
    (hopen : afterLast? "\x7b" (head ++ body) = some body) :
    ∃ new, splice (head ++ body ++ rest) (edits ⟨head ++ body, rest⟩ entry) =
        .ok (head ++ new ++ rest) ∧ ('{' ∉ new ∧ '}' ∉ new) ∧ Brace.IsBalanced new ∧
      (IsFilled (Brace.outline new) ↔ ¬HidesComma body) := by
  obtain ⟨x, comma, y, lead, gap, z, rfl, hsplice, hcomma, hlead, hgap, hapart, hline⟩ :=
    exists_spliced entry head rest hopen
  have hz : ∀ c ∈ z, isBlank c = true := fun c hc => hgap c (List.mem_append_right gap hc)
  have henters : Enters entry (x ++ y ++ z) (x ++ comma ++ y ++ lead ++ entry ++ ',' :: (gap ++ z)) :=
    .mk (hcomma.imp And.right And.right) hlead hgap hapart
  rw [List.append_assoc x y z] at hcomma hbody hfilled hseam
  obtain ⟨hbalanced, hiff⟩ := isFilled_separated hcomma hbody hfilled hseam
  rw [← List.append_assoc (x ++ comma)] at hbalanced hiff
  have hbefore := hbalanced.of_append_blanks hz hline
  obtain ⟨hnew, houtline⟩ := outline_entry hbefore hlead hapart hslot.isBalanced hgap
  refine ⟨_, hsplice, ⟨henters.not_mem (by decide) hbraces.1 hslot.braces.1,
    henters.not_mem (by decide) hbraces.2 hslot.braces.2⟩, hnew, ?_⟩
  rw [houtline, isFilled_slot hslot, ← hbefore.outline_append_blanks hz, hiff, List.append_assoc x]

end Mapping

namespace Insertion

open Mapping

variable {i : Insertion} {t before body rest : Text}

/-- Where a mapping gets two commas in a row. A new entry is made in every mapping whose body is read to
its end, and the body is still read to its end with it. If no two commas came one after the other
before, then two do just if the mapping has a comma at its end with a block comment behind it that is
taken for the last entry. -/
theorem commas_double_iff (hkind : i.kind = .bundle) (himports : i.imports = [])
    (hslot : IsSlot i.fragment) (habsent : i.isPresent t = false)
    (hplace : Anchor.locate t .inputMapping = some ⟨before ++ '{' :: body, rest⟩)
    (hopening : '{' ∉ body) (hbody : Brace.IsBalanced body)
    (hfilled : IsFilled (Brace.outline body)) (hseam : HasSeam body) :
    ∃ edits new, i.plan t = .edits edits .inputMapping none ∧
      splice t edits = .ok (before ++ '{' :: new ++ rest) ∧
      Anchor.locate (before ++ '{' :: new ++ rest) .inputMapping =
        some ⟨before ++ '{' :: new, rest⟩ ∧ '{' ∉ new ∧ Brace.IsBalanced new ∧
      (¬IsFilled (Brace.outline new) ↔ HidesComma body) := by
  have hplan := plan_of_bundle hkind himports habsent hplace
  have hnil : '{' ∉ ([] : Text) ∧ '}' ∉ ([] : Text) := by simp
  obtain ⟨rfl, hclosing, -⟩ := Anchor.locate_of_body hplace hopening hnil
  have hhead : ∀ x : Text, before ++ '{' :: x = before ++ ['{'] ++ x := by simp
  have hopen : afterLast? "\x7b" (before ++ ['{'] ++ body) = some body := by
    rw [← hhead]
    exact afterLast?_opening hopening
  obtain ⟨new, hsplice, hbraces, hbalanced, hiff⟩ :=
    exists_slot rest hslot ⟨hopening, hclosing⟩ hbody hfilled hseam hopen
  rw [← hhead, ← hhead] at hsplice
  obtain ⟨-, -, hlocate⟩ := Anchor.locate_of_body hplace hopening hbraces
  exact ⟨_, new, hplan, hsplice, hlocate, hbraces.1, hbalanced, by rw [hiff, not_not]⟩

theorem commas_double_iff_remarks :
    let feed : Insertion := ⟨.bundle, ["'feed':"], [], "'feed': resolve(__dirname, 'feed/index.html')"⟩
    let body : Text := "\n  /* pages, */ main: 'index.html', // home,\n  // more\n"
    let t : Text := "input: ".toList ++ '{' :: body ++ "\x7d,\n".toList
    ∃ edits new, feed.plan t = .edits edits .inputMapping none ∧
      splice t edits = .ok ("input: ".toList ++ '{' :: new ++ "\x7d,\n".toList) ∧
      IsFilled (Brace.outline new) := by
  intro feed body t
  have hlast : upToCode? (List.splitOn '\n' body).reverse =
      some "\n  /* pages, */ main: 'index.html',".toList := by decide +kernel
  have hcode : List.foldlM Brace.step (.code false, 0)
      "\n  /* pages, */ main: 'index.html',".toList = some (.code false, 0) := by decide +kernel
  have hseam : HasSeam body := by
    intro x w m depth hx _ hread
    cases hlast.symm.trans hx
    cases hcode.symm.trans hread
    simp [Brace.Bonds]
  have hslot : IsSlot feed.fragment :=
    ⟨by decide +kernel, ⟨false, by decide +kernel⟩, by decide +kernel,
      ⟨'\'', by decide +kernel, by decide⟩, by decide +kernel⟩
  have hplace : Anchor.locate t .inputMapping = some ⟨"input: ".toList ++ '{' :: body, "\x7d,\n"⟩ := by
    decide +kernel
  obtain ⟨edits, new, hplan, hsplice, -, -, -, hiff⟩ := commas_double_iff rfl rfl hslot
    (by decide +kernel) hplace (by decide +kernel) ⟨false, by decide +kernel⟩ (by decide +kernel) hseam
  refine ⟨edits, new, hplan, hsplice, by_contra fun hdouble => ?_⟩
  obtain ⟨-, x, hx, -, hcomment⟩ := hiff.1 hdouble
  cases hlast.symm.trans hx
  exact absurd hcomment (by decide +kernel)

/-- A line with nothing but a block comment is taken for an entry that lacks its comma. -/
theorem block_comment_doubles_comma :
    let feed : Insertion := ⟨.bundle, ["'feed':"], [], "'feed': 'feed/index.html'"⟩
    let head : Text := "input: \x7b"
    let entries : Text := "\n  main: 'index.html',\n  /* more pages below */"
    let line : Text := "  'feed': 'feed/index.html',\n"
    let tail : Text := "\x7d,\n"
    let edits : List Edit := [.insert (head ++ entries) ",", .insert (head ++ entries ++ "\n") line]
    feed.plan (head ++ entries ++ "\n" ++ tail) = .edits edits .inputMapping none ∧
      splice (head ++ entries ++ "\n" ++ tail) edits =
        .ok (head ++ entries ++ "," ++ "\n" ++ line ++ tail) ∧
      Brace.outline (entries ++ "\n") = "main:'," ∧
      Brace.outline (entries ++ "," ++ "\n" ++ line) = "main:',,':'," ∧
      IsFilled (Brace.outline (entries ++ "\n")) ∧
      ¬IsFilled (Brace.outline (entries ++ "," ++ "\n" ++ line)) := by
  intro feed head entries line tail edits
  refine ⟨?_, splice_pair (head ++ entries) "\n" tail "," line, ?_, ?_, ?_, ?_⟩ <;> decide +kernel

end Insertion

end Scaffold
