import Scaffold.Proofs.Insertion.Code
import Scaffold.Proofs.Insertion.Entries
import Scaffold.Proofs.Insertion.Series

namespace Scaffold

open Text

namespace Text

theorem exists_of_splitOn {t c z : Text} {as bs : List Text}
    (h : List.splitOn '\n' t = as ++ (c ++ z) :: bs) :
    ∃ q, t = List.intercalate "\n" (as ++ [c]) ++ (z ++ q) ∧ ∀ z', '\n' ∉ z' →
      List.splitOn '\n' (List.intercalate "\n" (as ++ [c]) ++ (z' ++ q)) =
        as ++ (c ++ z') :: bs := by
  have hflat : ∀ l ∈ as ++ (c ++ z) :: bs, '\n' ∉ l := fun l hl => not_mem_of_mem_splitOn (h ▸ hl)
  have hjoin : ∀ z' : Text, List.intercalate "\n" (as ++ (c ++ z') :: bs) =
      List.intercalate "\n" (as ++ [c]) ++ (z' ++ bs.flatMap ("\n".toList ++ ·)) := by
    intro z'
    rw [intercalate_append_cons, intercalate_append_singleton, List.append_assoc]
  refine ⟨bs.flatMap ("\n".toList ++ ·), ?_, fun z' hz' => ?_⟩
  · rw [← hjoin, ← h]
    exact (List.intercalate_splitOn '\n').symm
  · rw [← hjoin]
    refine List.splitOn_intercalate '\n' (fun l hl => ?_) (by simp)
    rw [List.mem_append, List.mem_cons] at hl
    rcases hl with hl | rfl | hl
    · exact hflat l (List.mem_append_left _ hl)
    · have hc := hflat (c ++ z) (by simp)
      rw [List.mem_append, not_or] at hc ⊢
      exact ⟨hc.1, hz'⟩
    · exact hflat l (by simp [hl])

end Text

namespace Mapping

variable {body x y : Text}

theorem visible_eq_nil_iff {t : Text} : visible t = [] ↔ isBlankText t = true := by
  simp [visible, isBlankText, List.filter_eq_nil_iff]

theorem visible_trimEnd (t : Text) : visible (trimEnd t) = visible t := by
  obtain ⟨b, hb, hblank⟩ := trimEnd_split t
  conv => rhs; rw [hb, visible_append, visible_of_blank hblank, List.append_nil]

theorem getLast?_visible {t : Text} (h : visible t ≠ []) :
    (visible t).getLast? = (trimEnd t).getLast? := by
  have hne : trimEnd t ≠ [] := by
    intro hnil
    rw [← visible_trimEnd, hnil] at h
    exact h rfl
  obtain ⟨w, d, hw⟩ := (List.eq_nil_or_concat _).resolve_left hne
  rw [List.concat_eq_append] at hw
  have hd : isBlank d = false := getLast?_dropEndWhile (by
    change (trimEnd t).getLast? = some d
    rw [hw, List.getLast?_concat])
  have hlast : visible [d] = [d] := List.filter_cons_of_pos (by simp [hd])
  rw [← visible_trimEnd, hw, visible_append, hlast, List.getLast?_concat, List.getLast?_concat]

theorem of_upToCode? {lines : List Text} (h : upToCode? lines = some x) :
    ∃ below line above, lines = below ++ line :: above ∧ (∀ l ∈ below, visible (code l) = []) ∧
      visible (code line) ≠ [] ∧
      x = List.intercalate "\n" (above.reverse ++ [trimEnd (code line)]) := by
  induction lines with
  | nil => cases h
  | cons line earlier ih =>
      simp only [upToCode?] at h
      split at h
      · next hblank =>
          obtain ⟨below, l, above, rfl, hbelow, hl, hx⟩ := ih h
          refine ⟨line :: below, l, above, rfl, fun m hm => ?_, hl, hx⟩
          rcases List.mem_cons.1 hm with rfl | hm
          · rwa [← visible_trimEnd, visible_eq_nil_iff]
          · exact hbelow m hm
      · next hvisible =>
          refine ⟨[], line, earlier, rfl, by simp, ?_, (Option.some.inj h).symm⟩
          rwa [← visible_trimEnd, Ne, visible_eq_nil_iff]

theorem of_upToCode?_none {lines : List Text} (h : upToCode? lines = none) :
    ∀ l ∈ lines, visible (code l) = [] := by
  induction lines with
  | nil => simp
  | cons line earlier ih =>
      simp only [upToCode?] at h
      split at h
      · next hblank =>
          intro l hl
          rcases List.mem_cons.1 hl with rfl | hl
          · rwa [← visible_trimEnd, visible_eq_nil_iff]
          · exact ih h l hl
      · cases h

structure Separates (body new : Text) : Prop where
  code_eq : allCode new = allCode body ++ [',']
  comments_eq : comments new = comments body
  isClosed : IsClosed (lastLine body) → IsClosed (lastLine new)

theorem exists_separates (h : upToCode? (List.splitOn '\n' body).reverse = some x) :
    ∃ y, body = x ++ y ∧ Separates body (x ++ ',' :: y) ∧
      allCode body ≠ [] ∧ (allCode body).getLast? = x.getLast? := by
  obtain ⟨below, line, above, hlines, hbelow, hline, rfl⟩ := of_upToCode? h
  obtain ⟨rest, hrest, -⟩ := line_split line
  have hcomma := takesComma hrest
  have hlast := getLast?_visible hline
  have hpieces : List.splitOn '\n' body = above.reverse ++ line :: below.reverse := by
    rw [← List.reverse_reverse (List.splitOn '\n' body), hlines]
    simp
  have hflat : '\n' ∉ rest := fun hmem => by
    have hmem' : '\n' ∈ line := hrest ▸ List.mem_append_right _ hmem
    exact not_mem_of_mem_splitOn (t := body) (by simp [hpieces]) hmem'
  generalize trimEnd (code line) = c at *
  obtain ⟨q, hbody, hother⟩ := exists_of_splitOn (hrest ▸ hpieces)
  have hnew := hother (',' :: rest) (by simpa using hflat)
  have hvoid : (below.reverse.flatMap fun l => visible (code l)) = [] :=
    List.flatMap_eq_nil_iff.2 fun l hl => hbelow l (List.mem_reverse.1 hl)
  have hcode : allCode body = (above.reverse.flatMap fun l => visible (code l)) ++
      visible (code line) := by
    rw [allCode, hpieces, List.flatMap_append, List.flatMap_cons, hvoid, List.append_nil]
  rw [List.cons_append] at hnew
  refine ⟨rest ++ q, hbody, ⟨?_, ?_, fun hclosed => ?_⟩, ?_, ?_⟩
  · rw [hcode, allCode, hnew, List.flatMap_append, List.flatMap_cons, hvoid, hcomma.visible_code]
    simp
  · rw [comments, comments, hnew, hpieces, List.map_append, List.map_append, List.map_cons,
      List.map_cons, hcomma.comment_eq]
  · rw [lastLine, hpieces, List.getLast?_append, List.getLast?_cons] at hclosed
    rw [lastLine, hnew, List.getLast?_append, List.getLast?_cons]
    cases hend : below.reverse.getLast? with
    | none =>
        rw [hend] at hclosed
        exact hcomma.isClosed hclosed
    | some l =>
        rw [hend] at hclosed
        exact hclosed
  · rw [hcode]
    exact List.append_ne_nil_of_right_ne_nil _ hline
  · have hne : c ≠ [] := by
      rintro rfl
      rw [List.getLast?_nil, List.getLast?_eq_none_iff] at hlast
      exact hline hlast
    rw [hcode, List.getLast?_append_of_ne_nil _ hline, hlast, intercalate_concat,
      List.getLast?_append_of_ne_nil _ hne]

/-- The comma that the code of a mapping lacks before a new entry. -/
def separator (code : Text) : Text :=
  if code = [] ∨ code.getLast? = some ',' then [] else [',']

/-- The comma that an entry needs is the one that the code of the mapping lacks. -/
theorem commaEdit?_cases (head body : Text) :
    commaEdit? head body = none ∧ separator (allCode body) = [] ∨
      ∃ x y, commaEdit? head body = some (.insert (head ++ x) ",") ∧ body = x ++ y ∧
        Separates body (x ++ ',' :: y) ∧ separator (allCode body) = [','] := by
  cases hx : upToCode? (List.splitOn '\n' body).reverse with
  | none =>
      have hnil : allCode body = [] := List.flatMap_eq_nil_iff.2 fun l hl =>
        of_upToCode?_none hx l (List.mem_reverse.2 hl)
      refine .inl ⟨?_, ?_⟩
      · rw [commaEdit?, hx]
        rfl
      · rw [separator, if_pos (.inl hnil)]
  | some x =>
      obtain ⟨y, hbody, hseparates, hne, hlast⟩ := exists_separates hx
      by_cases hcomma : x.getLast? = some ','
      · refine .inl ⟨?_, ?_⟩
        · rw [commaEdit?, hx]
          exact if_pos hcomma
        · rw [separator, if_pos (.inr (hlast.trans hcomma))]
      · refine .inr ⟨x, y, ?_, hbody, hseparates, ?_⟩
        · rw [commaEdit?, hx]
          exact if_neg hcomma
        · rw [separator, if_neg (not_or.2 ⟨hne, hlast ▸ hcomma⟩)]

end Mapping

namespace Shape

theorem IsInputHead.not_mem {w : Text} (h : IsInputHead w) : '{' ∉ w := by
  obtain ⟨g, g', hg, hg', rfl⟩ := h
  simp only [List.mem_append, not_or]
  exact ⟨⟨⟨by decide, fun h => absurd (hg _ h) (by decide)⟩, by decide⟩,
    fun h => absurd (hg' _ h) (by decide)⟩

theorem isSome_inputMapping {body new rest w : Text} (hnew : '{' ∉ new ∧ '}' ∉ new)
    (hrest : rest.head? = some '}') (h : (inputMapping (w ++ '{' :: body ++ rest)).isSome = true) :
    (inputMapping (w ++ '{' :: new ++ rest)).isSome = true := by
  obtain ⟨rest₀, hread⟩ := Option.isSome_iff_exists.1 h
  obtain ⟨head, body₀, hhead, hbody₀, hclose, hwhole⟩ := exists_of_inputMapping hread
  rw [List.append_assoc, List.append_assoc] at hwhole
  by_cases hw : '{' ∈ w
  · obtain ⟨p, q, rfl, hp⟩ := List.eq_append_cons_of_mem hw
    rw [List.append_assoc] at hwhole
    obtain ⟨rfl, hq⟩ := append_cons_inj hp hhead.not_mem hwhole
    obtain ⟨q', rfl⟩ := prefix_of_append_cons hbody₀.1 hq
    have hclose' : (q' ++ '{' :: new ++ rest).head? = some '}' := by
      have hq' : q' ++ ('{' :: body ++ rest) = rest₀ :=
        List.append_cancel_left ((List.append_assoc body₀ q' _).symm.trans hq)
      cases q' with
      | nil =>
          rw [← hq'] at hclose
          cases hclose
      | cons d q' =>
          rw [← hq'] at hclose
          exact hclose
    have happend := inputMapping_append hhead hbody₀ hclose'
    simp only [List.append_assoc, List.cons_append] at happend ⊢
    rw [happend]
    rfl
  · obtain ⟨rfl, -⟩ := append_cons_inj hw hhead.not_mem hwhole
    rw [inputMapping_append hhead hnew hrest]
    rfl

end Shape

namespace Anchor

variable {t before body new rest : Text}

theorem locate_of_body (h : locate t .inputMapping = some ⟨before ++ '{' :: body, rest⟩)
    (hopen : '{' ∉ body) (hnew : '{' ∉ new ∧ '}' ∉ new) :
    t = before ++ '{' :: body ++ rest ∧ '}' ∉ body ∧
      locate (before ++ '{' :: new ++ rest) .inputMapping = some ⟨before ++ '{' :: new, rest⟩ := by
  simp only [locate, Option.bind_eq_bind, Option.bind_eq_some_iff, Option.map_eq_some_iff] at h
  obtain ⟨start, hstart, rest', hrest, hcut⟩ := h
  obtain rfl : start.whole = t := whole_of_firstCut? hstart
  obtain ⟨above, after⟩ := start
  obtain ⟨head, body', hhead, hbody, hclose, rfl⟩ := Shape.exists_of_inputMapping hrest
  have hwhole : Cut.whole ⟨above, head ++ '{' :: body' ++ rest'⟩ =
      (above ++ head) ++ '{' :: body' ++ rest' := by simp [Cut.whole]
  rw [hwhole, Cut.ofRest_append] at hcut
  obtain ⟨hbefore, rfl⟩ := Cut.mk.inj hcut
  obtain ⟨rfl, rfl⟩ := append_cons_inj_last hbody.1 hopen hbefore
  refine ⟨hwhole, hbody.2, ?_⟩
  -- Whether a mapping begins at a place does not hang on what it holds, so the search stops where
  -- it did.
  have hsame : ∀ (prev : Option Char) (w : Text),
      (!prev.any isWord && (Shape.inputMapping (w ++ ('{' :: body' ++ rest'))).isSome) =
        (!prev.any isWord && (Shape.inputMapping (w ++ ('{' :: new ++ rest'))).isSome) := by
    intro prev w
    rw [← List.append_assoc, ← List.append_assoc, Bool.eq_iff_iff.2 ⟨
      Shape.isSome_inputMapping hnew hclose, Shape.isSome_inputMapping hbody hclose⟩]
  rw [Cut.whole, List.append_assoc head] at hstart
  have hplace : above ++ head ++ '{' :: new ++ rest' = above ++ (head ++ ('{' :: new ++ rest')) := by
    simp
  have hfirst : firstCut? (fun prev r => !prev.any isWord && (Shape.inputMapping r).isSome) none
      (above ++ (head ++ ('{' :: new ++ rest'))) = some ⟨above, head ++ ('{' :: new ++ rest')⟩ :=
    firstCut?_replace hsame hstart
  have hread : Shape.inputMapping (head ++ ('{' :: new ++ rest')) = some rest' := by
    rw [← List.append_assoc]
    exact Shape.inputMapping_append hhead hnew hclose
  have hofRest := Cut.ofRest_append (above ++ head ++ '{' :: new) rest'
  rw [hplace] at hofRest ⊢
  simp only [locate, Option.bind_eq_bind, hfirst, Option.bind_some, hread, Option.map_some, hofRest]

end Anchor

namespace Mapping

structure FitsLine (entry : Text) : Prop where
  line : '\n' ∉ entry
  braces : '{' ∉ entry ∧ '}' ∉ entry
  isClosed : IsClosed entry

variable {entry head body rest : Text}

def withEntry (code entry : Text) : Text := code ++ separator code ++ allCode entry ++ [',']

theorem separator_withEntry (code entry : Text) : separator (withEntry code entry) = [] := by
  rw [separator, if_pos (.inr (by rw [withEntry, List.getLast?_concat]))]

theorem foldl_withEntry (code : Text) {entries : List Text} (hne : entries ≠ []) :
    entries.foldl withEntry code =
      code ++ separator code ++ entries.flatMap fun e => allCode e ++ [','] := by
  induction entries generalizing code with
  | nil => exact absurd rfl hne
  | cons e es ih =>
      rw [List.foldl_cons, List.flatMap_cons]
      by_cases hes : es = []
      · subst hes
        simp [withEntry]
      · rw [ih (withEntry code e) hes, separator_withEntry]
        simp [withEntry]

/-- A body that has got a new entry after its code. It ends in a closed line as before. -/
structure Takes (entry body new : Text) : Prop where
  braces : '{' ∉ new ∧ '}' ∉ new
  isClosed : IsClosed (lastLine new)
  code_eq : allCode new = withEntry (allCode body) entry
  comments_eq : comments new = comments body

theorem eq_of_insert_eq {x' u v new : Text}
    (h : Edit.insert (head ++ x') new = .insert (head ++ x) new) (hbody : x' ++ u = x ++ v) :
    x' = x := by
  have hstart := congrArg Edit.start h
  simp only [Edit.insert, bytes_append, Nat.add_left_cancel_iff] at hstart
  rw [← takeBytes_bytes_append x' u, hbody, hstart, takeBytes_bytes_append]

theorem reads_separated {comma z : Text}
    (hcomma : commaEdit? head (x ++ y ++ z) = none ∧ comma = [] ∨
      commaEdit? head (x ++ y ++ z) = some (.insert (head ++ x) ",") ∧ comma = [','])
    (hclosed : IsClosed (lastLine (x ++ y ++ z))) :
    Reads (x ++ comma ++ y ++ z) (allCode (x ++ y ++ z) ++ separator (allCode (x ++ y ++ z)))
      (comments (x ++ y ++ z)) := by
  rcases commaEdit?_cases head (x ++ y ++ z) with ⟨hnone, hsep⟩ | ⟨x', y', hsome, hxy, hnew, hsep⟩
  · rcases hcomma with ⟨-, rfl⟩ | ⟨hsome, -⟩
    · rw [hsep, List.append_nil, List.append_nil]
      exact ⟨rfl, rfl, hclosed⟩
    · rw [hnone] at hsome
      cases hsome
  · rcases hcomma with ⟨hnone, -⟩ | ⟨hsome', rfl⟩
    · rw [hnone] at hsome
      cases hsome
    · obtain rfl : x' = x :=
        eq_of_insert_eq (Option.some.inj (hsome.symm.trans hsome')) (by rw [← hxy, List.append_assoc])
      have hy : y ++ z = y' := by
        rw [List.append_assoc] at hxy
        exact List.append_cancel_left hxy
      have hplace : x' ++ [','] ++ y ++ z = x' ++ ',' :: y' := by simp [← hy]
      rw [hsep, hplace]
      exact ⟨hnew.code_eq, hnew.comments_eq, hnew.isClosed hclosed⟩

theorem exists_takes (hentry : FitsLine entry) (hbraces : '{' ∉ body ∧ '}' ∉ body)
    (hclosed : IsClosed (lastLine body)) (hopen : afterLast? "\x7b" (head ++ body) = some body) :
    ∃ new, splice (head ++ body ++ rest) (edits ⟨head ++ body, rest⟩ entry) =
      .ok (head ++ new ++ rest) ∧ Takes entry body new := by
  obtain ⟨x, comma, y, lead, gap, z, rfl, hsplice, hcomma, hlead, hgap, hapart, hline⟩ :=
    exists_spliced entry head rest hopen
  refine ⟨_, hsplice, ?_⟩
  have henters : Enters entry (x ++ y ++ z) (x ++ comma ++ y ++ lead ++ entry ++ ',' :: (gap ++ z)) :=
    .mk (hcomma.imp And.right And.right) hlead hgap hapart
  have hbefore : Reads (x ++ comma ++ y)
      (allCode (x ++ y ++ z) ++ separator (allCode (x ++ y ++ z))) (comments (x ++ y ++ z)) :=
    (reads_separated hcomma hclosed).of_append_blank
      (fun c hc => hgap c (List.mem_append_right gap hc)) hline
  have hline := Reads.line hentry.line hentry.isClosed
  have hcomma : Reads [','] [','] [] := ⟨rfl, rfl, by decide⟩
  have hmeets : Meets (x ++ comma ++ y ++ lead) entry := by
    obtain ⟨b, hb, hblank⟩ := (Option.any_eq_true _ _).1 hapart
    refine .inl fun h => ?_
    rw [h] at hb
    cases hb
    exact absurd hblank (by decide)
  have hnew := (((hbefore.append (.blank hlead) (meets_blank hlead)).append hline hmeets).append hcomma
    (.inr (by simp))).append (.blank hgap) (meets_blank hgap)
  simp only [List.append_nil, List.append_assoc, List.singleton_append] at hnew
  refine ⟨⟨henters.not_mem (by decide) hbraces.1 hentry.braces.1,
    henters.not_mem (by decide) hbraces.2 hentry.braces.2⟩, ?_, ?_, ?_⟩
  · simpa using hnew.isClosed
  · simpa [withEntry, hline.code_eq] using hnew.code_eq
  · simpa using hnew.comments_eq

end Mapping

namespace Insertion

open Mapping

variable {i : Insertion} {is : List Insertion} {t before body rest : Text}

structure Maps (t before body rest : Text) : Prop where
  located : Anchor.locate t .inputMapping = some ⟨before ++ '{' :: body, rest⟩
  opening : '{' ∉ body
  isClosed : IsClosed (lastLine body)

theorem Maps.step (h : Maps t before body rest) (hkind : i.kind = .bundle) (himports : i.imports = [])
    (hentry : FitsLine i.fragment) (habsent : i.isPresent t = false) : ∃ edits new,
      i.plan t = .edits edits .inputMapping none ∧
      splice t edits = .ok (before ++ '{' :: new ++ rest) ∧
      Maps (before ++ '{' :: new ++ rest) before new rest ∧
      allCode new = withEntry (allCode body) i.fragment ∧ comments new = comments body := by
  have hplan := plan_of_bundle hkind himports habsent h.located
  have hnil : '{' ∉ ([] : Text) ∧ '}' ∉ ([] : Text) := by simp
  obtain ⟨rfl, hclosing, -⟩ := Anchor.locate_of_body h.located h.opening hnil
  have hopening : ∀ x : Text, before ++ '{' :: x = before ++ ['{'] ++ x := by simp
  have hopen : afterLast? "\x7b" (before ++ ['{'] ++ body) = some body := by
    rw [← hopening]
    exact afterLast?_opening h.opening
  obtain ⟨new, hsplice, htakes⟩ : ∃ new, splice (before ++ ['{'] ++ body ++ rest)
      (edits ⟨before ++ ['{'] ++ body, rest⟩ i.fragment) = .ok (before ++ ['{'] ++ new ++ rest) ∧
        Takes i.fragment body new :=
    exists_takes hentry ⟨h.opening, hclosing⟩ h.isClosed hopen
  rw [← hopening, ← hopening] at hsplice
  obtain ⟨-, -, hlocate⟩ := Anchor.locate_of_body h.located h.opening htakes.braces
  exact ⟨_, new, hplan, hsplice, ⟨hlocate, htakes.braces.1, htakes.isClosed⟩, htakes.code_eq,
    htakes.comments_eq⟩

theorem Maps.exists_made (h : Maps t before body rest)
    (hkind : ∀ i ∈ is, i.kind = .bundle ∧ i.imports = []) (hentry : ∀ i ∈ is, FitsLine i.fragment)
    (habsent : ∀ done i later u, is = done ++ i :: later → Made .inputMapping done t u →
      i.isPresent u = false) : ∃ new,
      Made .inputMapping is t (before ++ '{' :: new ++ rest) ∧
      Maps (before ++ '{' :: new ++ rest) before new rest ∧
      allCode new = (is.map Insertion.fragment).foldl withEntry (allCode body) ∧
      comments new = comments body := by
  induction is generalizing t body with
  | nil =>
      have hnil : '{' ∉ ([] : Text) ∧ '}' ∉ ([] : Text) := by simp
      obtain ⟨rfl, -, -⟩ := Anchor.locate_of_body h.located h.opening hnil
      exact ⟨body, .nil _, h, rfl, rfl⟩
  | cons i is ih =>
      obtain ⟨hbundle, hnone⟩ := hkind i List.mem_cons_self
      obtain ⟨edits, new, hplan, hsplice, hmaps, hcode, hcomments⟩ := h.step hbundle hnone
        (hentry i List.mem_cons_self) (habsent [] i is t rfl (.nil t))
      obtain ⟨last, hmade, hlast, hcode', hcomments'⟩ := ih hmaps
        (fun j hj => hkind j (List.mem_cons_of_mem i hj))
        (fun j hj => hentry j (List.mem_cons_of_mem i hj)) fun done j later u hsplit hdone =>
          habsent (i :: done) j later u (by rw [hsplit]; rfl) (.cons hplan hsplice hdone)
      exact ⟨last, .cons hplan hsplice hmade, hlast, by rw [hcode', hcode]; rfl,
        hcomments'.trans hcomments⟩

/-- Entries that are made one after the other gather in one mapping in their order. Wherever the body
ends in a closed line, every one is made, the brace that closes the mapping stays the one that it was,
and no comment changes. The code of the body is followed by a comma if it is not empty and does not end
with one, and then by the entries, each with a comma after it. -/
theorem entries_gather_in_mapping (hplace : Anchor.locate t .inputMapping =
      some ⟨before ++ '{' :: body, rest⟩) (hopening : '{' ∉ body) (hclosed : IsClosed (lastLine body))
    (hne : is ≠ []) (hkind : ∀ i ∈ is, i.kind = .bundle ∧ i.imports = [])
    (hentry : ∀ i ∈ is, FitsLine i.fragment)
    (habsent : ∀ done i later u, is = done ++ i :: later → Made .inputMapping done t u →
      i.isPresent u = false) : ∃ new,
      Made .inputMapping is t (before ++ '{' :: new ++ rest) ∧
      Anchor.locate (before ++ '{' :: new ++ rest) .inputMapping =
        some ⟨before ++ '{' :: new, rest⟩ ∧ '{' ∉ new ∧ comments new = comments body ∧
      allCode new = allCode body ++ separator (allCode body) ++
        is.flatMap fun i => allCode i.fragment ++ [','] := by
  have hmaps : Maps t before body rest := ⟨hplace, hopening, hclosed⟩
  obtain ⟨new, hmade, hnew, hcode, hcomments⟩ := hmaps.exists_made hkind hentry habsent
  refine ⟨new, hmade, hnew.located, hnew.opening, hcomments, ?_⟩
  rw [hcode, foldl_withEntry _ (by simpa using hne), List.flatMap_map]

theorem entries_gather_in_mapping_pages :
    let feed : Insertion := ⟨.bundle, ["'feed':"], [], "'feed': 'feed/index.html'"⟩
    let about : Insertion := ⟨.bundle, ["'about':"], [], "'about': resolve(root, 'a//b.html')"⟩
    ∃ new, Made .inputMapping [feed, about]
        "input: \x7b\n  main: 'index.html' // first\n  // more\n\x7d,\n"
        ("input: \x7b".toList ++ new ++ "\x7d,\n".toList) ∧
      comments new = ["// first", "// more"] ∧
      allCode new = "main:'index.html','feed':'feed/index.html','about':resolve(root,'a//b.html'),"
        := by
  intro feed about
  let head : Text := "input: \x7b\n  main: 'index.html'"
  let more : Text := " // first\n  // more\n"
  let tail : Text := "\x7d,\n"
  let line : Text := "  'feed': 'feed/index.html',\n"
  have hsplice : splice (head ++ more ++ tail) [.insert head ",", .insert (head ++ more) line] =
      .ok (head ++ ",".toList ++ more ++ line ++ tail) := splice_pair head more tail "," line
  have habsent : ∀ done i later u, [feed, about] = done ++ i :: later →
      Made .inputMapping done (head ++ more ++ tail) u → i.isPresent u = false := by
    intro done i later u hsplit hmade
    rcases done with _ | ⟨_, _ | ⟨_, done⟩⟩
    · cases hmade
      cases hsplit
      decide +kernel
    · cases hsplit
      cases hmade with
      | cons hplan hu hrest =>
          cases hrest
          have hfeed : feed.plan (head ++ more ++ tail) =
              .edits [.insert head ",", .insert (head ++ more) line] .inputMapping none := by
            decide +kernel
          rw [hfeed] at hplan
          cases hplan
          rw [hsplice] at hu
          cases hu
          decide +kernel
    · simp at hsplit
  have hfits : ∀ i ∈ [feed, about], FitsLine i.fragment := by
    simp only [List.mem_cons, List.not_mem_nil, or_false, forall_eq_or_imp, forall_eq]
    exact ⟨⟨by decide, by decide, by decide⟩, ⟨by decide, by decide, by decide⟩⟩
  have hplace : Anchor.locate (head ++ more ++ tail) .inputMapping = some
      ⟨"input: ".toList ++ '{' :: "\n  main: 'index.html' // first\n  // more\n".toList, tail⟩ := by
    decide +kernel
  obtain ⟨new, hmade, -, -, hcomments, hcode⟩ := entries_gather_in_mapping hplace (by decide)
    (by decide) (by simp) (by simp [feed, about]) hfits habsent
  exact ⟨new, hmade, hcomments.trans (by decide +kernel), hcode.trans (by decide +kernel)⟩

end Insertion

end Scaffold
