import Scaffold.Proofs.Anchor.Halting
import Scaffold.Proofs.Anchor.Nesting
import Scaffold.Proofs.Anchor.Places

namespace Scaffold

def Shape.classOpening : Shape := fun t =>
  (classDeclaration t).bind fun header => some (header.dropWhile (· != '{'))

theorem Shape.haltsAt_classOpening : HaltsAt '{' classOpening :=
  (haltsAt_classDeclaration (by decide)).bind (haltsAt_dropWhile rfl)

theorem Shape.of_classOpening {t o : Text} (h : classOpening t = some o) :
    o <:+ t ∧ (o = [] ∨ o.head? = some '{') := by
  obtain ⟨header, hheader, hskip⟩ := Option.bind_eq_some_iff.1 h
  obtain rfl := Option.some.inj hskip
  refine ⟨(List.dropWhile_suffix _).trans (suffix_of_classDeclaration hheader), ?_⟩
  cases hhead : (header.dropWhile (· != '{')).head? with
  | none => exact .inl (List.head?_eq_none_iff.1 hhead)
  | some c =>
      have hc := Text.head?_dropWhile hhead
      exact .inr (by rw [show c = '{' by simpa using hc])

namespace Anchor

def classOpening? (t : Text) : Option Text :=
  (Text.firstLine? (fun r => (Shape.classDeclaration r).isSome) t).bind fun declaration =>
    Shape.classOpening declaration.after

theorem locateClassEnd_eq (t : Text) : locateClassEnd t =
    (classOpening? t).bind fun opening => (Brace.closing? opening).map fun rest =>
      let brace := Cut.ofRest t rest
      if brace.startsLine then brace.lineStart else brace := by
  simp only [locateClassEnd, classOpening?, Shape.classOpening, Option.bind_eq_bind,
    Option.bind_assoc, Option.bind_some, Option.map_eq_bind]
  rfl

theorem of_classOpening? {t o : Text} (h : classOpening? t = some o) :
    o <:+ t ∧ (o = [] ∨ o.head? = some '{') := by
  obtain ⟨declaration, hdeclaration, hopening⟩ := Option.bind_eq_some_iff.1 h
  obtain ⟨hsuffix, hhead⟩ := Shape.of_classOpening hopening
  exact ⟨hsuffix.trans ⟨declaration.before, Text.whole_of_firstCut? hdeclaration⟩, hhead⟩

/-- A class opens where it did, whatever comes to stand behind its opening brace. -/
theorem classOpening?_replace {head body : Text}
    (h : classOpening? (head ++ '{' :: body) = some ('{' :: body)) (new : Text) :
    classOpening? (head ++ '{' :: new) = some ('{' :: new) := by
  obtain ⟨⟨a, r⟩, hdeclaration, hopening⟩ := Option.bind_eq_some_iff.1 h
  have hwhole : a ++ r = head ++ '{' :: body := Text.whole_of_firstCut? hdeclaration
  obtain ⟨b, rfl⟩ : '{' :: body <:+ r := (Shape.of_classOpening hopening).1
  obtain rfl : a ++ b = head := by
    rw [← List.append_assoc] at hwhole
    exact List.append_cancel_right hwhole
  refine Option.bind_eq_some_iff.2 ⟨⟨a, b ++ '{' :: new⟩, ?_, ?_⟩
  · rw [List.append_assoc] at hdeclaration ⊢
    apply Text.firstCut?_replace _ hdeclaration
    intro prev w
    obtain ⟨o, ho⟩ := Shape.haltsAt_classDeclaration (c := '{') (by decide) w
    simp only [ho, Option.isSome_map]
  · obtain ⟨o, ho⟩ := Shape.haltsAt_classOpening b
    rw [ho body] at hopening
    obtain ⟨w, rfl, hw⟩ := Option.map_eq_some_iff.1 hopening
    obtain rfl : w = [] := by simpa using hw
    exact ho new

end Anchor

namespace Brace

theorem closing?_eq_some_iff {o rest : Text} : closing? ('{' :: o) = some rest ↔
    ∃ body tail, o = body ++ '}' :: tail ∧ rest = '}' :: tail ∧ IsBalanced body := by
  have hopen : closing? ('{' :: o) = close? (0 + 1) o := by rw [closing?, close?, if_pos rfl]
  rw [hopen, close?_eq_some_iff]
  constructor
  · rintro ⟨body, slash, rfl, hhead, hread⟩
    obtain ⟨tail, rfl⟩ := List.head?_eq_some_iff.1 hhead
    exact ⟨body, tail, rfl, rfl, slash, hread⟩
  · rintro ⟨body, tail, rfl, rfl, slash, hread⟩
    exact ⟨body, slash, rfl, rfl, hread⟩

end Brace

/-- The text's first class has the body between its opening brace and the brace that closes it. -/
structure HasClass (t head body tail : Text) : Prop where
  whole : t = head ++ '{' :: (body ++ '}' :: tail)
  opening : Anchor.classOpening? t = some ('{' :: (body ++ '}' :: tail))
  closing : Brace.closing? ('{' :: (body ++ '}' :: tail)) = some ('}' :: tail)

def Cut.closing (head body tail : Text) : Cut := ⟨head ++ '{' :: body, '}' :: tail⟩

/-- Where the anchor of a class is put by its closing brace: at the beginning of the brace's line if
nothing stands there before it, or else at the brace. -/
def Cut.besideBrace (k : Cut) : Cut := if k.startsLine then k.lineStart else k

namespace HasClass

variable {t head body tail : Text}

theorem isBalanced (h : HasClass t head body tail) : Brace.IsBalanced body := by
  obtain ⟨body', tail', hbody, htail, hbalanced⟩ := Brace.closing?_eq_some_iff.1 h.closing
  obtain rfl : tail = tail' := List.tail_eq_of_cons_eq htail
  rwa [List.append_cancel_right hbody]

theorem locate (h : HasClass t head body tail) :
    Anchor.locate t .classEnd = some (Cut.closing head body tail).besideBrace := by
  have hcut : Cut.ofRest t ('}' :: tail) = Cut.closing head body tail := by
    rw [h.whole, Cut.closing, ← Cut.ofRest_append]
    simp
  change Anchor.locateClassEnd t = _
  rw [Anchor.locateClassEnd_eq, h.opening, Option.bind_some, h.closing, Option.map_some]
  simp only [hcut, Cut.besideBrace]

theorem unique {head' body' tail' : Text} (h : HasClass t head body tail)
    (h' : HasClass t head' body' tail') : head = head' ∧ body = body' ∧ tail = tail' := by
  have hopening := Option.some.inj (h.opening.symm.trans h'.opening)
  have htail : tail = tail' := by
    have hclosing := h.closing
    rw [hopening, h'.closing] at hclosing
    exact (List.tail_eq_of_cons_eq (Option.some.inj hclosing)).symm
  have hhead : head = head' := by
    have hwhole := h.whole.symm.trans h'.whole
    rw [hopening] at hwhole
    exact List.append_cancel_right hwhole
  subst htail
  exact ⟨hhead, List.append_cancel_right (List.tail_eq_of_cons_eq hopening), rfl⟩

/-- A class keeps its braces when its body is replaced by one that is balanced too, whatever comes to
stand behind the class. -/
theorem replace (h : HasClass t head body tail) {new : Text} (hnew : Brace.IsBalanced new)
    (below : Text) : HasClass (head ++ '{' :: (new ++ '}' :: below)) head new below := by
  refine ⟨rfl, ?_, ?_⟩
  · have hopening := h.opening
    rw [h.whole] at hopening
    exact Anchor.classOpening?_replace hopening _
  · exact Brace.closing?_eq_some_iff.2 ⟨new, below, rfl, rfl, hnew⟩

end HasClass

theorem exists_hasClass {t : Text} {k : Cut} (h : Anchor.locate t .classEnd = some k) :
    ∃ head body tail, HasClass t head body tail := by
  change Anchor.locateClassEnd t = some k at h
  rw [Anchor.locateClassEnd_eq] at h
  obtain ⟨o, hopening, hclosing⟩ := Option.bind_eq_some_iff.1 h
  obtain ⟨rest, hrest, -⟩ := Option.map_eq_some_iff.1 hclosing
  obtain ⟨⟨head, rfl⟩, hhead⟩ := Anchor.of_classOpening? hopening
  rcases hhead with rfl | hhead
  · simp [Brace.closing?, Brace.close?] at hrest
  · obtain ⟨o, rfl⟩ := List.head?_eq_some_iff.1 hhead
    obtain ⟨body, tail, rfl, rfl, -⟩ := Brace.closing?_eq_some_iff.1 hrest
    exact ⟨head, body, tail, rfl, hopening, hrest⟩

namespace Cut

theorem lineStart_append_lineHead (k : Cut) : k.lineStart.before ++ k.lineHead = k.before := by
  have h := k.whole_lineStart
  rw [whole, lineStart, ← List.append_assoc] at h
  exact List.append_cancel_right h

theorem not_mem_lineHead (k : Cut) : ∀ c ∈ k.lineHead, c ≠ '\n' := by
  intro c hc
  simpa using List.mem_takeWhile_imp (List.mem_reverse.1 hc)

variable {before margin : Text}

theorem lineHead_eq (hbefore : Text.beginsLine before.getLast? = true)
    (hmargin : ∀ c ∈ margin, c ≠ '\n') (after : Text) :
    lineHead ⟨before ++ margin, after⟩ = margin := by
  have hline : before.reverse.takeWhile (· != '\n') = [] := by
    cases hlast : before.getLast? with
    | none => rw [List.getLast?_eq_none_iff.1 hlast]; rfl
    | some c =>
        obtain ⟨b, rfl⟩ := List.getLast?_eq_some_iff.1 hlast
        rw [hlast] at hbefore
        have hc : c = '\n' := by simpa [Text.beginsLine] using hbefore
        simp [hc]
  rw [lineHead, List.reverse_append, List.takeWhile_append_of_pos (by simpa using hmargin), hline,
    List.append_nil, List.reverse_reverse]

theorem lineStart_eq (hbefore : Text.beginsLine before.getLast? = true)
    (hmargin : ∀ c ∈ margin, c ≠ '\n') (after : Text) :
    lineStart ⟨before ++ margin, after⟩ = ⟨before, margin ++ after⟩ := by
  have hhead := lineHead_eq hbefore hmargin after
  have hsplit := lineStart_append_lineHead ⟨before ++ margin, after⟩
  rw [hhead] at hsplit
  have hstart := List.append_cancel_right hsplit
  rw [lineStart, hhead]
  exact congrArg (Cut.mk · (margin ++ after)) hstart

end Cut

/-- What precedes the place where a class is closed, and the blanks that may stand between that
place and the closing brace, where it begins a line. -/
theorem HasClass.exists_margin {t head body tail : Text} (h : HasClass t head body tail) :
    ∃ members margin, body = members ++ margin ∧ Brace.IsMargin margin ∧
      (members.getLast? = some '\n' ∨ margin = []) ∧
      Anchor.locate t .classEnd = some ⟨head ++ '{' :: members, margin ++ '}' :: tail⟩ := by
  rw [h.locate, Cut.besideBrace]
  generalize hk : Cut.closing head body tail = k
  split
  · next hblank =>
      have hmargin : Brace.IsMargin k.lineHead := fun c hc =>
        ⟨List.all_eq_true.1 hblank c hc, k.not_mem_lineHead c hc⟩
      have hopen : '{' ∉ k.lineHead := fun hc => absurd (hmargin _ hc).1 (by decide)
      have hline := Cut.beginsLine_lineStart k
      have hsplit := k.lineStart_append_lineHead
      have hstart : k.lineStart = ⟨k.lineStart.before, k.lineHead ++ '}' :: tail⟩ := by
        rw [← hk]; rfl
      rw [hstart]
      generalize k.lineStart.before = start at hsplit hline ⊢
      generalize k.lineHead = margin at *
      subst hk
      rcases List.append_eq_append_iff.1 hsplit with ⟨w, -, hw⟩ | ⟨w, rfl, hw⟩
      · exact absurd (by rw [hw]; simp) hopen
      · cases w with
        | nil => exact absurd (by rw [← List.nil_append margin, ← hw]; simp) hopen
        | cons c members =>
            obtain ⟨rfl, rfl⟩ := List.cons.inj hw
            refine ⟨members, margin, rfl, hmargin, .inl ?_, rfl⟩
            rw [List.getLast?_append_of_ne_nil _ (List.cons_ne_nil _ _), List.getLast?_cons] at hline
            cases hlast : members.getLast? with
            | none => simp [hlast, Text.beginsLine] at hline
            | some c => simpa [hlast, Text.beginsLine] using hline
  · exact ⟨body, [], by simp, by simp [Brace.IsMargin], .inr rfl, by rw [← hk]; rfl⟩

theorem HasClass.locate_of_line {t head members margin tail : Text}
    (h : HasClass t head (members ++ margin) tail) (hmargin : Brace.IsMargin margin)
    (hline : members.getLast? = some '\n') :
    Anchor.locate t .classEnd = some ⟨head ++ '{' :: members, margin ++ '}' :: tail⟩ ∧
      (Cut.closing head (members ++ margin) tail).lineStart =
        ⟨head ++ '{' :: members, margin ++ '}' :: tail⟩ := by
  have hlast : Text.beginsLine (head ++ '{' :: members).getLast? = true := by
    rw [List.getLast?_append_of_ne_nil _ (List.cons_ne_nil _ _), List.getLast?_cons, hline]
    rfl
  have hnewline : ∀ c ∈ margin, c ≠ '\n' := fun c hc => (hmargin c hc).2
  have hbefore : Cut.closing head (members ++ margin) tail =
      ⟨(head ++ '{' :: members) ++ margin, '}' :: tail⟩ := by
    simp [Cut.closing]
  have hstart := Cut.lineStart_eq hlast hnewline ('}' :: tail)
  rw [h.locate, hbefore, Cut.besideBrace, if_pos]
  · exact ⟨congrArg some hstart, hstart⟩
  · rw [Cut.startsLine, Cut.lineHead_eq hlast hnewline]
    exact List.all_eq_true.2 fun c hc => (hmargin c hc).1

end Scaffold
