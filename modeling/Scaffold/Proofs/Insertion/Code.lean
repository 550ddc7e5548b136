import Scaffold.Proofs.Anchor.Nesting
import Scaffold.Proofs.Insertion.Planned
import Scaffold.Proofs.Text.Ended
import Scaffold.Proofs.Text.Marks

namespace Scaffold

open Text

namespace Text

def lastLine (t : Text) : Text := (List.splitOn '\n' t).getLast?.getD []

variable {a l : Text}

theorem exists_lastLine (t : Text) : ∃ a, t = a ++ lastLine t ∧ beginsLine a.getLast? = true ∧
    '\n' ∉ lastLine t := by
  obtain ⟨ls, l, hls⟩ := (List.eq_nil_or_concat _).resolve_left (List.splitOn_ne_nil '\n' t)
  rw [List.concat_eq_append] at hls
  have hlast : lastLine t = l := by rw [lastLine, hls, List.getLast?_concat, Option.getD_some]
  have hjoin : List.intercalate ['\n'] (List.splitOn '\n' t) = t := List.intercalate_splitOn '\n'
  rw [hls, intercalate_concat] at hjoin
  rw [hlast]
  refine ⟨unlines ls, ?_, beginsLine_unlines ls, ?_⟩
  · rw [← hjoin, unlines]
  · exact not_mem_of_mem_splitOn (t := t) (by simp [hls])

theorem splitOn_append_line (ha : beginsLine a.getLast? = true) (hl : '\n' ∉ l) :
    List.splitOn '\n' (a ++ l) = ended a ++ [l] := by
  rw [splitOn_append_of_beginsLine ha, List.splitOn_eq_singleton hl]

theorem lastLine_append (ha : beginsLine a.getLast? = true) (hl : '\n' ∉ l) :
    lastLine (a ++ l) = l := by
  rw [lastLine, splitOn_append_line ha hl, List.getLast?_concat, Option.getD_some]

end Text

namespace Mapping

/-- How the scan of a line goes on after a character: the quote of the literal one is in, and whether a
backslash comes before the next character. -/
def next : Option Char × Bool → Char → Option Char × Bool
  | (some q, true), _ => (some q, false)
  | (some q, false), c => if c = '\\' then (some q, true) else if c = q then (none, false)
      else (some q, false)
  | (none, _), c => if Shape.isLiteralQuote c then (some c, false) else (none, false)

/-- A line without a comment, at the end of which no literal is open. -/
structure IsClosed (line : Text) : Prop where
  noComment : code line = line
  noLiteral : (line.foldl next (none, false)).1 = none

instance (line : Text) : Decidable (IsClosed line) :=
  decidable_of_iff (code line = line ∧ (line.foldl next (none, false)).1 = none)
    ⟨fun h => ⟨h.1, h.2⟩, fun h => ⟨h.noComment, h.noLiteral⟩⟩

def comment (line : Text) : Text := line.drop (code line).length

def visible (t : Text) : Text := t.filter (!isBlank ·)

def allCode (body : Text) : Text := (List.splitOn '\n' body).flatMap fun l => visible (code l)

def comments (body : Text) : List Text := ((List.splitOn '\n' body).map comment).filter (· ≠ [])

theorem visible_append (s t : Text) : visible (s ++ t) = visible s ++ visible t :=
  List.filter_append s t

theorem visible_of_blank {b : Text} (hb : ∀ c ∈ b, isBlank c = true) : visible b = [] :=
  List.filter_eq_nil_iff.2 fun c hc => by simp [hb c hc]

variable {s : Option Char × Bool} {c : Char} {x y b r u v : Text}

theorem codeFrom_cons (s : Option Char × Bool) (c : Char) (t : Text) :
    codeFrom s.1 s.2 (c :: t) = if s.1 = none ∧ c = '/' ∧ t.head? = some '/' then []
      else c :: codeFrom (next s c).1 (next s c).2 t := by
  obtain ⟨_ | q, escaped⟩ := s
  · rw [codeFrom, next]
    split
    · next hquote =>
        have hslash : c ≠ '/' := by
          rintro rfl
          exact absurd hquote (by decide)
        rw [if_neg fun h => hslash h.2.1]
    · split
      · next hslash => rw [if_pos ⟨rfl, hslash⟩]
      · next hslash => rw [if_neg fun h => hslash h.2]
  · rw [if_neg fun h => Option.some_ne_none q h.1]
    cases escaped with
    | true => rfl
    | false =>
        simp only [codeFrom, next, Bool.false_eq_true, if_false]
        split
        · rfl
        · split <;> rfl

theorem codeFrom_eq_of_none (h : s.1 = none) (t : Text) : codeFrom s.1 s.2 t = code t := by
  obtain ⟨q, escaped⟩ := s
  subst h
  cases t <;> rfl

theorem head?_codeFrom (h : s.1 ≠ none) (t : Text) : (codeFrom s.1 s.2 t).head? = t.head? := by
  cases t with
  | nil => rfl
  | cons c t =>
      rw [codeFrom_cons, if_neg fun hs => h hs.1]
      rfl

theorem codeFrom_of_not_mem (s : Option Char × Bool) (h : '/' ∉ x) : codeFrom s.1 s.2 x = x := by
  induction x generalizing s with
  | nil => rfl
  | cons c x ih =>
      have hslash : c ≠ '/' := fun hc => h (hc ▸ List.mem_cons_self)
      rw [codeFrom_cons, if_neg fun hs => hslash hs.2.1,
        ih (next s c) fun hmem => h (List.mem_cons_of_mem c hmem)]

def Meets (x y : Text) : Prop := x.getLast? ≠ some '/' ∨ y.head? ≠ some '/'

theorem codeFrom_append (hx : codeFrom s.1 s.2 x = x) (hmeets : Meets x y) :
    codeFrom s.1 s.2 (x ++ y) = x ++ codeFrom (x.foldl next s).1 (x.foldl next s).2 y := by
  induction x generalizing s with
  | nil => rfl
  | cons c x ih =>
      rw [codeFrom_cons] at hx
      split at hx
      · cases hx
      · next hslash =>
          obtain ⟨-, hrest⟩ := List.cons.inj hx
          have hmeets' : Meets x y := by
            refine hmeets.imp_left fun hlast hx => hlast ?_
            rw [List.getLast?_cons, hx, Option.getD_some]
          have hslash' : ¬(s.1 = none ∧ c = '/' ∧ (x ++ y).head? = some '/') := by
            rintro ⟨hs, rfl, hhead⟩
            cases x with
            | nil => exact hmeets.elim (fun h => h rfl) fun h => h hhead
            | cons d x => exact hslash ⟨hs, rfl, hhead⟩
          rw [List.cons_append, codeFrom_cons, if_neg hslash', ih hrest hmeets']
          rfl

/-- After a closed text the scan begins anew. -/
theorem IsClosed.code_append (hx : IsClosed x) (hmeets : Meets x y) : code (x ++ y) = x ++ code y := by
  have hscan := codeFrom_append (s := (none, false)) hx.noComment hmeets
  rwa [codeFrom_eq_of_none hx.noLiteral] at hscan

theorem foldl_next_none {escaped : Bool} (hne : x ≠ []) :
    x.foldl next (none, escaped) = x.foldl next (none, false) := by
  cases x with
  | nil => exact absurd rfl hne
  | cons c x => rfl

theorem IsClosed.append (hx : IsClosed x) (hy : IsClosed y) (hmeets : Meets x y) :
    IsClosed (x ++ y) := by
  refine ⟨by rw [hx.code_append hmeets, hy.noComment], ?_⟩
  rw [List.foldl_append]
  by_cases hne : y = []
  · rw [hne]
    exact hx.noLiteral
  · have hquote := hx.noLiteral
    generalize x.foldl next (none, false) = s at hquote ⊢
    obtain ⟨q, escaped⟩ := s
    obtain rfl : q = none := hquote
    rw [foldl_next_none hne]
    exact hy.noLiteral

theorem isLiteralQuote_of_next {q : Char} (hs : ∀ p, s.1 = some p → Shape.isLiteralQuote p = true)
    (h : (next s c).1 = some q) : Shape.isLiteralQuote q = true := by
  obtain ⟨_ | p, escaped⟩ := s
  · rw [next] at h
    split at h
    · next hc => cases h; exact hc
    · cases h
  · have hp := hs p rfl
    cases escaped with
    | true => cases h; exact hp
    | false =>
        rw [next] at h
        split at h
        · cases h; exact hp
        · split at h
          · cases h
          · cases h; exact hp

theorem isLiteralQuote_of_foldl_next {q : Char}
    (hs : ∀ p, s.1 = some p → Shape.isLiteralQuote p = true)
    (h : (x.foldl next s).1 = some q) : Shape.isLiteralQuote q = true := by
  induction x generalizing s with
  | nil => exact hs q h
  | cons c x ih => exact ih (fun p hp => isLiteralQuote_of_next hs hp) h

theorem fst_next (hs : ∀ p, s.1 = some p → Shape.isLiteralQuote p = true)
    (hc : Shape.isLiteralQuote c = false) : (next s c).1 = s.1 := by
  obtain ⟨_ | p, escaped⟩ := s
  · rw [next, if_neg (by simp [hc])]
  · have hne : c ≠ p := by
      rintro rfl
      rw [hs c rfl] at hc
      cases hc
    cases escaped with
    | true => rfl
    | false =>
        rw [next, if_neg hne]
        split <;> rfl

theorem fst_foldl_next (hs : ∀ p, s.1 = some p → Shape.isLiteralQuote p = true)
    (hx : ∀ c ∈ x, Shape.isLiteralQuote c = false) : (x.foldl next s).1 = s.1 := by
  induction x generalizing s with
  | nil => rfl
  | cons c x ih =>
      have hc := fst_next hs (hx c List.mem_cons_self)
      rw [List.foldl_cons, ih (fun p hp => hs p (hc ▸ hp)) fun d hd =>
        hx d (List.mem_cons_of_mem c hd), hc]

theorem isClosed_of_blank (hx : ∀ c ∈ x, isBlank c = true) : IsClosed x :=
  ⟨codeFrom_of_not_mem (none, false) fun h => absurd (hx _ h) (by decide),
    fst_foldl_next (by simp) fun c hc => Brace.not_isLiteralQuote_of_isBlank (hx c hc)⟩

/-- A comma after the last code of a line belongs to the code, be it in an open literal or not. -/
theorem codeFrom_comma (hs : ∀ p, s.1 = some p → Shape.isLiteralQuote p = true)
    (hb : ∀ c ∈ b, isBlank c = true) (hr : r = [] ∨ r.head? = some '/')
    (h : codeFrom s.1 s.2 (x ++ (b ++ r)) = x ++ b) :
    codeFrom s.1 s.2 (x ++ ',' :: (b ++ r)) = x ++ ',' :: b := by
  have hslash : '/' ∉ b := fun hmem => absurd (hb _ hmem) (by decide)
  induction x generalizing s with
  | nil =>
      rw [List.nil_append, codeFrom_cons, if_neg (by simp), List.nil_append, List.cons.injEq]
      refine ⟨rfl, ?_⟩
      rcases hr with rfl | hr
      · rw [List.append_nil]
        exact codeFrom_of_not_mem _ hslash
      · -- What the scan stops at is a comment, so no literal is open before the comma.
        have hmeets : Meets b r := .inl fun hlast => hslash (List.mem_of_getLast? hlast)
        have hscan := codeFrom_append (codeFrom_of_not_mem s hslash) hmeets
        rw [List.nil_append, List.nil_append] at h
        rw [h, List.self_eq_append_right] at hscan
        have hquote := fst_foldl_next hs fun c hc => Brace.not_isLiteralQuote_of_isBlank (hb c hc)
        have hnone : s.1 = none := by
          by_contra hne
          have hhead := head?_codeFrom (s := b.foldl next s) (hquote ▸ hne) r
          rw [hscan, hr] at hhead
          cases hhead
        rw [codeFrom_eq_of_none hnone] at h
        rw [codeFrom_eq_of_none ((fst_next hs (by decide)).trans hnone), h]
  | cons c x ih =>
      rw [List.cons_append, List.cons_append, codeFrom_cons] at h
      split at h
      · cases h
      · next hcomment =>
          obtain ⟨-, hrest⟩ := List.cons.inj h
          have hcomment' : ¬(s.1 = none ∧ c = '/' ∧ (x ++ ',' :: (b ++ r)).head? = some '/') := by
            rintro ⟨hnone, rfl, hhead⟩
            cases x with
            | nil => cases hhead
            | cons d x => exact hcomment ⟨hnone, rfl, hhead⟩
          rw [List.cons_append, codeFrom_cons, if_neg hcomment',
            ih (fun p hp => isLiteralQuote_of_next hs hp) hrest]
          rfl

structure TakesComma (line new : Text) : Prop where
  visible_code : visible (code new) = visible (code line) ++ [',']
  comment_eq : comment new = comment line
  isClosed : IsClosed line → IsClosed new

theorem takesComma {line rest : Text} (h : line = trimEnd (code line) ++ rest) :
    TakesComma line (trimEnd (code line) ++ ',' :: rest) := by
  obtain ⟨b, hb, hblank⟩ := trimEnd_split (code line)
  obtain ⟨r, hr, hrest⟩ := codeFrom_split none false line
  have hslashes : r = [] ∨ r.head? = some '/' := by
    refine hrest.imp_right ?_
    rintro ⟨u, rfl⟩
    rfl
  change line = code line ++ r at hr
  generalize trimEnd (code line) = c at *
  obtain rfl : rest = b ++ r := by
    rw [hb, List.append_assoc] at hr
    exact List.append_cancel_left (h.symm.trans hr)
  have hscan : codeFrom none false (c ++ (b ++ r)) = c ++ b := by
    rw [← h, ← hb]
    rfl
  have hnew : code (c ++ ',' :: (b ++ r)) = c ++ ',' :: b :=
    codeFrom_comma (s := (none, false)) (by simp) hblank hslashes hscan
  refine ⟨?_, ?_, fun hclosed => ⟨?_, ?_⟩⟩
  · have hcomma : visible (',' :: b) = [','] := by
      rw [visible, List.filter_cons_of_pos (by decide), ← visible, visible_of_blank hblank]
    rw [hnew, hb, visible_append, visible_append, visible_of_blank hblank, List.append_nil, hcomma]
  · have hsplit : c ++ ',' :: (b ++ r) = (c ++ ',' :: b) ++ r := by simp
    rw [comment, comment, hnew, hsplit, List.drop_left]
    conv => rhs; rw [hr, List.drop_left' (by rw [← hr])]
  · obtain rfl : r = [] := by
      rw [hclosed.noComment] at hr
      exact List.self_eq_append_right.1 hr
    rw [hnew, List.append_nil]
  · obtain rfl : r = [] := by
      rw [hclosed.noComment] at hr
      exact List.self_eq_append_right.1 hr
    have hquote := hclosed.noLiteral
    have hletters : ∀ d ∈ b, Shape.isLiteralQuote d = false := fun d hd =>
      Brace.not_isLiteralQuote_of_isBlank (hblank d hd)
    have hstate : ∀ p, (c.foldl next (none, false)).1 = some p → Shape.isLiteralQuote p = true :=
      fun p => isLiteralQuote_of_foldl_next (by simp)
    rw [h, List.append_nil, List.foldl_append, fst_foldl_next hstate hletters] at hquote
    rw [List.append_nil, List.foldl_append, fst_foldl_next hstate, hquote]
    intro d hd
    rcases List.mem_cons.1 hd with rfl | hd
    · decide
    · exact hletters d hd

/-- A text that ends in a closed line is read apart from what follows it. -/
theorem read_append (hclosed : IsClosed (lastLine u)) (hmeets : Meets u v) :
    allCode (u ++ v) = allCode u ++ allCode v ∧ comments (u ++ v) = comments u ++ comments v := by
  obtain ⟨a, hu, ha, hl⟩ := exists_lastLine u
  generalize lastLine u = l at *
  obtain ⟨p, ps, hv, hpieces⟩ := splitOn_append_of_not_mem hl v
  have hmeets' : Meets l p := by
    refine hmeets.imp (fun hlast h => hlast ?_) fun hhead h => hhead ?_
    · rw [hu, List.getLast?_append, h, Option.some_or]
    · have hjoin : List.intercalate ['\n'] (List.splitOn '\n' v) = v :=
        List.intercalate_splitOn '\n'
      rw [hv] at hjoin
      obtain ⟨w, rfl⟩ := List.head?_eq_some_iff.1 h
      cases ps with
      | nil => rw [← hjoin, List.intercalate_singleton]; rfl
      | cons => rw [← hjoin, List.intercalate_cons_cons]; rfl
  have hcode := hclosed.code_append hmeets'
  have hcomment : comment (l ++ p) = comment p := by
    rw [comment, hcode, List.length_append, List.drop_length_add_append, comment]
  have hnone : comment l = [] := by
    rw [comment, hclosed.noComment, List.drop_length]
  constructor
  · rw [allCode, allCode, allCode, hu, List.append_assoc, splitOn_append_of_beginsLine ha, hpieces,
      hv,
      splitOn_append_line ha hl]
    simp [hcode, hclosed.noComment, visible_append]
  · rw [comments, comments, comments, hu, List.append_assoc, splitOn_append_of_beginsLine ha,
      hpieces,
      hv, splitOn_append_line ha hl]
    simp [hcomment, hnone]

structure Reads (t code : Text) (remarks : List Text) : Prop where
  code_eq : allCode t = code
  comments_eq : comments t = remarks
  isClosed : IsClosed (lastLine t)

theorem isClosed_lastLine_append (hu : IsClosed (lastLine u)) (hv : IsClosed (lastLine v))
    (hmeets : Meets u v) : IsClosed (lastLine (u ++ v)) := by
  obtain ⟨a, ha, hbegins, hline⟩ := exists_lastLine u
  obtain ⟨d, hd, hbegins', hline'⟩ := exists_lastLine v
  generalize lastLine u = l at *
  generalize lastLine v = m at *
  subst ha hd
  by_cases hnil : d = []
  · subst hnil
    have hflat : '\n' ∉ l ++ m := by
      rw [List.mem_append, not_or]
      exact ⟨hline, hline'⟩
    rw [List.nil_append, List.append_assoc, lastLine_append hbegins hflat]
    refine hu.append hv (hmeets.imp_left fun hlast hl => hlast ?_)
    rw [List.getLast?_append, hl, Option.some_or]
  · have hbegins'' : beginsLine (a ++ l ++ d).getLast? = true := by
      rwa [List.getLast?_append_of_ne_nil _ hnil]
    rwa [← List.append_assoc, lastLine_append hbegins'' hline']

theorem meets_blank (hb : ∀ c ∈ b, isBlank c = true) : Meets u b :=
  .inr fun h => absurd (hb _ (List.mem_of_mem_head? h)) (by decide)

namespace Reads

variable {k k' : Text} {cs cs' : List Text}

theorem append (hu : Reads u k cs) (hv : Reads v k' cs') (hmeets : Meets u v) :
    Reads (u ++ v) (k ++ k') (cs ++ cs') := by
  obtain ⟨hcode, hcomments⟩ := read_append hu.isClosed hmeets
  exact ⟨by rw [hcode, hu.code_eq, hv.code_eq], by rw [hcomments, hu.comments_eq, hv.comments_eq],
    isClosed_lastLine_append hu.isClosed hv.isClosed hmeets⟩

theorem line {l : Text} (hl : '\n' ∉ l) (hclosed : IsClosed l) : Reads l (visible l) [] := by
  refine ⟨?_, ?_, ?_⟩
  · rw [allCode, List.splitOn_eq_singleton hl, List.flatMap_singleton, hclosed.noComment]
  · rw [comments, List.splitOn_eq_singleton hl]
    simp [comment, hclosed.noComment]
  · have hlast : lastLine l = l := lastLine_append (a := []) rfl hl
    rwa [hlast]

theorem blank (hb : ∀ c ∈ b, isBlank c = true) : Reads b [] [] := by
  have hlines : ∀ l ∈ List.splitOn '\n' b, ∀ c ∈ l, isBlank c = true := fun l hl c hc =>
    hb c ((isInfix_of_mem_splitOn hl).subset hc)
  refine ⟨List.flatMap_eq_nil_iff.2 fun l hl => ?_, List.filter_eq_nil_iff.2 fun k hk => ?_, ?_⟩
  · rw [(isClosed_of_blank (hlines l hl)).noComment, visible_of_blank (hlines l hl)]
  · obtain ⟨l, hl, rfl⟩ := List.mem_map.1 hk
    simp [comment, (isClosed_of_blank (hlines l hl)).noComment]
  · obtain ⟨a, ha, -, -⟩ := exists_lastLine b
    refine isClosed_of_blank fun c hc => hb c ?_
    rw [ha]
    exact List.mem_append_right a hc

/-- The blanks at the end do not count, nor do they hold the line that was closed before them. -/
theorem of_append_blank (h : Reads (u ++ b) k cs) (hb : ∀ c ∈ b, isBlank c = true)
    (hline : b = [] ∨ u.getLast? = some '\n') : Reads u k cs := by
  rcases hline with rfl | hline
  · rwa [List.append_nil] at h
  · have hnil : lastLine (u ++ []) = [] := lastLine_append (by rw [hline]; rfl) List.not_mem_nil
    rw [List.append_nil] at hnil
    have hclosed : IsClosed (lastLine u) := by
      rw [hnil]
      exact isClosed_of_blank (by simp)
    obtain ⟨hcode, hcomments⟩ := read_append hclosed (meets_blank hb)
    rw [h.code_eq, (blank hb).code_eq, List.append_nil] at hcode
    rw [h.comments_eq, (blank hb).comments_eq, List.append_nil] at hcomments
    exact ⟨hcode.symm, hcomments.symm, hclosed⟩

end Reads

end Mapping

end Scaffold
