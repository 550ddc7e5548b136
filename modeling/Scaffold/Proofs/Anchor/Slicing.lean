import Scaffold.Proofs.Anchor.Returning

namespace Scaffold

namespace Text

/-- The text between two offsets. An offset within a character, behind the end or before the
beginning of the slice is an error. -/
def between (t : Text) (i j : Nat) : Except Nat Text :=
  if !isBoundary t i then .error i
  else if !isBoundary t j || j < i then .error j
  else .ok (slice t i j)

def firstOffset? (p : Char → Bool) (t : Text) : Option Nat :=
  (firstCut? (fun _ r => r.head?.any p) none t).map Cut.offset

def lastOffset? (p : Char → Bool) (t : Text) : Option Nat :=
  (lastCut? (fun _ r => r.head?.any p) none t).map Cut.offset

def lineStartAt (t : Text) (i : Nat) : Except Nat Nat := do
  let above ← between t 0 i
  return (lastOffset? (· == '\n') above).elim 0 (· + 1)

def startsLineAt (t : Text) (i : Nat) : Except Nat Bool := do
  let start ← lineStartAt t i
  return isBlankText (← between t start i)

def lineIndentAt (t : Text) (i : Nat) : Except Nat Text := do
  let start ← lineStartAt t i
  let line ← between t start (bytes t)
  between line 0 ((firstOffset? (fun c => c != ' ' && c != '\t') line).getD (bytes line))

end Text

def Brace.closingAt (t : Text) (i : Nat) : Except Nat (Option Nat) := do
  let rest ← Text.between t i (Text.bytes t)
  let some n := Text.firstOffset? (· == '{') rest | return none
  scan t 0 (i + n)

namespace Anchor

def besideBraceAt (t : Text) (i : Nat) : Except Nat Nat := do
  if ← Text.startsLineAt t i then Text.lineStartAt t i else return i

def lastLineAt (t : Text) (p : Text → Bool) : Except Nat (Option Nat) := do
  let some k := Text.lastLine? p t | return none
  return some (← Text.lineStartAt t k.offset)

def locateClassEndAt (t : Text) : Except Nat (Option Nat) := do
  let some declaration := Text.firstLine? (fun r => (Shape.classDeclaration r).isSome) t
    | return none
  let some header := Shape.classDeclaration declaration.after | return none
  let some brace ← Brace.closingAt t (Text.bytes t - Text.bytes header) | return none
  return some (← besideBraceAt t brace)

/-- The offset of an anchor in a text. What reads a shape gives the offsets at which the shape begins
and ends. -/
def locateAt (t : Text) : Anchor → Except Nat (Option Nat)
  | inputMapping => return do
    let opening ← Text.firstCut?
      (fun prev r => !prev.any isWord && (Shape.inputMapping r).isSome) none t
    let closing ← Shape.inputMapping opening.after
    some (Text.bytes t - Text.bytes (closing.drop 1) - 1)
  | catchAllRoute => lastLineAt t fun r => (Shape.catchAllRoute r).isSome
  | defaultExport => lastLineAt t fun r => (Shape.defaultExport r).isSome
  | classEnd => locateClassEndAt t
  | textEnd => return some (Text.bytes t)
  | firstImport => return do
    let statement ← Text.firstLine? (fun r => (Shape.importStatement r).isSome) t
    let rest ← Shape.importStatement statement.after
    some (Text.bytes t - Text.bytes rest)

end Anchor

namespace Text

variable {p : Char → Bool} {prev : Option Char} {c : Char} {t u v above line : Text} {k : Cut}

theorem between_append (u m v : Text) :
    between (u ++ m ++ v) (bytes u) (bytes (u ++ m)) = pure m := by
  have hu : isBoundary (u ++ m ++ v) (bytes u) = true := by
    rw [List.append_assoc]
    exact isBoundary_bytes_append u (m ++ v)
  have hm : isBoundary (u ++ m ++ v) (bytes (u ++ m)) = true := isBoundary_bytes_append (u ++ m) v
  rw [between, slice_append, hu, hm, if_neg (by decide), if_neg (by simp)]
  rfl

theorem between_eq_ok_iff {m : Text} {i j : Nat} : between t i j = .ok m ↔
    ∃ u v, t = u ++ m ++ v ∧ bytes u = i ∧ bytes (u ++ m) = j := by
  constructor
  · intro h
    rw [between] at h
    split at h
    · cases h
    split at h
    · cases h
    · next hi hj =>
        cases h
        simp only [Bool.not_eq_true', Bool.or_eq_true, decide_eq_true_eq, not_or, Bool.not_eq_false,
          not_lt] at hi hj
        have htake := takeBytes_slice hi hj.2
        refine ⟨takeBytes i t, dropBytes j t, ?_, bytes_takeBytes hi, ?_⟩
        · rw [htake, takeBytes_append_dropBytes]
        · rw [htake, bytes_takeBytes hj.1]
  · rintro ⟨u, v, rfl, rfl, rfl⟩
    exact between_append u m v

/-- A slice that would end within a character. -/
example : between ['a', 'é'] 0 2 = .error 2 := rfl

theorem between_zero (u v : Text) : between (u ++ v) 0 (bytes u) = pure u :=
  between_append [] u v

theorem between_end (u v : Text) : between (u ++ v) (bytes u) (bytes (u ++ v)) = pure v := by
  have h := between_append u v []
  rwa [List.append_nil] at h

theorem between_before (k : Cut) : between k.whole 0 k.offset = pure k.before :=
  between_zero k.before k.after

theorem firstOffset?_eq : firstOffset? p t =
    if t.dropWhile (!p ·) = [] then none else some (bytes (t.takeWhile (!p ·))) := by
  rw [firstOffset?]
  generalize none = prev
  induction t generalizing prev with
  | nil => rfl
  | cons c t ih =>
      rw [firstCut?]
      cases hc : p c with
      | true => simp [hc, Cut.offset]
      | false =>
          have hoffset : Cut.offset ∘ (fun k : Cut => { k with before := c :: k.before }) =
              (c.utf8Size + ·) ∘ Cut.offset := rfl
          rw [List.head?_cons, Option.any_some, hc, if_neg (by decide), Option.map_map, hoffset,
            ← Option.map_map, ih, List.dropWhile_cons_of_pos (by simp [hc]),
            List.takeWhile_cons_of_pos (by simp [hc]), bytes_cons]
          split <;> rfl

theorem lastCut?_head_eq_none (h : ∀ c ∈ t, p c = false) :
    lastCut? (fun _ r => r.head?.any p) prev t = none := by
  induction t generalizing prev with
  | nil => rfl
  | cons c t ih =>
      rw [lastCut?, ih fun d hd => h d (List.mem_cons_of_mem c hd)]
      simp [h c List.mem_cons_self]

theorem lastCut?_head (hc : p c = true) (hv : ∀ d ∈ v, p d = false) (u : Text) :
    lastCut? (fun _ r => r.head?.any p) prev (u ++ c :: v) = some ⟨u, c :: v⟩ := by
  induction u generalizing prev with
  | nil =>
      rw [List.nil_append, lastCut?, lastCut?_head_eq_none hv]
      simp [hc]
  | cons d u ih => rw [List.cons_append, lastCut?, ih]

theorem lastOffset?_eq_none (h : ∀ c ∈ t, p c = false) : lastOffset? p t = none := by
  rw [lastOffset?, lastCut?_head_eq_none h, Option.map_none]

theorem lastOffset?_append (hc : p c = true) (hv : ∀ d ∈ v, p d = false) (u : Text) :
    lastOffset? p (u ++ c :: v) = some (bytes u) := by
  rw [lastOffset?, lastCut?_head hc hv, Option.map_some, Cut.offset]

theorem lt_of_lastOffset? {n : Nat} (h : lastOffset? p t = some n) : n < bytes t := by
  obtain ⟨k, hk, rfl⟩ := Option.map_eq_some_iff.1 h
  obtain ⟨c, hc, -⟩ := (Option.any_eq_true _ _).1 (Text.of_lastCut? hk)
  obtain ⟨v, hv⟩ := List.head?_eq_some_iff.1 hc
  rw [← whole_of_lastCut? hk, Cut.whole, Cut.offset, hv, bytes_append, bytes_cons]
  have := c.utf8Size_pos
  omega

theorem exists_last (p : Char → Bool) (t : Text) : (∀ c ∈ t, p c = false) ∨
    ∃ u c v, t = u ++ c :: v ∧ p c = true ∧ ∀ d ∈ v, p d = false := by
  induction t with
  | nil => exact .inl (by simp)
  | cons c t ih =>
      rcases ih with hnone | ⟨u, d, v, rfl, hd, hv⟩
      · cases hc : p c with
        | true => exact .inr ⟨[], c, t, rfl, hc, hnone⟩
        | false => exact .inl (List.forall_mem_cons.2 ⟨hc, hnone⟩)
      · exact .inr ⟨c :: u, d, v, rfl, hd, hv⟩

theorem le_of_lineStartAt {i n : Nat} (h : lineStartAt t i = .ok n) : n ≤ i := by
  cases habove : between t 0 i with
  | error stray =>
      rw [lineStartAt, habove] at h
      cases h
  | ok above =>
      obtain ⟨u, v, -, hu, rfl⟩ := between_eq_ok_iff.1 habove
      rw [lineStartAt, habove] at h
      obtain rfl := Except.ok.inj h
      rw [bytes_append, hu]
      cases hlast : lastOffset? (· == '\n') above with
      | none => exact Nat.zero_le _
      | some n =>
          have := lt_of_lastOffset? hlast
          change n + 1 ≤ _
          omega

theorem lineStartAt_append (habove : beginsLine above.getLast? = true) (hline : '\n' ∉ line)
    (v : Text) : lineStartAt (above ++ line ++ v) (bytes (above ++ line)) = pure (bytes above) := by
  have hnone : ∀ c ∈ line, (c == '\n') = false := fun c hc =>
    beq_eq_false_iff_ne.2 fun h => hline (h ▸ hc)
  rw [lineStartAt, between_zero, pure_bind]
  cases hlast : above.getLast? with
  | none =>
      obtain rfl := List.getLast?_eq_none_iff.1 hlast
      rw [List.nil_append, lastOffset?_eq_none hnone]
      rfl
  | some c =>
      obtain ⟨u, rfl⟩ := List.getLast?_eq_some_iff.1 hlast
      rw [hlast] at habove
      obtain rfl : c = '\n' := beq_iff_eq.1 habove
      rw [List.append_assoc, List.singleton_append, lastOffset?_append rfl hnone,
        IsSign.bytes_concat (by decide)]
      rfl

theorem lineStartAt_offset (k : Cut) : lineStartAt k.whole k.offset = pure k.lineStart.offset := by
  have h := lineStartAt_append (Cut.beginsLine_lineStart k)
    (fun hc => k.not_mem_lineHead _ hc rfl) k.after
  rwa [k.lineStart_append_lineHead] at h

theorem startsLineAt_offset (k : Cut) : startsLineAt k.whole k.offset = pure k.startsLine := by
  have h := between_append k.lineStart.before k.lineHead k.after
  rw [k.lineStart_append_lineHead] at h
  rw [startsLineAt, lineStartAt_offset, pure_bind, Cut.whole, Cut.offset, Cut.offset, h, pure_bind]
  rfl

theorem lineIndentAt_offset (k : Cut) : lineIndentAt k.whole k.offset = pure k.lineIndent := by
  have hrest := between_end k.lineStart.before k.lineStart.after
  rw [lineIndentAt, lineStartAt_offset, pure_bind, ← k.whole_lineStart, Cut.whole, Cut.offset, hrest,
    pure_bind, Cut.lineIndent]
  generalize k.lineStart.after = line
  have hkind : (fun c : Char => !(c != ' ' && c != '\t')) = fun c => c == ' ' || c == '\t' := by
    funext c
    simp [bne]
  have hsplit := List.takeWhile_append_dropWhile (p := fun c => c == ' ' || c == '\t') (l := line)
  have hzero := between_zero (line.takeWhile fun c => c == ' ' || c == '\t')
    (line.dropWhile fun c => c == ' ' || c == '\t')
  rw [hsplit] at hzero
  rw [firstOffset?_eq, hkind]
  split
  · next hnil =>
      rw [hnil, List.append_nil] at hsplit
      rw [Option.getD_none, ← hzero, hsplit]
  · exact hzero

end Text

theorem Cut.offset_ofRest {t rest : Text} (h : rest <:+ t) :
    (ofRest t rest).offset = Text.bytes t - Text.bytes rest := by
  obtain ⟨s, rfl⟩ := h
  rw [ofRest_append, offset, Text.bytes_append, Nat.add_sub_cancel]

theorem Brace.closingAt_append (above header : Text) :
    closingAt (above ++ header) (Text.bytes above) =
      pure ((closing? (header.dropWhile (· != '{'))).map fun r =>
        Text.bytes (above ++ header) - Text.bytes r) := by
  have hskip : (fun c : Char => !(c == '{')) = (· != '{') := rfl
  have hsplit := List.takeWhile_append_dropWhile (p := (· != '{')) (l := header)
  rw [closingAt, Text.between_end, pure_bind, Text.firstOffset?_eq, hskip]
  cases hopening : header.dropWhile (· != '{') with
  | nil => simp [closing?, close?]
  | cons c rest =>
      obtain rfl : c = '{' := by simpa using Text.head?_dropWhile (congrArg List.head? hopening)
      have hscan := scan_opening (above ++ header.takeWhile (· != '{')) rest
      rw [hopening] at hsplit
      rw [List.append_assoc, hsplit, Text.bytes_append] at hscan
      rw [if_neg (List.cons_ne_nil _ _)]
      exact hscan

namespace Anchor

variable {t : Text}

theorem besideBraceAt_offset (k : Cut) :
    besideBraceAt k.whole k.offset = pure k.besideBrace.offset := by
  rw [besideBraceAt, Text.startsLineAt_offset, pure_bind, Cut.besideBrace]
  split
  · exact Text.lineStartAt_offset k
  · rfl

theorem locateClassEndAt_eq (t : Text) :
    locateClassEndAt t = pure ((locateClassEnd t).map Cut.offset) := by
  rw [locateClassEndAt, locateClassEnd]
  cases hdeclaration : Text.firstLine? (fun r => (Shape.classDeclaration r).isSome) t with
  | none => rfl
  | some declaration =>
      cases hheader : Shape.classDeclaration declaration.after with
      | none => simp [hheader]
      | some header =>
          obtain ⟨above, rfl⟩ : header <:+ t := (Shape.suffix_of_classDeclaration hheader).trans
            ⟨declaration.before, Text.whole_of_firstCut? hdeclaration⟩
          have hstop : Text.bytes (above ++ header) - Text.bytes header = Text.bytes above := by
            rw [Text.bytes_append, Nat.add_sub_cancel]
          simp only [hheader, hstop, Brace.closingAt_append, pure_bind, Option.bind_eq_bind,
            Option.bind_some]
          cases hclosing : Brace.closing? (header.dropWhile (· != '{')) with
          | none => rfl
          | some rest =>
              have hsuffix : rest <:+ above ++ header := (Brace.suffix_of_close? hclosing).1.trans
                ((List.dropWhile_suffix _).trans (List.suffix_append above header))
              have hbeside := besideBraceAt_offset (Cut.ofRest (above ++ header) rest)
              rw [Cut.whole_ofRest hsuffix, Cut.offset_ofRest hsuffix] at hbeside
              simp only [Option.map_some, hbeside, pure_bind]
              rfl

theorem lastLineAt_eq (t : Text) (p : Text → Bool) :
    lastLineAt t p = pure ((Text.lastLine? p t).map Cut.offset) := by
  rw [lastLineAt]
  cases hline : Text.lastLine? p t with
  | none => rfl
  | some k =>
      have hbegins := Text.of_lastCut? hline
      rw [Option.or_none, Bool.and_eq_true] at hbegins
      obtain rfl : k.whole = t := Text.whole_of_lastCut? hline
      have hstart := Text.lineStartAt_append hbegins.1 List.not_mem_nil k.after
      rw [List.append_nil] at hstart
      simp only [Cut.whole, Cut.offset, hstart, pure_bind, Option.map_some]

theorem offset_of_inputMapping {rest : Text} (h : rest <:+ t) (hclose : rest.head? = some '}') :
    Text.bytes t - Text.bytes (rest.drop 1) - 1 = (Cut.ofRest t rest).offset := by
  obtain ⟨r, rfl⟩ := List.head?_eq_some_iff.1 hclose
  have hsize : Text.bytes ('}' :: r) = 1 + Text.bytes r := rfl
  rw [Cut.offset_ofRest h, hsize, List.drop_one, List.tail_cons]
  omega

/-- No search for an anchor slices a text within a character. -/
theorem locateAt_eq (a : Anchor) (t : Text) :
    a.locateAt t = pure ((a.locate t).map Cut.offset) := by
  cases a with
  | inputMapping =>
      rw [locateAt, locate]
      congr 1
      cases hopening : Text.firstCut?
          (fun prev r => !prev.any isWord && (Shape.inputMapping r).isSome) none t with
      | none => rfl
      | some opening =>
          cases hrest : Shape.inputMapping opening.after with
          | none => simp [hrest]
          | some rest =>
              obtain ⟨hsuffix, hclose⟩ := Shape.suffix_of_inputMapping hrest
              have hoffset := offset_of_inputMapping
                (hsuffix.trans ⟨opening.before, Text.whole_of_firstCut? hopening⟩) hclose
              simp only [Option.bind_eq_bind, Option.bind_some, hrest, Option.map_some, hoffset]
  | catchAllRoute => exact lastLineAt_eq t _
  | defaultExport => exact lastLineAt_eq t _
  | classEnd => exact locateClassEndAt_eq t
  | textEnd => rfl
  | firstImport =>
      rw [locateAt, locate]
      congr 1
      cases hstatement : Text.firstLine? (fun r => (Shape.importStatement r).isSome) t with
      | none => rfl
      | some statement =>
          cases hrest : Shape.importStatement statement.after with
          | none => simp [hrest]
          | some rest =>
              obtain ⟨w, hafter, -⟩ := Shape.of_importStatement hrest
              have hoffset := Cut.offset_ofRest (List.IsSuffix.trans ⟨w, hafter.symm⟩
                ⟨statement.before, Text.whole_of_firstCut? hstatement⟩)
              simp only [Option.bind_eq_bind, Option.bind_some, hrest, Option.map_some, hoffset]

end Anchor

end Scaffold
