import Scaffold.Proofs.Anchor.Slicing
import Scaffold.Proofs.Insertion.Entries

namespace Scaffold

def Edit.insertAt (i : Nat) (new : Text) : Edit := ⟨i, i, new, .text []⟩

def Edit.replaceAt (i j : Nat) (old new : Text) : Edit := ⟨i, j, new, .ofText old⟩

def Text.indentAt (line : Text) : Except Nat Text :=
  between line 0 (bytes line - bytes (trimStart line))

def Text.entryIndentAt (isEntry : Text → Bool) (t instead : Text) : Except Nat Text :=
  match ((lines t).drop 1).find? isEntry with
  | some l => indentAt l
  | none => return instead

namespace Mapping

/-- A line up to its comment, which is looked for from an offset on. The text given last is what the
line has from there on, and the line is sliced to see whether a comment begins. -/
def codeAt (line : Text) (quote : Option Char) (escaped : Bool) (i : Nat) : Text → Except Nat Text
  | [] => return line
  | c :: t =>
    match quote with
    | some q =>
      if escaped then codeAt line quote false (i + c.utf8Size) t
      else if c = '\\' then codeAt line quote true (i + c.utf8Size) t
      else if c = q then codeAt line none false (i + c.utf8Size) t
      else codeAt line quote false (i + c.utf8Size) t
    | none =>
      if Shape.isLiteralQuote c then codeAt line (some c) false (i + c.utf8Size) t
      else do
        let rest ← Text.between line i (Text.bytes line)
        if List.isPrefixOf "//".toList rest then Text.between line 0 i
        else codeAt line none false (i + c.utf8Size) t

/-- The offset at which the code of the last line with code ends. The lines are gone through upwards,
from the one that ends at an offset. -/
def codeEndAt (body : Text) (stop : Nat) : Except Nat (Option Nat) :=
  match _h : Text.lineStartAt body stop with
  | .error stray => .error stray
  | .ok start => do
    let line ← Text.between body start stop
    let code := Text.trimEnd (← codeAt line none false 0 line)
    if !(Text.trimStart code).isEmpty then return some (start + Text.bytes code)
    else if _hstart : start = 0 then return none
    else codeEndAt body (start - 1)
termination_by stop
decreasing_by
  have := Text.le_of_lineStartAt _h
  omega

def commaEditAt? (body : Text) (start : Nat) : Except Nat (Option Edit) := do
  let some stop ← codeEndAt body (Text.bytes body) | return none
  let entries ← Text.between body 0 stop
  return if entries.getLast? = some ',' then none else some (.insertAt (start + stop) ",")

def takesLineAt (t : Text) (close : Nat) (body : Text) : Except Nat Bool :=
  if '\n' ∈ body then Text.startsLineAt t close else return false

def entryEditAt (t : Text) (close : Nat) (body entry : Text) : Except Nat Edit := do
  if ← takesLineAt t close body then
    let closingIndent ← Text.lineIndentAt t close
    let indent ← Text.entryIndentAt (!Text.isBlankText ·) body (closingIndent ++ "  ")
    return .insertAt (← Text.lineStartAt t close) (indent ++ entry ++ ",\n")
  else
    let lead : Text := if body.getLast?.any isBlank then "" else " "
    return .insertAt close (lead ++ entry ++ ", ")

def editsAt (t : Text) (close : Nat) (entry : Text) : Except Nat (List Edit) := do
  let above ← Text.between t 0 close
  let start := min ((Text.lastOffset? (· == '{') above).getD close + 1) close
  let body ← Text.between t start close
  let comma ← commaEditAt? body start
  return comma.toList ++ [← entryEditAt t close body entry]

end Mapping

namespace Import

def renderListAt (list : Text) (entries : List Text) : Except Nat Text := do
  if '\n' ∈ list then
    let isEntry (l : Text) : Bool := !Text.isBlankText l && Text.trim l != "\x7d"
    let indent ← Text.entryIndentAt isEntry list "  "
    let line (e : Text) : Text := indent ++ e ++ ",\n"
    return "\x7b\n" ++ entries.flatMap line ++ "\x7d"
  else
    return "\x7b " ++ List.intercalate ", " entries ++ " \x7d"

end Import

namespace ImportRequest

variable (r : ImportRequest)

def joinAt? (t : Text) (f : Import.Found) : Except Nat (Option Edit) := do
  let start := Text.bytes t - Text.bytes f.tail
  let stop := start + Text.bytes f.list
  let list ← Text.between t start stop
  let old := Import.entries list
  let new := (r.missing old).map (r.entry f)
  if new.isEmpty then return none
  return some (.replaceAt start stop list (← Import.renderListAt list (old ++ new)))

def quoteStyleAt (t : Text) : Except Nat Char := do
  let some stop ← Anchor.locateAt t .firstImport | return '\''
  let above ← Text.between t 0 stop
  let some i := Text.lastOffset? Shape.isQuote above | return '\''
  match (Text.utf8 t)[i]? with
  | some b => return Char.ofNat b.toNat
  | none => .error i

def addStatementAt (t : Text) : Except Nat Edit := do
  let statement := r.statement (← quoteStyleAt t)
  match ← Anchor.locateAt t .firstImport with
  | some i =>
    let above ← Text.between t 0 i
    return .insertAt i ((if Text.endsLine above then "" else "\n") ++ statement)
  | none =>
    return .insertAt 0 (statement ++ if t.isEmpty || t.head? == some '\n' then "" else "\n")

def planAt? (t : Text) : Except Nat (Option Edit) :=
  match (Import.statements r.source t).find? r.mayJoin with
  | some f => r.joinAt? t f
  | none => return some (← r.addStatementAt t)

end ImportRequest

namespace Insertion

variable (i : Insertion)

def placeAt? (t : Text) : Except Nat (Option (Anchor × Nat)) := do
  let located (a : Anchor) : Except Nat (Option (Anchor × Nat)) :=
    return (← a.locateAt t).map fun n => (a, n)
  match ← i.kind.anchors.findSomeM? located with
  | some place => return some place
  | none =>
    match i.kind.fallback? with
    | some a => located a
    | none => return none

def fragmentEditsAt (t : Text) (n : Nat) : Except Nat (List Edit) :=
  match i.kind with
  | .bundle => Mapping.editsAt t n i.fragment
  | .shard => return [.insertAt n ("\n" ++ i.block)]
  | _ => return [.insertAt n (if n = Text.bytes t then i.appended t else i.block ++ "\n")]

/-- The plan of an insertion, or the first offset at which the text is not to be sliced. -/
def planAt (t : Text) : Except Nat Plan := do
  if i.isPresent t then return .present i.presentReason
  match ← i.placeAt? t with
  | none => return .unanchored i.kind.mainAnchor
  | some (anchor, n) =>
    let missed := if anchor ∈ i.kind.anchors then none else some i.kind.mainAnchor
    let imports ← i.imports.mapM (·.planAt? t)
    return .edits (imports.filterMap id ++ (← i.fragmentEditsAt t n)) anchor missed

end Insertion

variable {t : Text}

theorem Text.indentAt_eq (line : Text) : indentAt line = pure (indent line) := by
  have hsplit : indent line ++ trimStart line = line := List.takeWhile_append_dropWhile
  have hzero := between_zero (indent line) (trimStart line)
  rw [hsplit] at hzero
  rw [indentAt, ← hzero]
  conv in bytes line => rw [← hsplit]
  rw [bytes_append, Nat.add_sub_cancel]

theorem Text.entryIndentAt_eq (isEntry : Text → Bool) (t instead : Text) :
    entryIndentAt isEntry t instead = pure (match ((lines t).drop 1).find? isEntry with
      | some l => indent l
      | none => instead) := by
  rw [entryIndentAt]
  split
  · next l _ => exact indentAt_eq l
  · rfl

namespace Mapping

theorem isPrefixOf_slashes {c : Char} {t : Text} :
    List.isPrefixOf "//".toList (c :: t) = true ↔ c = '/' ∧ t.head? = some '/' := by
  change List.isPrefixOf ['/', '/'] (c :: t) = true ↔ _
  cases t with
  | nil => simp
  | cons d t => simp [@eq_comm _ '/']

theorem codeAt_cons {quote : Option Char} {escaped : Bool} {t : Text}
    (h : ∀ u, codeAt (u ++ t) quote escaped (Text.bytes u) t = pure (u ++ codeFrom quote escaped t))
    (u : Text) (c : Char) : codeAt (u ++ c :: t) quote escaped (Text.bytes u + c.utf8Size) t =
      pure (u ++ c :: codeFrom quote escaped t) := by
  have hu := h (u ++ [c])
  rwa [Text.bytes_append, List.append_assoc, List.append_assoc] at hu

theorem codeAt_eq (quote : Option Char) (escaped : Bool) (u t : Text) :
    codeAt (u ++ t) quote escaped (Text.bytes u) t = pure (u ++ codeFrom quote escaped t) := by
  fun_induction codeFrom quote escaped t generalizing u with
  | case1 quote escaped =>
      rw [codeAt, List.append_nil]
  | case2 c t q ih =>
      rw [codeAt, codeAt_cons ih, if_pos rfl]
  | case3 escaped t q hescaped ih =>
      rw [codeAt, if_neg hescaped, if_pos rfl, codeAt_cons ih]
  | case4 escaped t q hescaped hslash ih =>
      rw [codeAt, if_neg hescaped, if_neg hslash, if_pos rfl, codeAt_cons ih]
  | case5 escaped c t q hescaped hslash hclose ih =>
      rw [codeAt, if_neg hescaped, if_neg hslash, if_neg hclose, codeAt_cons ih]
  | case6 escaped c t hopen ih =>
      rw [codeAt, if_pos hopen, codeAt_cons ih]
  | case7 escaped c t hopen hcomment =>
      rw [codeAt, if_neg hopen, Text.between_end, pure_bind, if_pos (isPrefixOf_slashes.2 hcomment),
        Text.between_zero, List.append_nil]
  | case8 escaped c t hopen hcomment ih =>
      rw [codeAt, if_neg hopen, Text.between_end, pure_bind,
        if_neg (mt isPrefixOf_slashes.1 hcomment), codeAt_cons ih]

theorem isEmpty_trimStart (t : Text) : (Text.trimStart t).isEmpty = Text.isBlankText t := by
  rw [Bool.eq_iff_iff, List.isEmpty_iff, Text.isBlankText, List.all_eq_true]
  exact List.dropWhile_eq_nil_iff

theorem codeEndAt_append {above line : Text} (habove : Text.beginsLine above.getLast? = true)
    (hline : '\n' ∉ line) (v : Text) :
    codeEndAt (above ++ line ++ v) (Text.bytes (above ++ line)) =
      if Text.isBlankText (Text.trimEnd (code line)) then
        if Text.bytes above = 0 then pure none
        else codeEndAt (above ++ line ++ v) (Text.bytes above - 1)
      else pure (some (Text.bytes above + Text.bytes (Text.trimEnd (code line)))) := by
  have hcode : codeAt line none false 0 line = pure (code line) := codeAt_eq none false [] line
  rw [codeEndAt]
  split
  · next h =>
      rw [Text.lineStartAt_append habove hline] at h
      cases h
  · next start h =>
      rw [Text.lineStartAt_append habove hline] at h
      cases h
      rw [Text.between_append, pure_bind, hcode, pure_bind]
      dsimp only
      rw [isEmpty_trimStart]
      cases Text.isBlankText (Text.trimEnd (code line)) with
      | true => rfl
      | false => rfl

theorem codeEndAt_intercalate {lines : List Text} (hlines : ∀ l ∈ lines, '\n' ∉ l)
    (hne : lines ≠ []) (v : Text) :
    codeEndAt (List.intercalate "\n" lines.reverse ++ v)
        (Text.bytes (List.intercalate "\n" lines.reverse)) =
      pure ((upToCode? lines).map Text.bytes) := by
  induction lines generalizing v with
  | nil => exact absurd rfl hne
  | cons line earlier ih =>
      have hline := hlines line List.mem_cons_self
      have hjoin : ∀ x, List.intercalate "\n" (earlier.reverse ++ [x]) =
          List.intercalate "\n" (earlier.reverse ++ [[]]) ++ x :=
        fun x => Text.intercalate_append_singleton earlier.reverse [] x
      rw [List.reverse_cons, upToCode?, hjoin]
      simp only [hjoin (Text.trimEnd _)]
      cases earlier with
      | nil =>
          rw [List.reverse_nil, List.nil_append, List.intercalate_singleton]
          change codeEndAt ([] ++ line ++ v) (Text.bytes ([] ++ line)) = _
          rw [codeEndAt_append rfl hline]
          split
          · rfl
          · simp
      | cons next earlier =>
          have hupper : (next :: earlier).reverse ≠ [] := by simp
          rw [Text.intercalate_append_line _ hupper,
            codeEndAt_append (by simp [Text.beginsLine]) hline,
            Text.IsSign.bytes_concat (by decide), if_neg (Nat.succ_ne_zero _), Nat.add_sub_cancel]
          have hrest := ih (fun l hl => hlines l (List.mem_cons_of_mem line hl)) (by simp)
            ('\n' :: line ++ v)
          simp only [List.append_assoc, List.cons_append, List.nil_append] at hrest ⊢
          rw [hrest]
          split
          · rfl
          · rw [Option.map_some, Text.IsSign.bytes_append (by decide)]

theorem codeEndAt_eq (body : Text) : codeEndAt body (Text.bytes body) =
    pure ((upToCode? (List.splitOn '\n' body).reverse).map Text.bytes) := by
  have hlines : ∀ l ∈ (List.splitOn '\n' body).reverse, '\n' ∉ l := fun l hl =>
    Text.not_mem_of_mem_splitOn (List.mem_reverse.1 hl)
  have hne : (List.splitOn '\n' body).reverse ≠ [] :=
    mt List.reverse_eq_nil_iff.1 (List.splitOn_ne_nil '\n' body)
  have h := codeEndAt_intercalate hlines hne []
  rwa [List.reverse_reverse, show "\n".toList = ['\n'] from rfl, List.intercalate_splitOn,
    List.append_nil] at h

theorem commaEditAt?_eq (head body : Text) :
    commaEditAt? body (Text.bytes head) = pure (commaEdit? head body) := by
  rw [commaEditAt?, codeEndAt_eq, pure_bind, commaEdit?]
  cases hcode : upToCode? (List.splitOn '\n' body).reverse with
  | none => rfl
  | some entries =>
      obtain ⟨rest, hbody, -⟩ := upToCode?_split hcode
      rw [List.reverse_reverse, show "\n".toList = ['\n'] from rfl,
        List.intercalate_splitOn] at hbody
      have hentries := Text.between_zero entries rest
      rw [← hbody] at hentries
      simp only [Option.map_some, hentries, pure_bind, Option.bind_eq_bind, Option.bind_some]
      rw [Edit.insert, Text.bytes_append]
      rfl

theorem takesLineAt_eq (close : Cut) (body : Text) :
    takesLineAt close.whole close.offset body =
      pure (decide ('\n' ∈ body ∧ close.startsLine = true)) := by
  rw [takesLineAt]
  split
  · next hline => simp [Text.startsLineAt_offset, hline]
  · next hline => simp [hline]

theorem entryEditAt_eq (close : Cut) (body entry : Text) :
    entryEditAt close.whole close.offset body entry = pure (entryEdit close body entry) := by
  rw [entryEditAt, entryEdit, takesLineAt_eq, pure_bind]
  split
  · next h =>
      rw [if_pos (of_decide_eq_true h), Text.lineIndentAt_offset, pure_bind, Text.entryIndentAt_eq,
        pure_bind, Text.lineStartAt_offset]
      rfl
  · next h =>
      rw [if_neg fun hline => h (decide_eq_true hline)]
      rfl

theorem exists_body (above : Text) : ∃ head, above = head ++ (Text.afterLast? "\x7b" above).getD [] ∧
    min ((Text.lastOffset? (· == '{') above).getD (Text.bytes above) + 1) (Text.bytes above) =
      Text.bytes head := by
  rcases Text.exists_last (· == '{') above with hnone | ⟨head, c, body, rfl, hc, hbody⟩
  · have hopen : '{' ∉ above := fun hmem => absurd (hnone _ hmem) (by decide)
    refine ⟨above, ?_, ?_⟩
    · rw [Text.afterLast?_eq_none (c := '{') (by decide) hopen]
      simp
    · rw [Text.lastOffset?_eq_none hnone, Option.getD_none]
      omega
  · obtain rfl : c = '{' := beq_iff_eq.1 hc
    have hopen : '{' ∉ body := fun hmem => absurd (hbody _ hmem) (by decide)
    refine ⟨head ++ ['{'], ?_, ?_⟩
    · rw [afterLast?_opening hopen]
      simp
    · rw [Text.lastOffset?_append rfl hbody, Option.getD_some,
        Text.IsSign.bytes_append (by decide), Text.IsSign.bytes_concat (by decide)]
      omega

theorem editsAt_eq (close : Cut) (entry : Text) :
    editsAt close.whole close.offset entry = pure (edits close entry) := by
  obtain ⟨head, hbefore, hstart⟩ := exists_body close.before
  rw [editsAt, Text.between_before, pure_bind, Cut.offset, hstart, edits]
  generalize (Text.afterLast? "\x7b" close.before).getD [] = body at hbefore ⊢
  have hbody : Text.between close.whole (Text.bytes head) (Text.bytes close.before) = pure body := by
    rw [Cut.whole, hbefore]
    exact Text.between_append head body close.after
  have hhead : close.before.take (close.before.length - body.length) = head := by
    simp [hbefore]
  dsimp only
  rw [hbody, pure_bind, commaEditAt?_eq, pure_bind, hhead]
  exact congrArg (· >>= _) (entryEditAt_eq close body entry)

end Mapping

namespace Import

theorem renderListAt_eq (list : Text) (entries : List Text) :
    renderListAt list entries = pure (renderList list entries) := by
  rw [renderListAt, renderList]
  split
  · dsimp only
    rw [Text.entryIndentAt_eq, pure_bind]
    rfl
  · rfl

end Import

namespace ImportRequest

variable {r : ImportRequest} {f : Import.Found}

theorem joinAt?_eq (hf : f ∈ Import.statements r.source t) :
    r.joinAt? t f = pure (r.join? t f) := by
  obtain ⟨s, hlist, -, htail, -⟩ := Import.exists_of_mem_statements hf
  obtain ⟨below, hbelow, -⟩ := s.exists_below
  have hstart : Text.bytes t - Text.bytes f.tail = Text.bytes s.head := by
    have hsize := congrArg Text.bytes htail
    rw [Text.bytes_append] at hsize
    omega
  have hslice : Text.between t (Text.bytes s.head) (Text.bytes s.head + Text.bytes s.list) =
      pure s.list := by
    rw [← Text.bytes_append]
    conv in Text.between t => rw [hbelow]
    exact Text.between_append s.head s.list below
  have hhead : (Cut.ofRest t f.tail).before = s.head := by
    conv => lhs; rw [htail, Cut.ofRest_append]
  rw [joinAt?, join?]
  simp only [hstart, hslice, ← hlist, hhead, pure_bind, Import.renderListAt_eq]
  split <;> rfl

theorem exists_byte_of_isQuote {q : Char} (hq : Shape.isQuote q = true) (u v : Text) : ∃ b,
    (Text.utf8 (u ++ q :: v))[Text.bytes u]? = some b ∧ Char.ofNat b.toNat = q := by
  refine ⟨q.toUInt8, ?_⟩
  rw [Text.getElem?_utf8]
  simp only [Shape.isQuote, Bool.or_eq_true, beq_iff_eq] at hq
  rcases hq with rfl | rfl <;> exact ⟨rfl, rfl⟩

theorem quoteStyleAt_eq (t : Text) : quoteStyleAt t = pure (quoteStyle t) := by
  rw [quoteStyleAt, quoteStyle, Anchor.locateAt_eq, pure_bind]
  cases hlocate : Anchor.locate t .firstImport with
  | none => rfl
  | some k =>
      obtain ⟨rfl, -⟩ := Anchor.isJoint_of_firstImport hlocate
      simp only [Option.map_some, Text.between_before, pure_bind, Option.bind_some]
      rcases Text.exists_last Shape.isQuote k.before with hnone | ⟨u, q, v, hk, hq, hv⟩
      · rw [Text.lastOffset?_eq_none hnone, List.find?_eq_none.2 (by simpa using hnone)]
        rfl
      · obtain ⟨b, hbyte, hb⟩ := exists_byte_of_isQuote hq u (v ++ k.after)
        have hfind : k.before.reverse.find? Shape.isQuote = some q := by
          rw [hk, List.reverse_append, List.reverse_cons, List.append_assoc, List.find?_append,
            List.find?_eq_none.2 (by simpa using hv), Option.none_or]
          simp [hq]
        rw [Cut.whole, hfind, hk, Text.lastOffset?_append hq hv, List.append_assoc,
          List.cons_append]
        simp only [hbyte, hb]
        rfl

theorem addStatementAt_eq (r : ImportRequest) (t : Text) :
    r.addStatementAt t = pure (r.addStatement t) := by
  rw [addStatementAt, addStatement, quoteStyleAt_eq, pure_bind, Anchor.locateAt_eq]
  cases hlocate : Anchor.locate t .firstImport with
  | none => rfl
  | some k =>
      obtain ⟨rfl, -⟩ := Anchor.isJoint_of_firstImport hlocate
      simp only [Option.map_some, pure_bind, Text.between_before]
      rfl

theorem planAt?_eq (r : ImportRequest) (t : Text) : r.planAt? t = pure (r.plan? t) := by
  rw [planAt?, plan?]
  cases hfind : (Import.statements r.source t).find? r.mayJoin with
  | none =>
      rw [addStatementAt_eq]
      rfl
  | some f => exact joinAt?_eq (List.mem_of_find?_eq_some hfind)

end ImportRequest

namespace Insertion

variable (i : Insertion)

theorem placeAt?_eq (t : Text) :
    i.placeAt? t = pure ((i.place? t).map fun p => (p.1, p.2.offset)) := by
  have hlocated : ∀ a : Anchor, ((a.locate t).map Cut.offset).map (fun n => (a, n)) =
      ((a.locate t).map fun k => (a, k)).map fun p => (p.1, p.2.offset) := fun a => by
    rw [Option.map_map, Option.map_map]
    rfl
  rw [placeAt?, place?]
  simp only [Anchor.locateAt_eq, pure_bind, List.findSomeM?_pure, hlocated, Option.map_or,
    List.map_findSome?, Function.comp_def]
  cases i.kind.anchors.findSome? _ with
  | some place => rfl
  | none => cases i.kind.fallback? <;> rfl

theorem blockEdit_eq (k : Cut) :
    [Edit.insertAt k.offset
      (if k.offset = Text.bytes k.whole then i.appended k.whole else i.block ++ "\n")] =
    if k.after.isEmpty then [.insert k.before (i.appended k.before)]
    else [.insert k.before (i.block ++ "\n")] := by
  have hend : k.offset = Text.bytes k.whole ↔ k.after.isEmpty = true := by
    rw [Cut.offset, Cut.whole, Text.bytes_append, List.isEmpty_iff, ← Text.bytes_eq_zero]
    omega
  simp only [hend]
  split
  · next hafter =>
      rw [Cut.whole, List.isEmpty_iff.1 hafter, List.append_nil]
      rfl
  · rfl

theorem fragmentEditsAt_eq (k : Cut) :
    i.fragmentEditsAt k.whole k.offset = pure (i.fragmentEdits k) := by
  unfold fragmentEditsAt fragmentEdits
  cases i.kind with
  | bundle => exact Mapping.editsAt_eq k i.fragment
  | shard => rfl
  | routes | schemas => exact congrArg pure (i.blockEdit_eq k)

/-- Every plan is made without slicing the text within a character. -/
theorem planAt_eq (t : Text) : i.planAt t = .ok (i.plan t) := by
  rw [planAt, plan]
  split
  · rfl
  rw [placeAt?_eq, pure_bind]
  cases hplace : i.place? t with
  | none => rfl
  | some p =>
      obtain ⟨anchor, k⟩ := p
      have hwhole := (Anchor.isJoint_of_locate (exists_of_place? hplace).1).1
      have hfragment := i.fragmentEditsAt_eq k
      rw [hwhole] at hfragment
      simp only [Option.map_some, ImportRequest.planAt?_eq, List.mapM_pure, pure_bind, hfragment]
      rw [List.filterMap_map]
      rfl

end Insertion

end Scaffold
