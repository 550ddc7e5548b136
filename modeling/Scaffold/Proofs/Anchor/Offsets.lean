import Scaffold.Proofs.Anchor.Places
import Scaffold.Proofs.Text.Utf8
import Scaffold.Text.Search

namespace Scaffold.Brace

def literalEnd? (bs : List UInt8) (quote : UInt8) (i : Nat) : Option Nat :=
  if _h : i < bs.length then
    if bs[i] = '\\'.toUInt8 then literalEnd? bs quote (i + 2)
    else if bs[i] = '\n'.toUInt8 ∧ quote ≠ '\x60'.toUInt8 then none
    else if bs[i] = quote then some i
    else literalEnd? bs quote (i + 1)
  else none
termination_by bs.length - i

theorem le_of_literalEnd? {bs : List UInt8} {quote : UInt8} {i j : Nat}
    (h : literalEnd? bs quote i = some j) : i ≤ j := by
  fun_induction literalEnd? bs quote i with
  | case1 _ _ _ ih => have := ih h; omega
  | case2 => cases h
  | case3 => cases h; exact Nat.le_refl _
  | case4 _ _ _ _ _ ih => have := ih h; omega
  | case5 => cases h

def find (pattern t : Text) (i : Nat) : Except Nat (Option Nat) :=
  match Cut.at? t i with
  | none => .error i
  | some k => .ok ((Text.firstCut? (fun _ r => pattern.isPrefixOf r) none k.after).map Cut.offset)

/-- The offset of the brace that closes the outermost of `depth` open braces, from an offset on, or
the offset at which a character would be cut in two. -/
def scan (t : Text) (depth i : Nat) : Except Nat (Option Nat) :=
  if _h : i < (Text.utf8 t).length then
    let b := (Text.utf8 t)[i]
    if b = '{'.toUInt8 then scan t (depth + 1) (i + 1)
    else if b = '}'.toUInt8 then
      if depth = 0 then .ok none
      else if depth = 1 then .ok (some i)
      else scan t (depth - 1) (i + 1)
    else if b = '\''.toUInt8 ∨ b = '"'.toUInt8 ∨ b = '\x60'.toUInt8 then
      match _hj : literalEnd? (Text.utf8 t) b (i + 1) with
      | none => .ok none
      | some j => scan t depth (j + 1)
    else if b = '/'.toUInt8 ∧ (Text.utf8 t)[i + 1]? = some '/'.toUInt8 then
      match find ['\n'] t i with
      | .error stray => .error stray
      | .ok none => scan t depth ((Text.utf8 t).length + 1)
      | .ok (some n) => scan t depth (i + n + 1)
    else if b = '/'.toUInt8 ∧ (Text.utf8 t)[i + 1]? = some '*'.toUInt8 then
      match find ['*', '/'] t (i + 2) with
      | .error stray => .error stray
      | .ok none => .ok none
      | .ok (some n) => scan t depth (i + 2 + n + 1 + 1)
    else scan t depth (i + 1)
  else .ok none
termination_by (Text.utf8 t).length - i
decreasing_by
  all_goals try omega
  have := le_of_literalEnd? _hj
  omega

variable {bs : List UInt8} {b quote : UInt8} {i depth : Nat} {q : Char} {t u v w : Text}

theorem literalEnd?_of_byte (hb : bs[i]? = some b) : literalEnd? bs quote i =
    if b = '\\'.toUInt8 then literalEnd? bs quote (i + 2)
    else if b = '\n'.toUInt8 ∧ quote ≠ '\x60'.toUInt8 then none
    else if b = quote then some i
    else literalEnd? bs quote (i + 1) := by
  obtain ⟨hi, rfl⟩ := List.getElem?_eq_some_iff.1 hb
  rw [literalEnd?, dif_pos hi]

theorem literalEnd?_of_length_le (h : bs.length ≤ i) : literalEnd? bs quote i = none := by
  rw [literalEnd?, dif_neg (Nat.not_lt.2 h)]

theorem literalEnd?_skip (hq : Text.IsSign q) (u : Text) (c : Char) (v : Text) :
    literalEnd? (Text.utf8 (u ++ c :: v)) q.toUInt8 (Text.bytes u + 1) =
      literalEnd? (Text.utf8 (u ++ c :: v)) q.toUInt8 (Text.bytes (u ++ [c])) := by
  apply Text.skip_character
  intro i b hb hle
  rw [literalEnd?_of_byte hb, if_neg (Text.IsSign.ne_of_le (by decide) hle),
    if_neg fun h => Text.IsSign.ne_of_le (by decide) hle h.1, if_neg (hq.ne_of_le hle)]

theorem literalEnd?_eq (hq : Text.IsSign q) (u v : Text) :
    literalEnd? (Text.utf8 (u ++ v)) q.toUInt8 (Text.bytes u) =
      (afterLiteral? q v).map fun r => Text.bytes (u ++ v) - (Text.bytes r + 1) := by
  fun_induction afterLiteral? q v generalizing u with
  | case1 => rw [literalEnd?_of_length_le (by simp)]; rfl
  | case2 =>
      obtain ⟨b, hb, hsign⟩ := Text.exists_byte u '\\' []
      rw [literalEnd?_of_byte hb, if_pos ((hsign _ (by decide)).2 rfl), literalEnd?_of_length_le]
      · rfl
      · rw [Text.length_utf8, Text.IsSign.bytes_concat (by decide)]
        omega
  | case3 c t ih =>
      obtain ⟨b, hb, hsign⟩ := Text.exists_byte u '\\' (c :: t)
      have hskip := literalEnd?_skip hq (u ++ ['\\']) c t
      have hih := ih (u ++ ['\\', c])
      rw [Text.IsSign.bytes_concat (by decide)] at hskip
      simp only [List.append_assoc, List.cons_append, List.nil_append] at hskip hih
      rw [literalEnd?_of_byte hb, if_pos ((hsign _ (by decide)).2 rfl), ← hih, ← hskip]
  | case4 c t hescape hline =>
      obtain ⟨b, hb, hsign⟩ := Text.exists_byte u c t
      rw [literalEnd?_of_byte hb, if_neg (mt (hsign _ (by decide)).1 hescape),
        if_pos ⟨(hsign _ (by decide)).2 hline.1, mt (hq.toUInt8_inj (by decide)).1 hline.2⟩]
      rfl
  | case5 t hescape hline =>
      obtain ⟨b, hb, hsign⟩ := Text.exists_byte u q t
      rw [literalEnd?_of_byte hb, if_neg (mt (hsign _ (by decide)).1 hescape), if_neg,
        if_pos ((hsign _ hq).2 rfl), Option.map_some, hq.bytes_append]
      · congr 1
        omega
      · rw [hsign _ (by decide), ne_eq, hq.toUInt8_inj (by decide)]
        exact hline
  | case6 c t hescape hline hclose ih =>
      obtain ⟨b, hb, hsign⟩ := Text.exists_byte u c t
      have hih := ih (u ++ [c])
      rw [List.append_assoc, List.singleton_append] at hih
      rw [literalEnd?_of_byte hb, if_neg (mt (hsign _ (by decide)).1 hescape), if_neg,
        if_neg (mt (hsign _ hq).1 hclose), literalEnd?_skip hq, hih]
      rw [hsign _ (by decide), ne_eq, hq.toUInt8_inj (by decide)]
      exact hline

theorem find_eq (pattern u v : Text) : find pattern (u ++ v) (Text.bytes u) =
    .ok ((Text.firstCut? (fun _ r => pattern.isPrefixOf r) none v).map Cut.offset) := by
  have h := Cut.at?_offset ⟨u, v⟩
  rw [Cut.whole, Cut.offset] at h
  rw [find, h]

theorem firstCut?_line (prev : Option Char) (t : Text) :
    Text.firstCut? (fun _ r => ['\n'].isPrefixOf r) prev t =
      if lineEnd t = [] then none else some ⟨t.takeWhile (· != '\n'), lineEnd t⟩ := by
  induction t generalizing prev with
  | nil => rfl
  | cons c t ih =>
      by_cases hc : c = '\n'
      · subst hc
        rfl
      · rw [Text.firstCut?, ih, if_neg (by simp [Ne.symm hc])]
        have hend : lineEnd (c :: t) = lineEnd t := by simp [lineEnd, hc]
        rw [hend]
        split <;> simp [hc]

theorem bytes_commentEnd (t : Text) : Text.bytes ('*' :: '/' :: t) = Text.bytes t + 2 := by
  change 1 + (1 + Text.bytes t) = _
  omega

theorem bytes_of_afterComment? (h : afterComment? t = some u) :
    Text.bytes u + 2 ≤ Text.bytes t := by
  fun_induction afterComment? t with
  | case1 => cases h
  | case2 c t hend =>
      obtain ⟨rfl, hslash⟩ := hend
      obtain ⟨v, rfl⟩ := List.head?_eq_some_iff.1 hslash
      cases h
      exact Nat.le_of_eq (bytes_commentEnd v).symm
  | case3 c t hend ih =>
      have := ih h
      rw [Text.bytes_cons]
      omega

theorem firstCut?_comment (prev : Option Char) (t : Text) :
    (Text.firstCut? (fun _ r => ['*', '/'].isPrefixOf r) prev t).map Cut.offset =
      (afterComment? t).map fun r => Text.bytes t - (Text.bytes r + 2) := by
  fun_induction afterComment? t generalizing prev with
  | case1 => rfl
  | case2 c t hend =>
      obtain ⟨rfl, hslash⟩ := hend
      obtain ⟨v, rfl⟩ := List.head?_eq_some_iff.1 hslash
      rw [Option.map_some, bytes_commentEnd]
      change some 0 = some (Text.bytes v + 2 - (Text.bytes v + 2))
      rw [Nat.sub_self]
  | case3 c t hend ih =>
      rw [Text.firstCut?, if_neg, Option.map_map]
      · change Option.map ((c.utf8Size + ·) ∘ Cut.offset) _ = _
        rw [← Option.map_map, ih (some c), Option.map_map]
        apply Option.map_congr
        intro r hr
        have := bytes_of_afterComment? hr
        simp only [Function.comp, Text.bytes_cons]
        omega
      · intro h
        obtain ⟨v, hv⟩ := List.isPrefixOf_iff_prefix.1 h
        obtain ⟨rfl, rfl⟩ := List.cons.inj hv
        exact hend ⟨rfl, rfl⟩

theorem find_line (u v : Text) : find ['\n'] (u ++ '/' :: v) (Text.bytes u) =
    .ok (if lineEnd v = [] then none
      else some (Text.bytes ('/' :: v) - Text.bytes (lineEnd v))) := by
  rw [find_eq, firstCut?_line]
  have hend : lineEnd ('/' :: v) = lineEnd v := rfl
  have hsum : Text.bytes (('/' :: v).takeWhile (· != '\n')) + Text.bytes (lineEnd v) =
      Text.bytes ('/' :: v) := by
    rw [← hend, ← Text.bytes_append, lineEnd, List.takeWhile_append_dropWhile]
  rw [hend, ← hsum, Nat.add_sub_cancel]
  split <;> rfl

theorem find_comment (u v : Text) :
    find ['*', '/'] (u ++ '/' :: '*' :: v) (Text.bytes u + 2) =
      .ok ((afterComment? v).map fun r => Text.bytes v - (Text.bytes r + 2)) := by
  have h := find_eq ['*', '/'] (u ++ ['/', '*']) v
  have hsize : Text.bytes (u ++ ['/', '*']) = Text.bytes u + 2 := Text.bytes_append _ _
  rw [firstCut?_comment, hsize, List.append_assoc] at h
  exact h

theorem isLiteralQuote_iff {c : Char} :
    Shape.isLiteralQuote c = true ↔ c = '\'' ∨ c = '"' ∨ c = '\x60' := by
  simp [Shape.isLiteralQuote, Shape.isQuote, or_assoc]

theorem isSign_of_isLiteralQuote {c : Char} (h : Shape.isLiteralQuote c = true) :
    Text.IsSign c := by
  rcases isLiteralQuote_iff.1 h with rfl | rfl | rfl <;> decide

theorem scan_of_length_le (h : (Text.utf8 t).length ≤ i) : scan t depth i = .ok none := by
  rw [scan, dif_neg (Nat.not_lt.2 h)]

theorem scan_of_le (hb : (Text.utf8 t)[i]? = some b) (hle : 128 ≤ b.toNat) :
    scan t depth i = scan t depth (i + 1) := by
  obtain ⟨hi, rfl⟩ := List.getElem?_eq_some_iff.1 hb
  have hne : ∀ a, Text.IsSign a → (Text.utf8 t)[i] ≠ a.toUInt8 := fun a ha => ha.ne_of_le hle
  rw [scan, dif_pos hi, if_neg (hne _ (by decide)), if_neg (hne _ (by decide)), if_neg,
    if_neg (fun h => hne _ (by decide) h.1), if_neg (fun h => hne _ (by decide) h.1)]
  rintro (h | h | h) <;> exact hne _ (by decide) h

theorem getElem_sign {c : Char} (hc : Text.IsSign c) (u v : Text) :
    ∃ h : Text.bytes u < (Text.utf8 (u ++ c :: v)).length,
      (Text.utf8 (u ++ c :: v))[Text.bytes u] = c.toUInt8 :=
  List.getElem?_eq_some_iff.1 (by
    rw [Text.getElem?_utf8, Text.head?_utf8_eq_some_iff hc, List.head?_cons])

theorem getElem?_next {a c : Char} (hc : Text.IsSign c) (ha : Text.IsSign a) (u v : Text) :
    (Text.utf8 (u ++ c :: v))[Text.bytes u + 1]? = some a.toUInt8 ↔ v.head? = some a := by
  have h := Text.getElem?_utf8 (u ++ [c]) v
  rw [hc.bytes_concat, List.append_assoc, List.singleton_append] at h
  rw [h, Text.head?_utf8_eq_some_iff ha]

theorem scan_literal {c : Char} (hc : Shape.isLiteralQuote c = true) (u v : Text) (depth : Nat) :
    scan (u ++ c :: v) depth (Text.bytes u) =
      match afterLiteral? c v with
      | none => .ok none
      | some r => scan (u ++ c :: v) depth (Text.bytes (u ++ c :: v) - Text.bytes r) := by
  have hsign := isSign_of_isLiteralQuote hc
  obtain ⟨hi, hbi⟩ := getElem_sign hsign u v
  have hend := literalEnd?_eq hsign (u ++ [c]) v
  rw [hsign.bytes_concat, List.append_assoc, List.singleton_append] at hend
  rw [scan, dif_pos hi, hbi]
  dsimp only
  rw [if_neg, if_neg, if_pos]
  · cases hafter : afterLiteral? c v with
    | none =>
        rw [hafter, Option.map_none] at hend
        split
        · rfl
        · next hj => rw [hj] at hend; cases hend
    | some r =>
        obtain ⟨w, rfl⟩ := suffix_of_afterLiteral? hafter
        rw [hafter, Option.map_some] at hend
        split
        · next hj => rw [hj] at hend; cases hend
        · next j hj =>
            rw [hj, Option.some_inj] at hend
            rw [hsign.bytes_append, Text.bytes_append] at hend ⊢
            congr 1
            omega
  all_goals rcases isLiteralQuote_iff.1 hc with rfl | rfl | rfl <;> decide

theorem scan_lineComment (u : Text) {v : Text} (hv : v.head? = some '/') (depth : Nat) :
    scan (u ++ '/' :: v) depth (Text.bytes u) = scan (u ++ '/' :: v) depth
      (Text.bytes (u ++ '/' :: v) - Text.bytes ((lineEnd v).drop 1)) := by
  have hslash : Text.IsSign '/' := by decide
  obtain ⟨hi, hbi⟩ := getElem_sign hslash u v
  have hnext := (getElem?_next hslash hslash u v).2 hv
  conv_lhs => rw [scan, dif_pos hi, hbi]
  dsimp only
  rw [if_neg (by decide), if_neg (by decide), if_neg (by decide), if_pos ⟨rfl, hnext⟩, find_line]
  cases hend : lineEnd v with
  | nil =>
      rw [if_pos rfl]
      dsimp only
      rw [scan_of_length_le (Nat.le_succ _), scan_of_length_le (by simp)]
  | cons d r =>
      obtain rfl : d = '\n' := by simpa using Text.head?_dropWhile (congrArg List.head? hend)
      obtain ⟨w, hw⟩ : lineEnd v <:+ v := List.dropWhile_suffix _
      rw [hend] at hw
      rw [if_neg (List.cons_ne_nil _ _), List.drop_one, List.tail_cons, ← hw]
      dsimp only
      have hfeed : '\n'.utf8Size = 1 := rfl
      simp only [Text.bytes_append, Text.bytes_cons, hfeed]
      congr 1
      omega

theorem scan_blockComment (u v : Text) (depth : Nat) :
    scan (u ++ '/' :: '*' :: v) depth (Text.bytes u) =
      match afterComment? v with
      | none => .ok none
      | some r =>
        scan (u ++ '/' :: '*' :: v) depth (Text.bytes (u ++ '/' :: '*' :: v) - Text.bytes r) := by
  have hslash : Text.IsSign '/' := by decide
  have hstar : Text.IsSign '*' := by decide
  obtain ⟨hi, hbi⟩ := getElem_sign hslash u ('*' :: v)
  conv_lhs => rw [scan, dif_pos hi, hbi]
  dsimp only
  rw [if_neg (by decide), if_neg (by decide), if_neg (by decide), if_neg, if_pos, find_comment]
  · cases hafter : afterComment? v with
    | none => rfl
    | some r =>
        have := bytes_of_afterComment? hafter
        rw [Option.map_some, hslash.bytes_append, Text.bytes_cons, hstar]
        dsimp only
        congr 1
        omega
  · exact ⟨rfl, (getElem?_next hslash hstar u _).2 rfl⟩
  · exact fun h => absurd ((getElem?_next hslash hslash u _).1 h.2) (by simp)

theorem scan_character (u : Text) (c : Char) (v : Text) (depth : Nat) :
    scan (u ++ c :: v) depth (Text.bytes u) =
      if c = '{' then scan (u ++ c :: v) (depth + 1) (Text.bytes (u ++ [c]))
      else if c = '}' then
        if depth = 0 then .ok none
        else if depth = 1 then .ok (some (Text.bytes u))
        else scan (u ++ c :: v) (depth - 1) (Text.bytes (u ++ [c]))
      else if Shape.isLiteralQuote c then
        match afterLiteral? c v with
        | none => .ok none
        | some r => scan (u ++ c :: v) depth (Text.bytes (u ++ c :: v) - Text.bytes r)
      else if c = '/' ∧ v.head? = some '/' then
        scan (u ++ c :: v) depth (Text.bytes (u ++ c :: v) - Text.bytes ((lineEnd v).drop 1))
      else if c = '/' ∧ v.head? = some '*' then
        match afterComment? (v.drop 1) with
        | none => .ok none
        | some r => scan (u ++ c :: v) depth (Text.bytes (u ++ c :: v) - Text.bytes r)
      else scan (u ++ c :: v) depth (Text.bytes (u ++ [c])) := by
  by_cases hliteral : Shape.isLiteralQuote c = true
  · rw [if_neg, if_neg, if_pos hliteral, scan_literal hliteral]
    all_goals rcases isLiteralQuote_iff.1 hliteral with rfl | rfl | rfl <;> decide
  by_cases hline : c = '/' ∧ v.head? = some '/'
  · obtain ⟨rfl, hv⟩ := hline
    rw [scan_lineComment u hv, if_neg (by decide), if_neg (by decide), if_neg (by decide),
      if_pos ⟨rfl, hv⟩]
  by_cases hblock : c = '/' ∧ v.head? = some '*'
  · obtain ⟨rfl, hv⟩ := hblock
    obtain ⟨v, rfl⟩ := List.head?_eq_some_iff.1 hv
    rw [scan_blockComment, if_neg (by decide), if_neg (by decide), if_neg (by decide), if_neg hline,
      if_pos ⟨rfl, hv⟩, List.drop_one, List.tail_cons]
  -- Where nothing is skipped, the scanner's questions about bytes are questions about characters.
  obtain ⟨b, hb, hbyte⟩ := Text.exists_byte u c v
  obtain ⟨hi, hbi⟩ := List.getElem?_eq_some_iff.1 hb
  have hquote : ¬(b = '\''.toUInt8 ∨ b = '"'.toUInt8 ∨ b = '\x60'.toUInt8) := by
    rw [hbyte _ (by decide), hbyte _ (by decide), hbyte _ (by decide), ← isLiteralQuote_iff]
    exact hliteral
  have hslash (a : Char) (ha : Text.IsSign a) (h : ¬(c = '/' ∧ v.head? = some a)) :
      ¬(b = '/'.toUInt8 ∧ (Text.utf8 (u ++ c :: v))[Text.bytes u + 1]? = some a.toUInt8) := by
    rw [hbyte _ (by decide)]
    rintro ⟨rfl, hnext⟩
    exact h ⟨rfl, (getElem?_next (by decide) ha u v).1 hnext⟩
  conv_lhs => rw [scan, dif_pos hi, hbi]
  dsimp only
  rw [if_neg hquote, if_neg hliteral, if_neg (hslash _ (by decide) hline), if_neg hline,
    if_neg (hslash _ (by decide) hblock), if_neg hblock]
  by_cases hopen : c = '{'
  · subst hopen
    rw [if_pos ((hbyte _ (by decide)).2 rfl), if_pos rfl, Text.IsSign.bytes_concat (by decide)]
  rw [if_neg (mt (hbyte _ (by decide)).1 hopen), if_neg hopen]
  by_cases hclose : c = '}'
  · subst hclose
    rw [if_pos ((hbyte _ (by decide)).2 rfl), if_pos rfl, Text.IsSign.bytes_concat (by decide)]
  rw [if_neg (mt (hbyte _ (by decide)).1 hclose), if_neg hclose]
  exact Text.skip_character u c v fun _ _ => scan_of_le

theorem exists_start {c : Char} (h : c :: v <:+ w) : ∃ u, w = u ++ c :: v ∧
    Text.bytes w - Text.bytes (c :: v) = Text.bytes u ∧
      Text.bytes (u ++ [c]) = Text.bytes w - Text.bytes v := by
  obtain ⟨u, rfl⟩ := h
  refine ⟨u, rfl, by rw [Text.bytes_append, Nat.add_sub_cancel], ?_⟩
  rw [← List.singleton_append (l := v), ← List.append_assoc, Text.bytes_append _ v,
    Nat.add_sub_cancel]

theorem suffix_of_cons {c : Char} (h : c :: v <:+ w) (hu : u <:+ v) : u <:+ w :=
  hu.trans ((List.suffix_cons c v).trans h)

/-- From any place between two characters on, the scanner comes to the brace to which the reader of
characters comes, and cuts no character in two. -/
theorem scan_eq (h : v <:+ w) : scan w depth (Text.bytes w - Text.bytes v) =
    .ok ((close? depth v).map fun r => Text.bytes w - Text.bytes r) := by
  -- Whatever is skipped on the way, the scanner goes on where a suffix begins.
  fun_induction close? depth v with
  | case1 => exact scan_of_length_le (by simp)
  | case2 depth r ih =>
      obtain ⟨u, hw, hu, hc⟩ := exists_start h
      rw [hu, ← ih (suffix_of_cons h List.suffix_rfl), ← hc, hw, scan_character, if_pos rfl]
  | case3 r hopen =>
      obtain ⟨u, hw, hu, hc⟩ := exists_start h
      rw [hu, hw, scan_character, if_neg hopen, if_pos rfl, if_pos rfl]
      rfl
  | case4 r hopen =>
      obtain ⟨u, hw, hu, hc⟩ := exists_start h
      rw [Option.map_some, hu, hw, scan_character, if_neg hopen, if_pos rfl,
        if_neg Nat.one_ne_zero, if_pos rfl]
  | case5 r depth hopen ih =>
      obtain ⟨u, hw, hu, hc⟩ := exists_start h
      rw [hu, ← ih (suffix_of_cons h List.suffix_rfl), ← hc, hw, scan_character, if_neg hopen,
        if_pos rfl, if_neg (by omega), if_neg (by omega)]
      rfl
  | case6 depth c r hopen hclose hquote hliteral =>
      obtain ⟨u, hw, hu, hc⟩ := exists_start h
      rw [hu, hw, scan_character, if_neg hopen, if_neg hclose, if_pos hquote, hliteral]
      rfl
  | case7 depth c r hopen hclose hquote v hliteral ih =>
      obtain ⟨u, hw, hu, hc⟩ := exists_start h
      have hv : v <:+ r := suffix_of_afterLiteral? hliteral
      rw [hu, ← ih (suffix_of_cons h hv), hw, scan_character, if_neg hopen, if_neg hclose,
        if_pos hquote, hliteral]
  | case8 depth c r hopen hclose hquote hline ih =>
      obtain ⟨u, hw, hu, hc⟩ := exists_start h
      have hend : lineEnd r <:+ w := suffix_of_cons h (List.dropWhile_suffix _)
      rw [← ih hend, hu, hw, scan_character, if_neg hopen, if_neg hclose, if_neg hquote,
        if_pos hline, ← hw]
      cases hfeed : lineEnd r with
      | nil => rfl
      | cons d v =>
          obtain rfl : d = '\n' := by simpa using Text.head?_dropWhile (congrArg List.head? hfeed)
          obtain ⟨u', hw', hu', hc'⟩ := exists_start (hfeed ▸ hend)
          rw [List.drop_one, List.tail_cons, ← hc', hu', hw', scan_character]
          rfl
  | case9 depth c r hopen hclose hquote hline hblock hcomment =>
      obtain ⟨u, hw, hu, hc⟩ := exists_start h
      rw [hu, hw, scan_character, if_neg hopen, if_neg hclose, if_neg hquote, if_neg hline,
        if_pos hblock, hcomment]
      rfl
  | case10 depth c r hopen hclose hquote hline hblock v hcomment ih =>
      obtain ⟨u, hw, hu, hc⟩ := exists_start h
      have hv : v <:+ r := (suffix_of_afterComment? hcomment).trans (List.drop_suffix 1 r)
      rw [hu, ← ih (suffix_of_cons h hv), hw, scan_character, if_neg hopen, if_neg hclose,
        if_neg hquote, if_neg hline, if_pos hblock, hcomment]
  | case11 depth c r hopen hclose hquote hline hblock ih =>
      obtain ⟨u, hw, hu, hc⟩ := exists_start h
      rw [hu, ← ih (suffix_of_cons h List.suffix_rfl), ← hc, hw, scan_character, if_neg hopen,
        if_neg hclose, if_neg hquote, if_neg hline, if_neg hblock]

end Scaffold.Brace
