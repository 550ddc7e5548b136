import Scaffold.Import.Entries
import Scaffold.Proofs.Text.Parts

namespace Scaffold.Import

open Text

structure IsEntry (e : Text) : Prop where
  solid : Solid e
  comma : ',' ∉ e

def pieceEntries (t : Text) : List Text := ((List.splitOn ',' t).map trim).filter (!·.isEmpty)

theorem blank_space : ∀ c ∈ " ".toList, isBlank c = true := List.all_eq_true.1 (by decide)

theorem blank_line : ∀ c ∈ "\n".toList, isBlank c = true := List.all_eq_true.1 (by decide)

theorem pieceEntries_blank {b : Text} (hb : ∀ c ∈ b, isBlank c = true) : pieceEntries b = [] := by
  have hcomma : ',' ∉ b := fun h => absurd (hb _ h) (by decide)
  have htrim : trim b = [] := by
    rw [trim, trimStart, List.dropWhile_eq_nil_iff.2 hb]
    rfl
  simp [pieceEntries, List.splitOn_eq_singleton hcomma, htrim]

theorem not_mem_append_of_blank {a e : Text} (ha : ∀ c ∈ a, isBlank c = true) (he : ',' ∉ e) :
    ',' ∉ a ++ e := by
  rw [List.mem_append, not_or]
  exact ⟨fun h => absurd (ha _ h) (by decide), he⟩

theorem pieceEntries_cons {a e : Text} (ha : ∀ c ∈ a, isBlank c = true) (he : IsEntry e)
    (t : Text) : pieceEntries (a ++ e ++ ',' :: t) = e :: pieceEntries t := by
  have htrim := trim_pad ha (b := []) (by simp) he.solid
  rw [List.append_nil] at htrim
  rw [pieceEntries, List.splitOn_append_cons_self_of_not_mem (not_mem_append_of_blank ha he.comma),
    List.map_cons, htrim,
    List.filter_cons_of_pos (by simpa using he.solid.ne_nil), pieceEntries]

theorem pieceEntries_last {a e b : Text} (ha : ∀ c ∈ a, isBlank c = true)
    (hb : ∀ c ∈ b, isBlank c = true) (he : IsEntry e) : pieceEntries (a ++ e ++ b) = [e] := by
  have hcomma : ',' ∉ a ++ e ++ b := by
    rw [List.mem_append, not_or]
    exact ⟨not_mem_append_of_blank ha he.comma, fun h => absurd (hb _ h) (by decide)⟩
  rw [pieceEntries, List.splitOn_eq_singleton hcomma, List.map_singleton, trim_pad ha hb he.solid,
    List.filter_cons_of_pos (by simpa using he.solid.ne_nil), List.filter_nil]

theorem pieceEntries_row {es : List Text} (hes : ∀ e ∈ es, IsEntry e) :
    pieceEntries (' ' :: List.intercalate ", " es ++ " ".toList) = es := by
  induction es with
  | nil => exact pieceEntries_blank (List.all_eq_true.1 (by decide))
  | cons e es ih =>
      have he := hes e (by simp)
      cases es with
      | nil =>
          rw [List.intercalate_singleton]
          exact pieceEntries_last blank_space blank_space he
      | cons f es =>
          have hrest := ih (fun g hg => hes g (by simp [hg]))
          have hsplit : ' ' :: List.intercalate ", " (e :: f :: es) ++ " ".toList =
              " ".toList ++ e ++ ',' :: (' ' :: List.intercalate ", " (f :: es) ++ " ".toList) := by
            rw [List.intercalate_cons_cons]
            simp
          rw [hsplit, pieceEntries_cons blank_space he, hrest]

theorem pieceEntries_column {indent : Text} (hindent : ∀ c ∈ indent, isBlank c = true)
    {es : List Text} (hes : ∀ e ∈ es, IsEntry e) :
    pieceEntries ('\n' :: es.flatMap fun e => indent ++ e ++ ",\n") = es := by
  induction es with
  | nil =>
      rw [List.flatMap_nil]
      exact pieceEntries_blank blank_line
  | cons e es ih =>
      have hblank : ∀ c ∈ '\n' :: indent, isBlank c = true := by
        intro c hc
        rcases List.mem_cons.1 hc with rfl | hc
        · decide
        · exact hindent c hc
      have hrest := ih (fun g hg => hes g (by simp [hg]))
      have hsplit : ('\n' :: (e :: es).flatMap fun e => indent ++ e ++ ",\n") =
          '\n' :: indent ++ e ++ ',' :: ('\n' :: es.flatMap fun e => indent ++ e ++ ",\n") := by
        simp
      rw [hsplit, pieceEntries_cons hblank (hes e (by simp)), hrest]

def inner (list : Text) : Text := dropEndWhile (· == '}') (list.dropWhile (· == '{'))

theorem entries_eq (list : Text) : entries list = pieceEntries (inner list) := rfl

theorem inner_braced {x : Text} (hhead : ∃ c, x.head? = some c ∧ (c == '{') = false)
    (hlast : ∃ c, x.getLast? = some c ∧ (c == '}') = false) :
    inner ('{' :: x ++ ['}']) = x := by
  have hstart : ('{' :: x ++ ['}']).dropWhile (· == '{') = x ++ ['}'] := by
    rw [List.cons_append, List.dropWhile_cons_of_pos (by decide), dropWhile_append_of_head hhead]
  rw [inner, hstart, dropEndWhile_append_of_all (by simp), dropEndWhile_of_last hlast]

theorem entryIndent_blank (list : Text) : ∀ c ∈ entryIndent list, isBlank c = true := by
  unfold entryIndent
  simp only
  split
  · intro c hc
    exact List.mem_takeWhile_imp hc
  · exact List.all_eq_true.1 (by decide)

theorem getLast?_column (indent : Text) (es : List Text) :
    ('\n' :: es.flatMap fun e => indent ++ e ++ ",\n").getLast? = some '\n' := by
  induction es with
  | nil => rfl
  | cons e es ih =>
      have hsplit : ('\n' :: (e :: es).flatMap fun e => indent ++ e ++ ",\n") =
          ('\n' :: indent ++ e ++ [',']) ++ '\n' :: es.flatMap fun e => indent ++ e ++ ",\n" := by
        simp
      rw [hsplit, List.getLast?_append, ih, Option.some_or]

theorem inner_renderList (list : Text) (es : List Text) : inner (renderList list es) =
    if '\n' ∈ list then '\n' :: es.flatMap fun e => entryIndent list ++ e ++ ",\n"
    else ' ' :: List.intercalate ", " es ++ " ".toList := by
  unfold renderList
  split
  · exact inner_braced ⟨'\n', rfl, rfl⟩ ⟨'\n', getLast?_column (entryIndent list) es, rfl⟩
  · have hbraced : inner ('{' :: (' ' :: List.intercalate ", " es ++ " ".toList) ++ ['}']) =
        ' ' :: List.intercalate ", " es ++ " ".toList :=
      inner_braced ⟨' ', rfl, rfl⟩ ⟨' ', List.getLast?_concat, rfl⟩
    simpa using hbraced

theorem entries_renderList (list : Text) {es : List Text} (hes : ∀ e ∈ es, IsEntry e) :
    entries (renderList list es) = es := by
  rw [entries_eq, inner_renderList]
  split
  · exact pieceEntries_column (entryIndent_blank list) hes
  · exact pieceEntries_row hes

theorem isEntry_of_mem_entries {list e : Text} (he : e ∈ entries list) : IsEntry e := by
  obtain ⟨he, hne⟩ := List.mem_filter.1 he
  obtain ⟨p, hp, rfl⟩ := List.mem_map.1 he
  refine ⟨solid_trim (by simpa using hne), fun hcomma => ?_⟩
  exact not_mem_of_mem_splitOn hp ((infix_trim p).subset hcomma)

theorem exists_mem_entries {list m : Text} (hm : m <:+: list) (hsolid : Solid m)
    (hopen : '{' ∉ m) (hclose : '}' ∉ m) (hcomma : ',' ∉ m) : ∃ e ∈ entries list, m <:+: e := by
  obtain ⟨c, hc, -⟩ := hsolid.head
  obtain ⟨d, hd, -⟩ := hsolid.last
  have hc' : (c == '{') = false :=
    beq_eq_false_iff_ne.2 fun h => hopen (h ▸ List.mem_of_mem_head? hc)
  have hd' : (d == '}') = false :=
    beq_eq_false_iff_ne.2 fun h => hclose (h ▸ List.mem_of_mem_getLast? hd)
  have hinner : m <:+: dropEndWhile (· == '}') (list.dropWhile (· == '{')) :=
    isInfix_dropEndWhile (isInfix_dropWhile hm ⟨c, hc, hc'⟩) ⟨d, hd, hd'⟩
  obtain ⟨p, hp, hmp⟩ := exists_mem_splitOn hinner hcomma
  have hmt := isInfix_trim hmp hsolid
  refine ⟨trim p, List.mem_filter.2 ⟨List.mem_map_of_mem hp, ?_⟩, hmt⟩
  have hne : trim p ≠ [] := fun h => hsolid.ne_nil (List.infix_nil.1 (h ▸ hmt))
  simpa using hne

theorem isInfix_renderList {list m : Text} {es : List Text} (hm : ∃ e ∈ es, m <:+: e) :
    m <:+: renderList list es := by
  obtain ⟨e, he, hme⟩ := hm
  unfold renderList
  split
  · have hline : e <:+: entryIndent list ++ e ++ ",\n" := List.infix_append _ _ _
    have hlines := isInfix_flatMap (f := fun e => entryIndent list ++ e ++ ",\n".toList) he
    exact hme.trans (hline.trans (hlines.trans (List.infix_append _ _ _)))
  · exact hme.trans ((isInfix_intercalate he).trans (List.infix_append _ _ _))

end Scaffold.Import
