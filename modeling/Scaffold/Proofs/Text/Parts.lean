import Mathlib.Data.List.DropRight
import Scaffold.Text.Blank
import Scaffold.Text.Search

namespace Scaffold.Text

structure Solid (m : Text) : Prop where
  head : ∃ c, m.head? = some c ∧ isBlank c = false
  last : ∃ c, m.getLast? = some c ∧ isBlank c = false

theorem Solid.ne_nil {m : Text} (h : Solid m) : m ≠ [] := by
  obtain ⟨c, hc, -⟩ := h.head
  rintro rfl
  simp at hc

theorem begins_dropEndWhile (p : Char → Bool) (t : Text) : dropEndWhile p t <+: t :=
  List.rdropWhile_prefix p t

theorem dropWhile_append_of_head {p : Char → Bool} {m : Text}
    (h : ∃ c, m.head? = some c ∧ p c = false) (v : Text) : (m ++ v).dropWhile p = m ++ v := by
  obtain ⟨c, hc, hp⟩ := h
  cases m with
  | nil => simp at hc
  | cons d m =>
      obtain rfl : d = c := by simpa using hc
      simp [hp]

theorem isInfix_dropWhile {p : Char → Bool} {m t : Text} (hm : m <:+: t)
    (h : ∃ c, m.head? = some c ∧ p c = false) : m <:+: t.dropWhile p := by
  obtain ⟨u, v, rfl⟩ := hm
  induction u with
  | nil =>
      rw [List.nil_append, dropWhile_append_of_head h]
      exact (List.prefix_append m v).isInfix
  | cons c u ih =>
      by_cases hc : p c = true
      · simpa [hc] using ih
      · rw [List.cons_append, List.cons_append, List.dropWhile_cons_of_neg hc]
        exact ⟨c :: u, v, rfl⟩

theorem isInfix_dropEndWhile {p : Char → Bool} {m t : Text} (hm : m <:+: t)
    (h : ∃ c, m.getLast? = some c ∧ p c = false) : m <:+: dropEndWhile p t := by
  rw [← List.reverse_infix, dropEndWhile, List.reverse_reverse]
  apply isInfix_dropWhile (List.reverse_infix.2 hm)
  simpa using h

theorem isInfix_trim {m t : Text} (hm : m <:+: t) (h : Solid m) : m <:+: trim t :=
  isInfix_dropEndWhile (isInfix_dropWhile hm h.head) h.last

theorem dropEndWhile_append_of_all {p : Char → Bool} {b : Text} (h : ∀ c ∈ b, p c = true)
    (v : Text) : dropEndWhile p (v ++ b) = dropEndWhile p v := by
  rw [dropEndWhile, List.reverse_append, List.dropWhile_append_of_pos (by simpa using h),
    ← dropEndWhile]

theorem dropEndWhile_of_last {p : Char → Bool} {m : Text}
    (h : ∃ c, m.getLast? = some c ∧ p c = false) : dropEndWhile p m = m := by
  have hm := dropWhile_append_of_head (p := p) (m := m.reverse) (by simpa using h) []
  rw [List.append_nil] at hm
  rw [dropEndWhile, hm, List.reverse_reverse]

theorem trim_pad {a e b : Text} (ha : ∀ c ∈ a, isBlank c = true) (hb : ∀ c ∈ b, isBlank c = true)
    (he : Solid e) : trim (a ++ e ++ b) = e := by
  rw [trim, trimStart, List.append_assoc, List.dropWhile_append_of_pos ha,
    dropWhile_append_of_head he.head, trimEnd, dropEndWhile_append_of_all hb,
    dropEndWhile_of_last he.last]

theorem trim_of_solid {e : Text} (he : Solid e) : trim e = e := by
  simpa using trim_pad (a := []) (b := []) (by simp) (by simp) he

theorem head?_dropWhile {p : Char → Bool} {t : Text} {c : Char}
    (h : (t.dropWhile p).head? = some c) : p c = false := by
  have := List.head?_dropWhile_not p t
  rw [h] at this
  simpa using this

theorem getLast?_dropEndWhile {p : Char → Bool} {t : Text} {c : Char}
    (h : (dropEndWhile p t).getLast? = some c) : p c = false := by
  rw [dropEndWhile, List.getLast?_reverse] at h
  exact head?_dropWhile h

theorem solid_trim {t : Text} (h : trim t ≠ []) : Solid (trim t) := by
  have hc := List.head?_eq_some_head h
  have hd := List.getLast?_eq_some_getLast h
  refine ⟨⟨_, hc, ?_⟩, ⟨_, hd, getLast?_dropEndWhile hd⟩⟩
  obtain ⟨w, hw⟩ : trim t <+: trimStart t := begins_dropEndWhile _ _
  have hstart : (trimStart t).head? = some ((trim t).head h) := by
    rw [← hw, List.head?_append, hc, Option.some_or]
  exact head?_dropWhile hstart

theorem infix_trim (t : Text) : trim t <:+: t :=
  (begins_dropEndWhile _ _).isInfix.trans (List.dropWhile_suffix _).isInfix

theorem trimEnd_split (t : Text) : ∃ b, t = trimEnd t ++ b ∧ ∀ c ∈ b, isBlank c = true := by
  refine ⟨(t.reverse.takeWhile isBlank).reverse, ?_, ?_⟩
  · rw [trimEnd, dropEndWhile, ← List.reverse_append, List.takeWhile_append_dropWhile,
      List.reverse_reverse]
  · intro c hc
    exact List.mem_takeWhile_imp (List.mem_reverse.1 hc)

@[simp] theorem splitOn_cons_self (sep : Char) (t : Text) :
    List.splitOn sep (sep :: t) = [] :: List.splitOn sep t :=
  List.splitOn_append_cons_self [] t

theorem not_mem_of_mem_splitOn {sep : Char} {t p : Text} (h : p ∈ List.splitOn sep t) :
    sep ∉ p := by
  induction t generalizing p with
  | nil => simp_all
  | cons c t ih =>
      rw [List.splitOn_cons_eq_if_modifyHead] at h
      split at h
      · rcases List.mem_cons.1 h with rfl | h
        · simp
        · exact ih h
      · next hc =>
          obtain ⟨q, qs, hs⟩ := List.exists_cons_of_ne_nil (List.splitOn_ne_nil sep t)
          rw [hs] at h ih
          rcases List.mem_cons.1 h with rfl | h
          · rintro (_ | ⟨_, hmem⟩)
            · exact hc (beq_self_eq_true sep)
            · exact ih List.mem_cons_self hmem
          · exact ih (List.mem_cons_of_mem q h)

theorem splitOn_append_of_not_mem {sep : Char} {m : Text} (h : sep ∉ m) (v : Text) :
    ∃ p ps, List.splitOn sep v = p :: ps ∧ List.splitOn sep (m ++ v) = (m ++ p) :: ps := by
  induction m with
  | nil =>
      obtain ⟨p, ps, hv⟩ := List.exists_cons_of_ne_nil (List.splitOn_ne_nil sep v)
      exact ⟨p, ps, hv, hv⟩
  | cons c m ih =>
      simp only [List.mem_cons, not_or] at h
      obtain ⟨p, ps, hv, hm⟩ := ih h.2
      have hc : ¬(c == sep) = true := by simpa using Ne.symm h.1
      refine ⟨p, ps, hv, ?_⟩
      rw [List.cons_append, List.splitOn_cons_eq_if_modifyHead, if_neg hc, hm]
      rfl

theorem exists_mem_splitOn {sep : Char} {m t : Text} (hm : m <:+: t) (h : sep ∉ m) :
    ∃ p ∈ List.splitOn sep t, m <:+: p := by
  obtain ⟨u, v, rfl⟩ := hm
  induction u with
  | nil =>
      obtain ⟨p, ps, -, hsplit⟩ := splitOn_append_of_not_mem h v
      exact ⟨m ++ p, by simp [hsplit], (List.prefix_append m p).isInfix⟩
  | cons c u ih =>
      obtain ⟨p, hp, hmp⟩ := ih
      rw [List.cons_append, List.cons_append, List.splitOn_cons_eq_if_modifyHead]
      split
      · exact ⟨p, List.mem_cons_of_mem _ hp, hmp⟩
      · obtain ⟨q, qs, hs⟩ := List.exists_cons_of_ne_nil (List.splitOn_ne_nil sep (u ++ m ++ v))
        rw [hs] at hp ⊢
        rcases List.mem_cons.1 hp with rfl | hp
        · exact ⟨c :: p, List.mem_cons_self, hmp.trans (List.suffix_cons c p).isInfix⟩
        · exact ⟨p, List.mem_cons_of_mem _ hp, hmp⟩

theorem mem_splitOn_of_isInfix {sep : Char} {x t : Text} (hx : sep ∉ x)
    (h : sep :: (x ++ [sep]) <:+: t) : x ∈ List.splitOn sep t := by
  obtain ⟨u, v, rfl⟩ := h
  have hparts : u ++ sep :: (x ++ [sep]) ++ v = u ++ sep :: (x ++ sep :: v) := by simp
  rw [hparts, List.splitOn_append_cons_self, List.splitOn_append_cons_self_of_not_mem hx]
  simp

theorem exists_piece_of_isInfix {sep : Char} {m t : Text} (hm : sep ∉ m) (h : sep :: m <:+: t) :
    ∃ p ∈ List.splitOn sep t, m <+: p := by
  obtain ⟨u, v, rfl⟩ := h
  obtain ⟨p, ps, -, hpieces⟩ := splitOn_append_of_not_mem hm v
  have hparts : u ++ sep :: m ++ v = u ++ sep :: (m ++ v) := by simp
  rw [hparts, List.splitOn_append_cons_self, hpieces]
  exact ⟨m ++ p, by simp, List.prefix_append m p⟩

theorem prefix_of_append_cons {c : Char} {a b r x : Text} (ha : c ∉ a) (h : b ++ c :: x = a ++ r) :
    a <+: b := by
  rcases List.append_eq_append_iff.1 h with ⟨k, hk, hr⟩ | ⟨k, hk, -⟩
  · cases k with
    | nil => exact ⟨[], by rw [hk, List.append_nil, List.append_nil]⟩
    | cons d k =>
        obtain ⟨rfl, -⟩ := List.cons.inj hr
        exact absurd (by simp [hk]) ha
  · exact ⟨k, hk.symm⟩

theorem append_cons_inj {c : Char} {p q a b : Text} (hp : c ∉ p) (hq : c ∉ q)
    (h : p ++ c :: a = q ++ c :: b) : p = q ∧ a = b := by
  induction p generalizing q with
  | nil =>
      cases q with
      | nil => exact ⟨rfl, (List.cons.inj h).2⟩
      | cons d q => exact absurd (List.cons.inj h).1 (List.ne_of_not_mem_cons hq)
  | cons d p ih =>
      cases q with
      | nil => exact absurd (List.cons.inj h).1.symm (List.ne_of_not_mem_cons hp)
      | cons e q =>
          obtain ⟨rfl, hrest⟩ := List.cons.inj h
          obtain ⟨rfl, rfl⟩ := ih (fun h => hp (List.mem_cons_of_mem d h))
            (fun h => hq (List.mem_cons_of_mem d h)) hrest
          exact ⟨rfl, rfl⟩

theorem append_cons_inj_last {c : Char} {p q a b : Text} (ha : c ∉ a) (hb : c ∉ b)
    (h : p ++ c :: a = q ++ c :: b) : p = q ∧ a = b := by
  have hrev := congrArg List.reverse h
  simp only [List.reverse_append, List.reverse_cons, List.append_assoc, List.singleton_append] at hrev
  obtain ⟨hab, hpq⟩ := append_cons_inj (by simpa using ha) (by simpa using hb) hrev
  exact ⟨List.reverse_inj.1 hpq, List.reverse_inj.1 hab⟩

theorem isInfix_intercalate {α : Type} {sep p : List α} {ps : List (List α)} (h : p ∈ ps) :
    p <:+: List.intercalate sep ps := by
  induction ps with
  | nil => simp at h
  | cons q ps ih =>
      cases ps with
      | nil =>
          obtain rfl : p = q := by simpa using h
          exact ⟨[], [], by rw [List.nil_append, List.append_nil, List.intercalate_singleton]⟩
      | cons r ps =>
          rw [List.intercalate_cons_cons]
          rcases List.mem_cons.1 h with rfl | h
          · rw [List.append_assoc]
            exact (List.prefix_append _ _).isInfix
          · exact (ih h).trans (List.suffix_append _ _).isInfix

theorem isInfix_of_mem_splitOn {α : Type} [BEq α] [LawfulBEq α] {sep : α} {t p : List α}
    (h : p ∈ List.splitOn sep t) : p <:+: t := by
  have hpiece : p <:+: List.intercalate [sep] (List.splitOn sep t) := isInfix_intercalate h
  rwa [List.intercalate_splitOn] at hpiece

theorem mem_intercalate {sep : Text} {ps : List Text} {c : Char} (h : c ∈ List.intercalate sep ps) :
    c ∈ sep ∨ ∃ p ∈ ps, c ∈ p := by
  induction ps with
  | nil => cases h
  | cons p ps ih =>
      cases ps with
      | nil => exact .inr ⟨p, by simp, by simpa using h⟩
      | cons q ps =>
          rw [List.intercalate_cons_cons, List.mem_append, List.mem_append] at h
          rcases h with (h | h) | h
          · exact .inr ⟨p, by simp, h⟩
          · exact .inl h
          · exact (ih h).imp_right fun ⟨p, hp, hc⟩ => ⟨p, List.mem_cons_of_mem _ hp, hc⟩

theorem intercalate_concat (sep s : Text) (ss : List Text) :
    List.intercalate sep (ss ++ [s]) = ss.flatMap (· ++ sep) ++ s := by
  induction ss with
  | nil => simp
  | cons q ss ih =>
      cases ss with
      | nil => simp
      | cons r ss =>
          rw [List.cons_append, List.cons_append, List.intercalate_cons_cons, ← List.cons_append,
            ih]
          simp only [List.flatMap_cons, List.append_assoc]

theorem intercalate_append_cons (sep : Text) (as : List Text) (l : Text) (bs : List Text) :
    List.intercalate sep (as ++ l :: bs) =
      List.intercalate sep (as ++ [l]) ++ bs.flatMap (sep ++ ·) := by
  induction bs generalizing as l with
  | nil => simp
  | cons b bs ih =>
      have hstep : List.intercalate sep (as ++ [l] ++ [b]) =
          List.intercalate sep (as ++ [l]) ++ (sep ++ b) := by
        rw [intercalate_concat, intercalate_concat, List.flatMap_append]
        simp
      rw [List.append_cons, ih, hstep, List.flatMap_cons]
      simp

theorem intercalate_append_singleton (lines : List Text) (x y : Text) :
    List.intercalate "\n" (lines ++ [x ++ y]) = List.intercalate "\n" (lines ++ [x]) ++ y := by
  rw [intercalate_concat, intercalate_concat, List.append_assoc]

theorem intercalate_append_line (lines : List Text) (hne : lines ≠ []) (x : Text) :
    List.intercalate "\n" (lines ++ [x]) = List.intercalate "\n" lines ++ '\n' :: x := by
  obtain ⟨above, l, rfl⟩ := (List.eq_nil_or_concat' lines).resolve_left hne
  rw [intercalate_concat, intercalate_concat, List.flatMap_append]
  simp

theorem isInfix_flatMap {α β : Type} {f : α → List β} {a : α} {as : List α} (h : a ∈ as) :
    f a <:+: as.flatMap f := by
  rw [List.flatMap_def]
  exact List.infix_of_mem_flatten (List.mem_map_of_mem h)

end Scaffold.Text
