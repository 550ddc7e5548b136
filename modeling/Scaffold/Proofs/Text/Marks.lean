import Scaffold.Proofs.Text.Ended
import Scaffold.Proofs.Text.Sturdy

namespace Scaffold.Text

/-- A text that begins visibly and that no character at which code is parted parts. -/
structure IsMark (m : Text) : Prop where
  head : ∃ c, m.head? = some c ∧ isBlank c = false
  whole : ∀ c ∈ m, c ∉ breaks

variable {m a b : Text}

theorem isInfix_of_append_sep {sep : Char} (hm : sep ∉ m) (h : m <:+: a ++ sep :: b) :
    m <:+: a ∨ m <:+: b := by
  obtain ⟨p, hp, hmp⟩ := exists_mem_splitOn h hm
  rw [List.splitOn_append_cons_self, List.mem_append] at hp
  exact hp.imp (fun h => hmp.trans (isInfix_of_mem_splitOn h))
    fun h => hmp.trans (isInfix_of_mem_splitOn h)

namespace IsMark

theorem line (h : IsMark m) : '\n' ∉ m := fun hmem => h.whole _ hmem (by decide)

theorem opening (h : IsMark m) : '{' ∉ m := fun hmem => h.whole _ hmem (by decide)

theorem closing (h : IsMark m) : '}' ∉ m := fun hmem => h.whole _ hmem (by decide)

theorem comma (h : IsMark m) : ',' ∉ m := fun hmem => h.whole _ hmem (by decide)

theorem ne_nil (h : IsMark m) : m ≠ [] := by
  rintro rfl
  obtain ⟨c, hc, -⟩ := h.head
  cases hc

theorem of_blank_append (h : IsMark m) (hb : ∀ c ∈ b, isBlank c = true) (hm : m <:+: b ++ a) :
    m <:+: a := by
  have hdrop : m <:+: (b ++ a).dropWhile isBlank := isInfix_dropWhile hm h.head
  rw [List.dropWhile_append_of_pos hb] at hdrop
  exact hdrop.trans (List.dropWhile_suffix _).isInfix

theorem of_append_line (h : IsMark m) (ha : beginsLine a.getLast? = true) (hm : m <:+: a ++ b) :
    m <:+: a ∨ m <:+: b := by
  by_cases hne : a = []
  · rw [hne, List.nil_append] at hm
    exact .inr hm
  · obtain ⟨u, rfl⟩ := eq_concat_of_beginsLine ha hne
    rw [List.append_assoc] at hm
    exact (isInfix_of_append_sep h.line hm).imp_left fun hu => hu.trans (List.infix_append [] u _)

theorem around {x value y : Text} (hx : Lead x) (hvalue : ∀ c ∈ value, isPlain c = true)
    (hy : ∀ c ∈ y, c ∉ breaks) : IsMark (x ++ value ++ y) := by
  obtain ⟨c, hc, hblank⟩ := hx.head
  obtain ⟨u, rfl⟩ := List.head?_eq_some_iff.1 hc
  refine ⟨⟨c, rfl, hblank⟩, fun d hd => ?_⟩
  simp only [List.mem_append] at hd
  rcases hd with (hd | hd) | hd
  · exact hx.whole d hd
  · exact (toNat_of_isPlain (hvalue d hd)).2.2.1
  · exact hy d hd

end IsMark

end Scaffold.Text
