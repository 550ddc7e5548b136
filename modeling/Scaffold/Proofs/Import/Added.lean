import Scaffold.Import.Plan
import Scaffold.Proofs.Anchor.Seams

namespace Scaffold

open Text

theorem Text.exists_quote_of_append_eq {t l e u w : Text} {q : Char}
    (hq : Shape.isQuote q = true) (hl : '\n' ∉ l) (he : e = ['\n'] ∨ e = [])
    (h : t ++ q :: (l ++ e) = u ++ w) (hw : w ≠ []) (hu : beginsLine u.getLast? = true) :
    ∃ c ∈ w, Shape.isQuote c = true := by
  rcases List.append_eq_append_iff.1 h with ⟨a, rfl, hsplit⟩ | ⟨b, rfl, rfl⟩
  · cases a with
    | nil => exact ⟨q, by simp [← show q :: (l ++ e) = w from hsplit], hq⟩
    | cons c a =>
        obtain ⟨rfl, hrest⟩ : q = c ∧ l ++ e = a ++ w := List.cons.inj hsplit
        have hline : '\n' ∈ q :: a := by
          rw [List.getLast?_append_of_ne_nil t (List.cons_ne_nil q a)] at hu
          obtain ⟨v, hv⟩ := eq_concat_of_beginsLine hu (List.cons_ne_nil q a)
          simp [hv]
        have ha : '\n' ∈ a := by
          rcases List.mem_cons.1 hline with rfl | ha
          · cases hq
          · exact ha
        -- No line feed is in `l`, so nothing would be left for `w`.
        rcases List.append_eq_append_iff.1 hrest with ⟨b, rfl, hb⟩ | ⟨b, rfl, -⟩
        · rcases he with rfl | rfl
          · obtain ⟨rfl, rfl⟩ | ⟨rfl, rfl⟩ := List.singleton_eq_append_iff.1 hb
            · exact absurd (by simpa using ha) hl
            · exact absurd rfl hw
          · exact absurd (List.nil_eq_append_iff.1 hb).2 hw
        · exact absurd (List.mem_append_left b ha) hl
  · exact ⟨q, by simp, hq⟩

theorem Anchor.exists_of_firstImport {t : Text} {k : Cut} (h : locate t .firstImport = some k) :
    ∃ w q l e, k.before = w ++ q :: (l ++ e) ∧ Shape.isQuote q = true ∧ '\n' ∉ l ∧
      (e = ['\n'] ∨ e = [] ∧ k.after = []) := by
  simp only [locate, Option.bind_eq_bind, Option.bind_eq_some_iff, Option.map_eq_some_iff] at h
  obtain ⟨start, hstart, rest, hrest, rfl⟩ := h
  obtain rfl : start.whole = t := Text.whole_of_firstCut? hstart
  obtain ⟨w, q, l, e, hafter, hq, hl, he⟩ := Shape.exists_of_importStatement hrest
  have hcut : Cut.ofRest start.whole rest = ⟨start.before ++ (w ++ q :: (l ++ e)), rest⟩ := by
    rw [Cut.whole, hafter, ← List.append_assoc, Cut.ofRest_append]
  rw [hcut]
  exact ⟨start.before ++ w, q, l, e, by simp, hq, hl, he⟩

theorem seam_of_firstImport {t : Text} {k : Cut} (h : Anchor.locate t .firstImport = some k)
    {ls : List Text} (hls : endsLine k.before = true ∨ ls.head? = some []) :
    Seam k.before ls k.after := by
  obtain ⟨w, q, l, e, hbefore, hq, hl, he⟩ := Anchor.exists_of_firstImport h
  constructor
  · intro u v huv hne hu
    rw [hbefore] at huv
    exact exists_quote_of_append_eq hq hl (he.imp_right And.left) huv hne hu
  · rcases he with rfl | ⟨-, hafter⟩
    · refine .inl ?_
      rw [hbefore, ← List.cons_append, ← List.append_assoc, List.getLast?_concat]
      rfl
    · rcases hls with hends | hhead
      · refine .inl ?_
        rw [beq_iff_eq.1 hends]
        rfl
      · exact .inr ⟨hafter, hhead⟩

namespace ImportRequest

variable (r : ImportRequest)

def clause : Text :=
  (if r.typeOnly then "type " else "") ++ "\x7b " ++ List.intercalate ", " r.names ++ " \x7d from "

def line (quote : Char) : Text := "import " ++ r.clause ++ quote :: r.source ++ [quote, ';']

theorem line_eq (quote : Char) :
    r.line quote = "import " ++ r.clause ++ quote :: r.source ++ [quote, ';'] := rfl

theorem statement_eq (quote : Char) : r.statement quote = unlines [r.line quote] := by
  unfold statement line clause
  simp

theorem isQuote_quoteStyle (t : Text) : Shape.isQuote (quoteStyle t) = true := by
  unfold quoteStyle
  cases h : (Anchor.locate t .firstImport).bind fun k => k.before.reverse.find? Shape.isQuote with
  | none => rfl
  | some q =>
      obtain ⟨k, -, hq⟩ := Option.bind_eq_some_iff.1 h
      exact List.find?_some hq

/-- A new statement comes into a seam, as a line that may have an empty one beside it. The seam is
at the top of the text or after the first import. -/
theorem exists_seam (t : Text) : ∃ y z ls, t = y ++ z ∧ r.addStatement t = .insert y (unlines ls) ∧
    Seam y ls z ∧ (∀ l ∈ ls, l = [] ∨ ∃ quote, Shape.isQuote quote = true ∧ l = r.line quote) ∧
    (y = [] ∨ Anchor.locate t .firstImport = some ⟨y, z⟩) := by
  have hquote := isQuote_quoteStyle t
  generalize hq : quoteStyle t = quote at hquote
  have hlines : ∀ ls, ls ⊆ [[], r.line quote] →
      ∀ l ∈ ls, l = [] ∨ ∃ quote, Shape.isQuote quote = true ∧ l = r.line quote := by
    intro ls hls l hl
    have := hls hl
    simp only [List.mem_cons, List.not_mem_nil, or_false] at this
    exact this.imp_right fun h => ⟨quote, hquote, h⟩
  unfold addStatement
  simp only [hq, statement_eq]
  split
  · next k hk =>
      obtain ⟨hwhole, -⟩ := Anchor.isJoint_of_firstImport hk
      by_cases hends : endsLine k.before = true
      · refine ⟨k.before, k.after, [r.line quote], hwhole.symm, by rw [if_pos hends]; rfl, ?_, ?_,
          .inr hk⟩
        · exact seam_of_firstImport hk (.inl hends)
        · exact hlines _ (by simp)
      · refine ⟨k.before, k.after, [[], r.line quote], hwhole.symm, by rw [if_neg hends]; rfl, ?_, ?_,
          .inr hk⟩
        · exact seam_of_firstImport hk (.inr rfl)
        · exact hlines _ (by simp)
  · have htop : ∀ ls, Seam [] ls t := by
      refine fun ls => ⟨fun u w huw hne => ?_, .inl rfl⟩
      exact absurd (List.nil_eq_append_iff.1 huw).2 hne
    split
    · exact ⟨[], t, [r.line quote], rfl, by simp, htop _, hlines _ (by simp), .inl rfl⟩
    · exact ⟨[], t, [r.line quote, []], rfl, by simp, htop _, hlines _ (by simp), .inl rfl⟩

end ImportRequest

end Scaffold
