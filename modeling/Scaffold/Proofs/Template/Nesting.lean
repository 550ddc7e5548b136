import Scaffold.Proofs.Anchor.Nesting
import Scaffold.Proofs.Name.Forms
import Scaffold.Proofs.Template.Fill
import Scaffold.Template.Catalog

namespace Scaffold

namespace Brace

/-- Texts that take a reader to the same place from wherever it is. -/
def Alike (t u : Text) : Prop := ∀ s, t.foldlM step s = u.foldlM step s

variable {t t' u u' : Text}

theorem Alike.refl (t : Text) : Alike t t := fun _ => rfl

theorem Alike.append (ht : Alike t t') (hu : Alike u u') : Alike (t ++ u) (t' ++ u') := by
  intro s
  rw [List.foldlM_append, List.foldlM_append, ht s]
  cases t'.foldlM step s with
  | none => rfl
  | some s' => exact hu s'

theorem Alike.flatMap {α : Type} {f g : α → Text} {as : List α}
    (h : ∀ a ∈ as, Alike (f a) (g a)) : Alike (as.flatMap f) (as.flatMap g) := by
  induction as with
  | nil => exact .refl []
  | cons a as ih =>
      rw [List.flatMap_cons, List.flatMap_cons]
      exact (h a (by simp)).append (ih fun b hb => h b (by simp [hb]))

def signs : List Char := ['{', '}', '\'', '"', '\x60', '/', '\\', '*', '\n']

structure IsInert (t : Text) : Prop where
  ne_nil : t ≠ []
  inert : ∀ c ∈ t, c ∉ signs

theorem isInert_iff {t : Text} :
    IsInert t ↔ t.isEmpty = false ∧ t.all (!signs.contains ·) = true := by
  constructor
  · intro h
    exact ⟨by simpa using h.ne_nil, by simpa using h.inert⟩
  · rintro ⟨hne, hinert⟩
    exact ⟨by simpa using hne, by simpa using hinert⟩

instance (t : Text) : Decidable (IsInert t) := decidable_of_iff _ isInert_iff.symm

theorem IsInert.append (ht : IsInert t) (hu : ∀ c ∈ u, c ∉ signs) : IsInert (t ++ u) := by
  refine ⟨by simp [ht.ne_nil], ?_⟩
  rw [List.forall_mem_append]
  exact ⟨ht.inert, hu⟩

def settled : Mode → Mode
  | .code _ => .code false
  | .literal q _ => .literal q false
  | .lineComment => .lineComment
  | .blockComment _ => .blockComment false

theorem settled_settled (m : Mode) : settled (settled m) = settled m := by cases m <;> rfl

theorem mem_signs_of_isLiteralQuote {c : Char} (h : Shape.isLiteralQuote c = true) :
    c ∈ signs := by
  simp only [Shape.isLiteralQuote, Shape.isQuote, Bool.or_eq_true, beq_iff_eq] at h
  rcases h with (rfl | rfl) | rfl <;> decide

theorem step_inert {c : Char} (hc : c ∉ signs) (m : Mode) (depth : Nat) :
    step (m, depth) c = some (settled m, depth) := by
  have hne : ∀ d ∈ signs, c ≠ d := fun d hd h => hc (h ▸ hd)
  have hquote : Shape.isLiteralQuote c = false :=
    Bool.eq_false_iff.2 (mt mem_signs_of_isLiteralQuote hc)
  have hslash : c ≠ '/' := hne _ (by decide)
  have hstar : c ≠ '*' := hne _ (by decide)
  have hline : c ≠ '\n' := hne _ (by decide)
  cases m with
  | code slash =>
      simp [step, settled, hquote, hslash, hstar, hne '{' (by decide), hne '}' (by decide)]
  | literal q escaped =>
      have hq : c ≠ q.1 := hne _ (mem_signs_of_isLiteralQuote q.2)
      cases escaped with
      | true => rfl
      | false => simp [step, settled, hline, hq, hne '\\' (by decide)]
  | lineComment => simp [step, settled, hline]
  | blockComment star => simp [step, settled, hslash, hstar]

theorem foldlM_inert (h : IsInert t) (m : Mode) (depth : Nat) :
    t.foldlM step (m, depth) = some (settled m, depth) := by
  obtain ⟨hne, hinert⟩ := h
  induction t generalizing m with
  | nil => exact absurd rfl hne
  | cons c t ih =>
      rw [Text.foldlM_cons_of_eq (step_inert (hinert c (by simp)) m depth)]
      cases t with
      | nil => rfl
      | cons d t =>
          rw [ih _ (List.cons_ne_nil _ _) (fun e he => hinert e (by simp [he])), settled_settled]

theorem alike_of_isInert (ht : IsInert t) (hu : IsInert u) : Alike t u :=
  fun s => (foldlM_inert ht s.1 s.2).trans (foldlM_inert hu s.1 s.2).symm

theorem IsBalanced.of_alike (h : Alike t u) (hu : IsBalanced u) : IsBalanced t := by
  obtain ⟨slash, hread⟩ := hu
  exact ⟨slash, by rw [h, hread]⟩

theorem not_mem_signs_of_isPlain {c : Char} (h : Text.isPlain c = true) : c ∉ signs := by
  intro hc
  simp only [signs, List.mem_cons, List.not_mem_nil, or_false] at hc
  rcases hc with rfl | rfl | rfl | rfl | rfl | rfl | rfl | rfl | rfl <;> exact absurd h (by decide)

end Brace

namespace Text

theorem dropFinalNewlines_line {t : Text} {c : Char} (h : t.getLast? = some c) (hc : c ≠ '\n') :
    dropFinalNewlines (t ++ "\n") ++ "\n" = t ++ "\n" := by
  have hline : ∀ d ∈ "\n".toList, (d == '\n') = true := by simp
  have hlast : ∃ d, t.getLast? = some d ∧ (d == '\n') = false := ⟨c, h, beq_eq_false_iff_ne.2 hc⟩
  rw [dropFinalNewlines, dropEndWhile_append_of_all hline, dropEndWhile_of_last hlast]

end Text

namespace Name

variable (n : Name)

theorem isInert_kebab : Brace.IsInert n.kebab :=
  ⟨n.kebab_ne_nil, fun c hc => Brace.not_mem_signs_of_isPlain (n.isPlain_kebab c hc)⟩

theorem isInert_pascal : Brace.IsInert n.pascal :=
  ⟨n.pascal_ne_nil, fun c hc => Brace.not_mem_signs_of_isPlain (n.isPlain_pascal c hc)⟩

theorem isInert_map {f : Char → Char} (hf : ∀ c, Text.isPlain c = true → f c ∉ Brace.signs) :
    Brace.IsInert (n.kebab.map f) := by
  refine ⟨by simpa using n.kebab_ne_nil, ?_⟩
  intro c hc
  obtain ⟨d, hd, rfl⟩ := List.mem_map.1 hc
  exact hf d (n.isPlain_kebab d hd)

theorem isInert_snake : Brace.IsInert n.snake := by
  apply n.isInert_map
  intro c hc
  split
  · decide
  · exact Brace.not_mem_signs_of_isPlain hc

theorem isInert_screaming : Brace.IsInert n.screaming := by
  apply n.isInert_map
  intro c hc
  split
  · decide
  · exact Brace.not_mem_signs_of_isPlain (Casing.isPlain_toUpper hc)

end Name

namespace Template

def sample : Bindings
  | .marker => some "//x"
  | _ => some "x"

/-- A template for members of a class: its last line is a closing brace, and its braces match. -/
structure Nests (t : Template) : Prop where
  slots : t.slots ⊆ [.marker, .kebab, .pascal, .snake, .screaming]
  last : t.lines.getLast? = some [.text "  \x7d"]
  isBalanced : Brace.IsBalanced ('\n' :: t.fill sample)

variable {t : Template} {b : Bindings}

theorem fill_concat (lines : List Line) (line : Line) (b : Bindings) (name : Text) :
    fill ⟨name, lines ++ [line]⟩ b =
      fill ⟨name, lines⟩ b ++ line.flatMap (Piece.fill b) ++ "\n" := by
  simp [fill, pieces, Piece.fill]

theorem Nests.exists_lines (h : t.Nests) (b : Bindings) : ∃ u, t.fill b = u ++ "  \x7d" ++ "\n" := by
  obtain ⟨lines, hlines⟩ := List.getLast?_eq_some_iff.1 h.last
  obtain ⟨name, _⟩ := t
  obtain rfl := hlines
  exact ⟨_, fill_concat lines _ b name⟩

/-- However the slots are filled, the braces match. -/
theorem Nests.isBalanced_fill (h : t.Nests)
    (hb : ∀ s ∈ t.slots, Brace.Alike ((b s).getD []) ((sample s).getD [])) :
    Brace.IsBalanced ('\n' :: t.fill b) := by
  have hfill : Brace.Alike (t.fill b) (t.fill sample) := by
    apply Brace.Alike.flatMap
    intro p hp
    cases p with
    | text u => exact .refl u
    | slot s => exact hb s ((mem_slots t).2 hp)
  exact .of_alike ((Brace.Alike.refl ['\n']).append hfill) h.isBalanced

theorem nests_tableShard : Table.shard.Nests := by
  refine ⟨by decide, by decide, false, ?_⟩
  unfold Table.shard Table.shardName Table.shardTable Table.shardToRow Table.shardPut Table.shardGet
    Table.shardList Table.shardDelete
  simp (disch := with_reducible rfl) only [Text.toList_eq]
  decide +kernel

theorem nests_dashboardShard : Dashboard.shard.Nests := by
  refine ⟨by decide, by decide, false, ?_⟩
  unfold Dashboard.shard
  simp (disch := with_reducible rfl) only [Text.toList_eq]
  decide +kernel

theorem nests_feedShard : Feed.shard.Nests := by
  refine ⟨by decide, by decide, false, ?_⟩
  unfold Feed.shard Feed.shardTable Feed.shardList Feed.shardAdd
  simp (disch := with_reducible rfl) only [Text.toList_eq]
  decide +kernel

end Template

end Scaffold
