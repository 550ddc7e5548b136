import Scaffold.Proofs.Anchor.LastLine
import Scaffold.Proofs.Anchor.Places
import Scaffold.Proofs.Edit.Insertions

namespace Scaffold

open Text

/-- The lines `ls` can go between two parts of a text. The last line of the first part has a quote,
and it is ended, by the first of the lines if not in the text. -/
structure Seam (y : Text) (ls : List Text) (z : Text) : Prop where
  quoted : ∀ u w, y = u ++ w → w ≠ [] → beginsLine u.getLast? = true →
    ∃ c ∈ w, Shape.isQuote c = true
  line : beginsLine y.getLast? = true ∨ z = [] ∧ ls.head? = some []

def Text.Adds (new : Text → Prop) (t u : Text) : Prop :=
  ∀ l ∈ List.splitOn '\n' u, l ∈ List.splitOn '\n' t ∨ new l

/-- The last line of a shape was at `k` and is at `k'`, with new lines above it. All lines that were
above it are still there, before the new ones, and so are those from it on; what the shape reads is
the same. -/
structure Shape.Moved (p : Shape) (new : List Text) (k k' : Cut) : Prop where
  above : (ended k.before ++ new).Sublist (ended k'.before)
  below : (List.splitOn '\n' k.after).Sublist (List.splitOn '\n' k'.after)
  same : ∃ x r r', k.after = x ++ r ∧ p k.after = some r ∧ k'.after = x ++ r' ∧
    p k'.after = some r'

theorem Text.Adds.trans {new : Text → Prop} {t u v : Text} (h : Adds new t u) (h' : Adds new u v) :
    Adds new t v := fun l hl => (h' l hl).elim (h l) .inr

namespace Shape

variable {p : Shape} {new more ls : List Text} {k k' k'' : Cut} {t : Text} {start : Bool}

theorem Moved.trans (h : p.Moved new k k') (h' : p.Moved more k' k'') :
    p.Moved (new ++ more) k k'' := by
  refine ⟨?_, h.below.trans h'.below, ?_⟩
  · rw [← List.append_assoc]
    exact (h.above.append_right more).trans h'.above
  · obtain ⟨x, r, r₁, hafter, hread, hafter₁, hread₁⟩ := h.same
    obtain ⟨x', r₁', r₂, hafter₁', hread₁', hafter₂, hread₂⟩ := h'.same
    obtain rfl : r₁ = r₁' := Option.some.inj (hread₁.symm.trans hread₁')
    obtain rfl : x = x' := List.append_cancel_right (hafter₁.symm.trans hafter₁')
    exact ⟨x, r, r₂, hafter, hread, hafter₂, hread₂⟩

theorem Moved.of_sublist (h : p.Moved new k k') (hmore : more.Sublist new) : p.Moved more k k' :=
  ⟨(hmore.append_left _).trans h.above, h.below, h.same⟩

theorem IsFirm.moved_refl (hp : p.IsFirm) (hk : (p k.after).isSome = true) : p.Moved [] k k := by
  obtain ⟨r, hr⟩ := Option.isSome_iff_exists.1 hk
  obtain ⟨x, hx, -, -⟩ := hp.read hr
  exact ⟨by rw [List.append_nil], .refl _, x, r, r, hx, hr, hx, hr⟩

theorem splitOn_unlines_append (hls : ∀ l ∈ ls, p.Shuns l) {y : Text}
    (hy : beginsLine y.getLast? = true) (z : Text) :
    List.splitOn '\n' (y ++ (unlines ls ++ z)) = ended y ++ ls ++ List.splitOn '\n' z := by
  rw [← List.append_assoc,
    splitOn_append_of_beginsLine (beginsLine_append hy (beginsLine_unlines ls)),
    ended_append hy, ended_unlines fun l hl => (hls l hl).line]

/-- Lines may come before any line of a text if they begin with a slash, for nothing that is read
there can go on with one. -/
theorem Misses.block (hp : p.IsFirm) (hls : ∀ l ∈ ls, p.Shuns l)
    (hslash : (unlines ls).head? = some '/') {y z : Text} (hy : beginsLine y.getLast? = true)
    (h : p.Misses true (y ++ z)) : p.Misses true (y ++ (unlines ls ++ z)) := by
  have hz : p.Misses true z := by
    have hsecond := (misses_append.1 h).2
    rwa [lineAfter_true, hy] at hsecond
  refine Misses.insert hp hls hz (fun u w hw hne _ => ?_) h
  have hlast : w.getLast? = some '\n' := by
    obtain ⟨v, rfl⟩ := eq_concat_of_beginsLine hy (by simp [hw, hne])
    rw [← List.getLast?_append_of_ne_nil u hne, ← hw, List.getLast?_concat]
  exact ⟨⟨.inl hlast, .inr ⟨hlast, by rw [List.head?_append, hslash, Option.some_or]⟩⟩, .inl hlast⟩

theorem moved_of_block (hp : p.IsFirm) (hls : ∀ l ∈ ls, p.Shuns l)
    (hk : lastLine? (fun r => (p r).isSome) t = some k) :
    lastLine? (fun r => (p r).isSome) (k.before ++ (unlines ls ++ k.after)) =
        some ⟨k.before ++ unlines ls, k.after⟩ ∧
      p.Moved ls k ⟨k.before ++ unlines ls, k.after⟩ := by
  obtain ⟨-, hline, hsome, hbelow⟩ := lastLine?_eq_some_iff.1 hk
  constructor
  · refine lastLine?_eq_some_iff.2 ⟨by rw [List.append_assoc], ?_, hsome, hbelow⟩
    exact beginsLine_append hline (beginsLine_unlines ls)
  · refine ⟨?_, .refl _, (hp.moved_refl hsome).same⟩
    rw [ended_append hline, ended_unlines fun l hl => (hls l hl).line]

end Shape

namespace Seam

variable {p : Shape} {y z u w : Text} {ls : List Text} {start : Bool}

theorem of_append (h : Seam (u ++ w) ls z) (hu : beginsLine u.getLast? = true) (hw : w ≠ []) :
    Seam w ls z := by
  constructor
  · intro u' w' hw' hne hu'
    exact h.quoted (u ++ u') w' (by rw [hw', List.append_assoc]) hne (beginsLine_append hu hu')
  · rw [← List.getLast?_append_of_ne_nil u hw]
    exact h.line

theorem isSealed (h : Seam y ls z) (hne : y ≠ []) : Shape.IsSealed y z ∧
    Shape.IsSealed y (unlines ls ++ z) ∧ (y.getLast? = some '\n' ∨ z = []) := by
  have hquote := h.quoted [] y rfl hne rfl
  rcases h.line with hline | ⟨rfl, hhead⟩
  · have hlast : y.getLast? = some '\n' := by
      obtain ⟨v, rfl⟩ := eq_concat_of_beginsLine hline hne
      exact List.getLast?_concat
    exact ⟨⟨.inl hlast, .inl hquote⟩, ⟨.inl hlast, .inl hquote⟩, .inl hlast⟩
  · obtain ⟨ms, rfl⟩ := List.head?_eq_some_iff.1 hhead
    exact ⟨⟨.inr (.inl rfl), .inl hquote⟩, ⟨.inr (.inr rfl), .inl hquote⟩, .inr rfl⟩

theorem misses (h : Seam y ls z) (hp : p.IsFirm) (hls : ∀ l ∈ ls, p.Shuns l)
    (hstart : start = true ∨ y ≠ []) (hmisses : p.Misses start (y ++ z)) :
    p.Misses start (y ++ (unlines ls ++ z)) := by
  have hz : p.Misses true z := by
    rcases h.line with hline | ⟨rfl, -⟩
    · have hsecond := (Shape.misses_append.1 hmisses).2
      have hafter : lineAfter start y = true := by
        rcases hstart with rfl | hy
        · rwa [lineAfter_true]
        · rwa [lineAfter_of_ne_nil hy, lineAfter_true]
      rwa [hafter] at hsecond
    · exact Shape.misses_nil hp.nil true
  refine Shape.Misses.insert hp hls hz (fun u w hw hne hline => ?_) hmisses
  have hu : beginsLine u.getLast? = true := by
    by_cases hne : u = []
    · rw [hne]
      rfl
    · rwa [lineAfter_of_ne_nil hne, lineAfter_true] at hline
  subst hw
  exact ((h.of_append hu hne).isSealed hne).2

theorem splitOn_sublist (h : Seam y ls z) (hls : ∀ l ∈ ls, p.Shuns l) :
    (List.splitOn '\n' (y ++ z)).Sublist (List.splitOn '\n' (y ++ (unlines ls ++ z))) := by
  rcases h.line with hline | ⟨rfl, hhead⟩
  · rw [Shape.splitOn_unlines_append hls hline, splitOn_append_of_beginsLine hline]
    exact (List.sublist_append_left _ _).append_right _
  · obtain ⟨ms, rfl⟩ := List.head?_eq_some_iff.1 hhead
    rw [unlines_cons, List.append_nil, List.append_nil, List.nil_append,
      List.splitOn_append_cons_self]
    exact List.sublist_append_left _ _

theorem adds (h : Seam y ls z) (hls : ∀ l ∈ ls, p.Shuns l) :
    Adds (· ∈ ls) (y ++ z) (y ++ (unlines ls ++ z)) := by
  intro l hl
  rcases h.line with hline | ⟨rfl, hhead⟩
  · rw [Shape.splitOn_unlines_append hls hline, List.mem_append, List.mem_append] at hl
    rw [splitOn_append_of_beginsLine hline, List.mem_append]
    tauto
  · obtain ⟨ms, rfl⟩ := List.head?_eq_some_iff.1 hhead
    have hms : List.splitOn '\n' (unlines ms) = ms ++ [[]] := by
      have hshuns : ∀ m ∈ ms, p.Shuns m := fun m hm => hls m (List.mem_cons_of_mem _ hm)
      rw [← List.nil_append (unlines ms), ← List.append_nil (unlines ms),
        Shape.splitOn_unlines_append hshuns rfl]
      rfl
    rw [unlines_cons, List.append_nil, List.nil_append, List.splitOn_append_cons_self, hms,
      List.mem_append,
      List.mem_append, List.mem_singleton] at hl
    rw [List.append_nil]
    change _ ∨ l ∈ [] :: ms
    rw [List.mem_cons]
    tauto

/-- The last line of a firm shape moves down when lines come into a seam above it. -/
theorem exists_moved_of_below {w d : Text} (h : Seam y ls (w ++ d)) (hp : p.IsFirm)
    (hline : beginsLine (y ++ w).getLast? = true) (hsome : (p d).isSome = true)
    (hbelow : p.Misses false d) :
    ∃ k', lastLine? (fun r => (p r).isSome) (y ++ (unlines ls ++ (w ++ d))) = some k' ∧
      p.Moved [] ⟨y ++ w, d⟩ k' ∧ ∀ new, splice (y ++ (w ++ d))
        [.insert y (unlines ls), .insert (y ++ w) new] = .ok (k'.before ++ (new ++ k'.after)) := by
  have hd : d ≠ [] := by
    rintro rfl
    rw [hp.nil] at hsome
    cases hsome
  have hy : beginsLine y.getLast? = true := h.line.resolve_right (by simp [hd])
  have hw : beginsLine w.getLast? = true := by
    by_cases hw : w = []
    · rw [hw]
      rfl
    · rwa [List.getLast?_append_of_ne_nil y hw] at hline
  have hyls := beginsLine_append hy (beginsLine_unlines ls)
  refine ⟨⟨y ++ unlines ls ++ w, d⟩, ?_, ⟨?_, .refl _, (hp.moved_refl hsome).same⟩, fun new => ?_⟩
  · exact lastLine?_eq_some_iff.2 ⟨by simp, beginsLine_append hyls hw, hsome, hbelow⟩
  · rw [List.append_nil, ended_append hy, ended_append hyls, ended_append hy]
    exact (List.sublist_append_left _ _).append_right _
  · rw [← List.append_assoc, ← List.append_assoc]
    exact splice_pair y w d (unlines ls) new

theorem exists_moved_of_above {b w : Text} (h : Seam (b ++ w) ls z) (hp : p.IsFirm)
    (hls : ∀ l ∈ ls, p.Shuns l) (hne : w ≠ []) (hline : beginsLine b.getLast? = true)
    (hsome : (p (w ++ z)).isSome = true) (hbelow : p.Misses false (w ++ z)) :
    ∃ k', lastLine? (fun r => (p r).isSome) (b ++ w ++ (unlines ls ++ z)) = some k' ∧
      p.Moved [] ⟨b, w ++ z⟩ k' ∧ ∀ new, splice (b ++ w ++ z)
        [.insert (b ++ w) (unlines ls), .insert b new] = .ok (k'.before ++ (new ++ k'.after)) := by
  have hseam := h.of_append hline hne
  obtain ⟨hsealed, hsealed', -⟩ := hseam.isSealed hne
  obtain ⟨r, hr⟩ := Option.isSome_iff_exists.1 hsome
  obtain ⟨x, r₀, hx, rfl, hagain⟩ := hp.read_of_isSealed hsealed hr
  have hread : p (w ++ (unlines ls ++ z)) = some (r₀ ++ (unlines ls ++ z)) := by
    rw [hx, List.append_assoc]
    exact hagain _ hsealed'.line
  refine ⟨⟨b, w ++ (unlines ls ++ z)⟩, ?_, ⟨by rw [List.append_nil], hseam.splitOn_sublist hls, ?_⟩,
    fun new => ?_⟩
  · refine lastLine?_eq_some_iff.2 ⟨by simp, hline, by rw [hread]; rfl, ?_⟩
    exact hseam.misses hp hls (.inr hne) hbelow
  · exact ⟨x, _, _, by rw [hx, List.append_assoc], hr, by rw [hx, List.append_assoc], hread⟩
  · have hsplice := splice_pair_swapped b z new (unlines ls) hne
    rw [hsplice]
    simp

/-- Lines that come into a seam leave the last line of a firm shape where it was, or move it down
with all that is above it. An insertion right before that line can be made at the same time. -/
theorem exists_moved (h : Seam y ls z) (hp : p.IsFirm) (hls : ∀ l ∈ ls, p.Shuns l) {k : Cut}
    (hk : lastLine? (fun r => (p r).isSome) (y ++ z) = some k) :
    ∃ k', lastLine? (fun r => (p r).isSome) (y ++ (unlines ls ++ z)) = some k' ∧ p.Moved [] k k' ∧
      ∀ new, splice (y ++ z) [.insert y (unlines ls), .insert k.before new] =
        .ok (k'.before ++ (new ++ k'.after)) := by
  obtain ⟨b, d⟩ := k
  obtain ⟨ht, hline, hsome, hbelow⟩ := lastLine?_eq_some_iff.1 hk
  rcases List.append_eq_append_iff.1 ht with ⟨w, rfl, rfl⟩ | ⟨w, rfl, rfl⟩
  · exact h.exists_moved_of_below hp hline hsome hbelow
  · by_cases hw : w = []
    · subst hw
      simpa using exists_moved_of_below (w := []) (by simpa using h) hp (by simpa using hline)
        hsome hbelow
    · exact h.exists_moved_of_above hp hls hw hline hsome hbelow

end Seam

end Scaffold
