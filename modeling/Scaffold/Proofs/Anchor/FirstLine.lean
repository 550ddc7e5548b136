import Scaffold.Proofs.Anchor.ClassBody
import Scaffold.Proofs.Anchor.LastLine
import Scaffold.Proofs.Import.Lists

namespace Scaffold

open Text

namespace Shape

/-- No line of the shape begins in the first part of a text; `start` tells whether one begins with
it. -/
def MissesIn (p : Shape) (start : Bool) (y z : Text) : Prop :=
  ∀ u w, y = u ++ w → w ≠ [] → lineAfter start u = true → p (w ++ z) = none

variable {p : Shape} {start : Bool} {x y z : Text} {c : Char}

theorem missesIn_nil : p.MissesIn start [] z :=
  fun _ _ huw hne => absurd (List.nil_eq_append_iff.1 huw).2 hne

theorem missesIn_append : p.MissesIn start (x ++ y) z ↔
    p.MissesIn start x (y ++ z) ∧ p.MissesIn (lineAfter start x) y z := by
  constructor
  · intro h
    refine ⟨fun u w hx hne hline => ?_, fun u w hy hne hline => ?_⟩
    · rw [← List.append_assoc]
      exact h u (w ++ y) (by rw [hx, List.append_assoc]) (by simp [hne]) hline
    · rw [← lineAfter_append] at hline
      exact h (x ++ u) w (by rw [hy, List.append_assoc]) hne hline
  · rintro ⟨hfirst, hsecond⟩ u w huw hne hline
    rcases List.append_eq_append_iff.1 huw with ⟨a, rfl, hy⟩ | ⟨a, hx, rfl⟩
    · rw [lineAfter_append] at hline
      exact hsecond a w hy hne hline
    · by_cases ha : a = []
      · subst ha
        rw [List.append_nil] at hx
        exact hsecond [] y rfl hne (hx ▸ hline)
      · rw [List.append_assoc]
        exact hfirst u a hx ha hline

theorem missesIn_cons : p.MissesIn start (c :: y) z ↔
    (start = true → p (c :: y ++ z) = none) ∧ p.MissesIn (c == '\n') y z := by
  rw [← List.singleton_append, missesIn_append, lineAfter_cons]
  refine and_congr_left fun _ => ⟨fun h hstart => h [] [c] rfl (by simp) hstart, ?_⟩
  intro h u w huw hne hstart
  obtain ⟨rfl, rfl⟩ | ⟨-, rfl⟩ := List.singleton_eq_append_iff.1 huw
  · exact h hstart
  · exact absurd rfl hne

theorem missesIn_of_not_mem (hline : '\n' ∉ y) (hy : y ≠ [] → p (y ++ z) = none) :
    p.MissesIn start y z := by
  intro u w huw hne hstart
  have hu : u = [] := by
    by_contra hu
    rw [lineAfter, if_neg hu, endsLine, beq_iff_eq] at hstart
    exact hline (huw ▸ List.mem_append_left w (List.mem_of_getLast? hstart))
  rw [hu, List.nil_append] at huw
  rw [← huw] at hne ⊢
  exact hy hne

theorem missesIn_unlines {ls : List Text} (hls : ∀ l ∈ ls, p.Shuns l) :
    p.MissesIn start (unlines ls) z := by
  induction ls generalizing start with
  | nil => exact missesIn_nil
  | cons l ls ih =>
      have hl := hls l List.mem_cons_self
      have hfirst : p.MissesIn start (l ++ ['\n']) (unlines ls ++ z) := by
        intro u w huw hne hline
        rcases List.append_eq_append_iff.1 huw with ⟨a, rfl, ha⟩ | ⟨a, ha, rfl⟩
        · obtain ⟨rfl, rfl⟩ : a = [] ∧ w = ['\n'] := by
            rcases List.singleton_eq_append_iff.1 ha with h | h
            · exact h
            · exact absurd h.2 hne
          by_cases hnil : l = []
          · have hnone := hl.none (unlines ls ++ z)
            rwa [hnil] at hnone
          · rw [List.append_nil, lineAfter, if_neg hnil, endsLine, beq_iff_eq] at hline
            exact absurd (List.mem_of_getLast? hline) hl.line
        · have hnil : u = [] := by
            by_contra hu
            rw [lineAfter, if_neg hu, endsLine, beq_iff_eq] at hline
            exact hl.line (ha ▸ List.mem_append_left a (List.mem_of_getLast? hline))
          subst hnil
          rw [← show l = a from ha, List.append_assoc]
          exact hl.none _
      rw [unlines_cons, List.append_cons]
      exact missesIn_append.2 ⟨hfirst, ih fun m hm => hls m (List.mem_cons_of_mem l hm)⟩

end Shape

namespace Text

variable {p : Shape} {prev : Option Char} {t a b : Text}

theorem firstCut?_eq_some_iff :
    firstCut? (fun prev rest => beginsLine prev && (p rest).isSome) prev t = some ⟨a, b⟩ ↔
      t = a ++ b ∧ lineAfter (beginsLine prev) a = true ∧ (p b).isSome = true ∧
        p.MissesIn (beginsLine prev) a b := by
  induction a generalizing prev t with
  | nil =>
      rw [firstCut?_eq_start_iff, Bool.and_eq_true]
      constructor
      · rintro ⟨⟨hline, hsome⟩, rfl⟩
        exact ⟨rfl, hline, hsome, Shape.missesIn_nil⟩
      · rintro ⟨rfl, hline, hsome, -⟩
        exact ⟨⟨hline, hsome⟩, rfl⟩
  | cons c a ih =>
      cases t with
      | nil =>
          refine iff_of_false (fun h => ?_) (fun h => ?_)
          · rw [firstCut?, Option.ite_none_right_eq_some] at h
            cases h.2
          · cases h.1
      | cons d t =>
          rw [firstCut?, lineAfter_cons, Shape.missesIn_cons]
          constructor
          · intro h
            split at h
            · cases h
            · next hnot =>
                obtain ⟨k, hk, hcut⟩ := Option.map_eq_some_iff.1 h
                cases hcut
                obtain ⟨rfl, hline, hsome, hrest⟩ := ih.1 hk
                refine ⟨rfl, hline, hsome, fun hstart => ?_, hrest⟩
                simpa [hstart] using hnot
          · rintro ⟨ht, hline, hsome, hfirst, hrest⟩
            rw [List.cons_append, List.cons.injEq] at ht
            obtain ⟨rfl, rfl⟩ := ht
            have hnot : ¬(beginsLine prev && (p (d :: (a ++ b))).isSome) = true := by
              rw [Bool.and_eq_true]
              rintro ⟨hstart, hhere⟩
              rw [show p (d :: (a ++ b)) = none from hfirst hstart] at hhere
              cases hhere
            have hcut : firstCut? (fun prev rest => beginsLine prev && (p rest).isSome) (some d)
                (a ++ b) = some ⟨a, b⟩ := ih.2 ⟨rfl, hline, hsome, hrest⟩
            rw [if_neg hnot, hcut]
            rfl

theorem firstLine?_eq_some_iff : firstLine? (fun r => (p r).isSome) t = some ⟨a, b⟩ ↔
    t = a ++ b ∧ beginsLine a.getLast? = true ∧ (p b).isSome = true ∧ p.MissesIn true a b := by
  rw [← lineAfter_true]
  exact firstCut?_eq_some_iff

end Text

namespace Shape

variable {t : Text} {start : Bool} {e g z : Text} {es : List Text} {list : Text}

theorem literal_eq_none {word : Text} (hne : word ≠ []) (h : t.head? ≠ word.head?) :
    literal word t = none := by
  cases hword : literal word t with
  | none => rfl
  | some u =>
      rw [eq_of_literal hword, List.head?_append_of_ne_nil _ hne] at h
      exact absurd rfl h

theorem modifier_eq_self {word : Text} (hne : word ≠ []) (h : t.head? ≠ word.head?) :
    modifier word t = t := by
  rw [modifier, literal_eq_none hne h]
  rfl

def classLetters : List Char := ['e', 'd', 'a', 'c']

theorem classDeclaration_eq_none (h : ∀ c ∈ (indent t).head?, c ∉ classLetters) :
    classDeclaration t = none := by
  have hhead : ∀ c ∈ classLetters, (indent t).head? ≠ some c := fun c hc heq =>
    h c (by rw [heq]; rfl) hc
  have hexport : modifier "export" (indent t) = indent t :=
    modifier_eq_self (by decide) (hhead 'e' (by decide))
  have hdefault : modifier "default" (indent t) = indent t :=
    modifier_eq_self (by decide) (hhead 'd' (by decide))
  have habstract : modifier "abstract" (indent t) = indent t :=
    modifier_eq_self (by decide) (hhead 'a' (by decide))
  have hclass : literal "class" (indent t) = none :=
    literal_eq_none (by decide) (hhead 'c' (by decide))
  rw [classDeclaration, hexport, hdefault, habstract, hclass]
  rfl

theorem classDeclaration_cons_eq_none {c : Char} (hspace : (c == ' ' || c == '\t') = false)
    (hc : c ∉ classLetters) (t : Text) : classDeclaration (c :: t) = none := by
  apply classDeclaration_eq_none
  intro d hd
  rw [indent, List.dropWhile_cons_of_neg (by simp [hspace]), List.head?_cons] at hd
  obtain rfl := Option.some.inj hd
  exact hc

theorem classDeclaration_blank_append (hg : ∀ c ∈ g, isBlank c = true)
    (h : classDeclaration t = none) : classDeclaration (g ++ t) = none := by
  induction g with
  | nil => exact h
  | cons c g ih =>
      obtain ⟨hc, hg⟩ := List.forall_mem_cons.1 hg
      by_cases hspace : (c == ' ' || c == '\t') = true
      · have hindent : indent (c :: (g ++ t)) = indent (g ++ t) :=
          List.dropWhile_cons_of_pos hspace
        have hrest := ih hg
        rw [classDeclaration] at hrest ⊢
        rwa [List.cons_append, hindent]
      · refine classDeclaration_cons_eq_none (by simpa using hspace) ?_ (g ++ t)
        rintro hletter
        simp only [classLetters, List.mem_cons, List.not_mem_nil, or_false] at hletter
        rcases hletter with rfl | rfl | rfl | rfl <;> exact absurd hc (by decide)

theorem HaltsAt.eq_none {p : Shape} {c : Char} (h : HaltsAt c p) {w y : Text}
    (hnone : p (w ++ c :: y) = none) (y' : Text) : p (w ++ c :: y') = none := by
  obtain ⟨o, ho⟩ := h w
  rw [ho] at hnone ⊢
  rw [Option.map_eq_none_iff.1 hnone]
  rfl

def IsClassless (e : Text) : Prop := classDeclaration.Misses true (e ++ ",")

theorem isClassless_of_head {c : Char} (hline : '\n' ∉ e) (hhead : e.head? = some c)
    (hspace : (c == ' ' || c == '\t') = false) (hc : c ∉ classLetters) : IsClassless e := by
  intro u v huv hstart
  have hu : u = [] := by
    by_contra hu
    rw [lineAfter, if_neg hu, endsLine, beq_iff_eq] at hstart
    have hmem : '\n' ∈ e ++ ",".toList := huv ▸ List.mem_append_left v (List.mem_of_getLast? hstart)
    rw [List.mem_append] at hmem
    exact hmem.elim hline (by decide)
  obtain ⟨r, rfl⟩ := List.head?_eq_some_iff.1 hhead
  subst hu
  rw [← show c :: (r ++ ",") = v from huv]
  exact classDeclaration_cons_eq_none hspace hc _

theorem missesIn_entry (hg : ∀ c ∈ g, isBlank c = true) (he : IsClassless e) :
    classDeclaration.MissesIn start (g ++ e ++ ",\n") z := by
  have hcomma : ∀ {u w : Text}, e = u ++ w → lineAfter true u = true →
      ∀ y, classDeclaration (w ++ ',' :: y) = none := fun {u w} huw hline =>
    (haltsAt_classDeclaration (c := ',') (by decide)).eq_none
      (he u (w ++ ",") (by rw [huw, List.append_assoc]) hline)
  rw [missesIn_append, missesIn_append]
  refine ⟨⟨?_, ?_⟩, ?_⟩
  · intro u w huw _ _
    refine classDeclaration_blank_append (fun c hc => hg c (huw ▸ List.mem_append_right u hc)) ?_
    exact hcomma (List.nil_append e).symm rfl _
  · intro u w huw _ hline
    refine hcomma huw ?_ _
    by_cases hu : u = []
    · rw [hu]
      rfl
    · rwa [lineAfter_of_ne_nil hu] at hline
  · intro u w huw hne hline
    rcases u with _ | ⟨c, _ | ⟨d, u⟩⟩
    · rw [← show ",\n".toList = w from huw]
      exact classDeclaration_cons_eq_none (by decide) (by decide) _
    · obtain ⟨rfl, -⟩ := List.cons.inj huw
      cases hline
    · obtain ⟨-, hrest⟩ := List.cons.inj huw
      obtain ⟨-, hrest⟩ := List.cons.inj hrest
      exact absurd (List.nil_eq_append_iff.1 hrest).2 hne

theorem missesIn_renderList (hes : ∀ e ∈ es, IsClassless e)
    (hrow : '\n' ∉ list → ∀ e ∈ es, '\n' ∉ e) :
    classDeclaration.MissesIn start (Import.renderList list es) z := by
  have hbrace : ∀ y, classDeclaration ('{' :: y) = none :=
    classDeclaration_cons_eq_none (by decide) (by decide)
  unfold Import.renderList
  split
  · rw [missesIn_append, missesIn_append]
    refine ⟨⟨?_, ?_⟩, missesIn_of_not_mem (by decide) fun _ => ?_⟩
    · intro u w huw hne hline
      rcases u with _ | ⟨c, _ | ⟨d, u⟩⟩
      · rw [← show "\x7b\n".toList = w from huw]
        exact hbrace _
      · obtain ⟨rfl, -⟩ := List.cons.inj huw
        cases hline
      · obtain ⟨-, hrest⟩ := List.cons.inj huw
        obtain ⟨-, hrest⟩ := List.cons.inj hrest
        exact absurd (List.nil_eq_append_iff.1 hrest).2 hne
    · -- Each line of the column is read alone, so it does not matter what is before and behind.
      generalize lineAfter start "\x7b\n".toList = start
      generalize "\x7d".toList ++ z = z
      clear hrow
      induction es generalizing start with
      | nil => exact missesIn_nil
      | cons e es ih =>
          obtain ⟨he, hes⟩ := List.forall_mem_cons.1 hes
          rw [List.flatMap_cons, missesIn_append]
          exact ⟨missesIn_entry (Import.entryIndent_blank list) he, ih hes _⟩
    · exact classDeclaration_cons_eq_none (by decide) (by decide) _
  · next hlist =>
      refine missesIn_of_not_mem ?_ fun _ => hbrace _
      rw [List.mem_append, List.mem_append, not_or, not_or]
      have hjoined : '\n' ∉ List.intercalate ", " es := by
        intro hmem
        rcases mem_intercalate hmem with hc | ⟨e, he, hc⟩
        · exact absurd hc (by decide)
        · exact hrow hlist e he hc
      exact ⟨⟨by decide, hjoined⟩, by decide⟩

end Shape

end Scaffold
