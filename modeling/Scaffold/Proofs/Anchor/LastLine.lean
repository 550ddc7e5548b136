import Scaffold.Proofs.Anchor.Shapes
import Scaffold.Proofs.Text.Ended

namespace Scaffold

namespace Text

def lineAfter (start : Bool) (u : Text) : Bool := if u = [] then start else endsLine u

variable {start : Bool} {u v : Text}

theorem lineAfter_append : lineAfter start (u ++ v) = lineAfter (lineAfter start u) v := by
  by_cases hv : v = []
  · simp [lineAfter, hv]
  · rw [lineAfter, lineAfter, if_neg hv, if_neg (by simp [hv]), endsLine, endsLine,
      List.getLast?_append_of_ne_nil u hv]

theorem lineAfter_cons (c : Char) : lineAfter start (c :: u) = lineAfter (c == '\n') u := by
  have h : lineAfter start [c] = (c == '\n') := by simp [lineAfter, endsLine]
  rw [← h, ← lineAfter_append, List.singleton_append]

theorem lineAfter_of_ne_nil (hu : u ≠ []) : lineAfter start u = lineAfter true u := by
  obtain ⟨c, v, rfl⟩ := List.exists_cons_of_ne_nil hu
  rw [lineAfter_cons, lineAfter_cons]

theorem lineAfter_true : lineAfter true u = beginsLine u.getLast? := by
  cases h : u.getLast? with
  | none => rw [List.getLast?_eq_none_iff.1 h]; rfl
  | some c =>
      have hne : u ≠ [] := by
        rintro rfl
        cases h
      rw [lineAfter, if_neg hne, endsLine, h]
      rfl

end Text

namespace Shape

/-- No line of the text is of the shape; `start` tells whether one begins with the text. -/
def Misses (p : Shape) (start : Bool) (t : Text) : Prop :=
  ∀ u v, t = u ++ v → Text.lineAfter start u = true → p v = none

variable {p : Shape} {start : Bool} {t y z : Text}

theorem Misses.of_true (h : p.Misses true t) (start : Bool) : p.Misses start t := by
  intro u v huv hline
  refine h u v huv ?_
  by_cases hu : u = []
  · rw [hu]; rfl
  · rwa [Text.lineAfter, if_neg hu] at hline ⊢

theorem misses_nil (h : p [] = none) (start : Bool) : p.Misses start [] := by
  intro u v huv _
  obtain ⟨-, rfl⟩ := List.nil_eq_append_iff.1 huv
  exact h

theorem misses_append : p.Misses start (y ++ z) ↔
    (∀ u w, y = u ++ w → w ≠ [] → Text.lineAfter start u = true → p (w ++ z) = none) ∧
      p.Misses (Text.lineAfter start y) z := by
  constructor
  · intro h
    refine ⟨fun u w hw _ hline => h u (w ++ z) (by rw [hw, List.append_assoc]) hline, ?_⟩
    intro u v huv hline
    rw [← Text.lineAfter_append] at hline
    exact h (y ++ u) v (by rw [huv, List.append_assoc]) hline
  · rintro ⟨hfirst, hsecond⟩ u v huv hline
    rcases List.append_eq_append_iff.1 huv with ⟨a, rfl, hz⟩ | ⟨w, hy, rfl⟩
    · rw [Text.lineAfter_append] at hline
      exact hsecond a v hz hline
    · by_cases hw : w = []
      · subst hw
        rw [List.append_nil] at hy
        exact hsecond [] z rfl (hy ▸ hline)
      · exact hfirst u w hy hw hline

theorem misses_cons {c : Char} : p.Misses start (c :: t) ↔
    (start = true → p (c :: t) = none) ∧ p.Misses (c == '\n') t := by
  rw [← List.singleton_append, misses_append, List.singleton_append, Text.lineAfter_cons]
  refine and_congr_left fun _ => ⟨fun hfirst hstart => hfirst [] [c] rfl (by simp) hstart, ?_⟩
  intro hfirst u w huw hw hline
  obtain ⟨rfl, rfl⟩ | ⟨rfl, rfl⟩ := List.singleton_eq_append_iff.1 huw
  · exact hfirst hline
  · exact absurd rfl hw

end Shape

namespace Text

variable {p : Shape}

theorem lastCut?_eq_none_iff {prev : Option Char} {t : Text} :
    lastCut? (fun prev rest => beginsLine prev && (p rest).isSome) prev t = none ↔
      p.Misses (beginsLine prev) t := by
  induction t generalizing prev with
  | nil =>
      have hnil : p.Misses (beginsLine prev) [] ↔ (beginsLine prev = true → p [] = none) :=
        ⟨fun h hline => h [] [] rfl hline, fun h u v huv hline => by
          obtain ⟨rfl, rfl⟩ := List.nil_eq_append_iff.1 huv
          exact h hline⟩
      rw [hnil, lastCut?]
      simp
  | cons c t ih =>
      rw [Shape.misses_cons, lastCut?]
      change _ ↔ _ ∧ p.Misses (beginsLine (some c)) t
      rw [← ih]
      split
      · next k hk => simp [hk]
      · next hk => simp [hk]

theorem lastCut?_cons_eq_some_iff {f : Option Char → Text → Bool} {prev : Option Char} {c : Char}
    {t b d : Text} : lastCut? f prev (c :: t) = some ⟨b, d⟩ ↔
      (∃ b', b = c :: b' ∧ lastCut? f (some c) t = some ⟨b', d⟩) ∨
        b = [] ∧ d = c :: t ∧ lastCut? f (some c) t = none ∧ f prev (c :: t) = true := by
  rw [lastCut?]
  cases hk : lastCut? f (some c) t with
  | none =>
      constructor
      · intro h
        obtain ⟨hp, hcut⟩ := Option.ite_none_right_eq_some.1 h
        cases hcut
        exact .inr ⟨rfl, rfl, rfl, hp⟩
      · rintro (⟨b, -, ⟨⟩⟩ | ⟨rfl, rfl, -, hp⟩)
        exact if_pos hp
  | some k =>
      constructor
      · intro h
        cases h
        exact .inl ⟨k.before, rfl, rfl⟩
      · rintro (⟨b, rfl, hcut⟩ | ⟨-, -, ⟨⟩, -⟩)
        cases hcut
        rfl

theorem lastCut?_eq_some_iff {prev : Option Char} {t b d : Text} :
    lastCut? (fun prev rest => beginsLine prev && (p rest).isSome) prev t = some ⟨b, d⟩ ↔
      t = b ++ d ∧ lineAfter (beginsLine prev) b = true ∧ (p d).isSome = true ∧
        p.Misses false d := by
  induction t generalizing prev b with
  | nil =>
      have hmisses : p.Misses false [] := fun u v huv hafter => by
        obtain ⟨rfl, -⟩ := List.nil_eq_append_iff.1 huv
        cases hafter
      constructor
      · intro h
        rw [lastCut?, Option.ite_none_right_eq_some] at h
        obtain ⟨hp, hcut⟩ := h
        cases hcut
        obtain ⟨hline, hsome⟩ := Bool.and_eq_true_iff.1 hp
        exact ⟨rfl, hline, hsome, hmisses⟩
      · rintro ⟨hnil, hline, hsome, -⟩
        obtain ⟨rfl, rfl⟩ := List.nil_eq_append_iff.1 hnil
        exact if_pos (Bool.and_eq_true_iff.2 ⟨hline, hsome⟩)
  | cons c t ih =>
      rw [lastCut?_cons_eq_some_iff]
      constructor
      · rintro (⟨b, rfl, hbelow⟩ | ⟨rfl, rfl, hbelow, hp⟩)
        · obtain ⟨rfl, hline, hsome, hmisses⟩ := ih.1 hbelow
          exact ⟨rfl, by rwa [lineAfter_cons], hsome, hmisses⟩
        · obtain ⟨hline, hsome⟩ := Bool.and_eq_true_iff.1 hp
          exact ⟨rfl, hline, hsome, Shape.misses_cons.2 ⟨by simp, lastCut?_eq_none_iff.1 hbelow⟩⟩
      · rintro ⟨ht, hline, hsome, hmisses⟩
        cases b with
        | nil =>
            rw [List.nil_append] at ht
            subst ht
            have hbelow : p.Misses (beginsLine (some c)) t := (Shape.misses_cons.1 hmisses).2
            exact .inr ⟨rfl, rfl, lastCut?_eq_none_iff.2 hbelow,
              Bool.and_eq_true_iff.2 ⟨hline, hsome⟩⟩
        | cons e b =>
            obtain ⟨rfl, rfl⟩ := List.cons.inj ht
            rw [lineAfter_cons] at hline
            exact .inl ⟨b, rfl, ih.2 ⟨rfl, hline, hsome, hmisses⟩⟩

theorem lastLine?_eq_none_iff {t : Text} :
    lastLine? (fun r => (p r).isSome) t = none ↔ p.Misses true t := lastCut?_eq_none_iff

theorem lastLine?_eq_some_iff {t b d : Text} :
    lastLine? (fun r => (p r).isSome) t = some ⟨b, d⟩ ↔
      t = b ++ d ∧ beginsLine b.getLast? = true ∧ (p d).isSome = true ∧ p.Misses false d := by
  rw [← lineAfter_true]
  exact lastCut?_eq_some_iff

end Text

namespace Shape

variable {p : Shape} {start : Bool} {t y z w x : Text} {ls : List Text}

/-- In a tight text no quote stands above a line feed, and something other than a slash below it. -/
def IsTight (x : Text) : Prop :=
  ∀ y b, x = y ++ '\n' :: b → (∀ c ∈ y, isQuote c = false) ∧ ∃ c, b.head? = some c ∧ c ≠ '/'

theorem IsTight.getLast?_ne (h : IsTight x) : x.getLast? ≠ some '\n' := by
  intro hlast
  obtain ⟨y, rfl⟩ := List.getLast?_eq_some_iff.1 hlast
  obtain ⟨-, c, hc, -⟩ := h y [] rfl
  cases hc

/-- What a firm shape reads is tight, and it reads the same where something else follows that begins
in the same way, is a new line or is nothing at all. -/
structure IsFirm (p : Shape) : Prop where
  nil : p [] = none
  read : ∀ {t r : Text}, p t = some r → ∃ x, t = x ++ r ∧ IsTight x ∧
    ∀ r' : Text, r'.head? = r.head? ∨ r' = [] ∨ r'.head? = some '\n' → p (x ++ r') = some r'

structure IsSealed (w z : Text) : Prop where
  line : w.getLast? = some '\n' ∨ z = [] ∨ z.head? = some '\n'
  mark : (∃ c ∈ w, isQuote c = true) ∨ w.getLast? = some '\n' ∧ z.head? = some '/'

theorem IsSealed.eq_nil_of_isTight {a r : Text} (h : IsSealed w (a ++ r)) (hx : IsTight (w ++ a)) :
    a = [] := by
  cases a with
  | nil => rfl
  | cons c a =>
      rcases h.line with hline | hnil | hhead
      · obtain ⟨w, rfl⟩ := List.getLast?_eq_some_iff.1 hline
        obtain ⟨hno, d, hd, hne⟩ := hx w (c :: a) (by simp)
        rcases h.mark with ⟨e, he, hq⟩ | ⟨-, hhead⟩
        · rcases List.mem_append.1 he with he | he
          · rw [hno e he] at hq
            cases hq
          · rw [List.mem_singleton.1 he] at hq
            cases hq
        · cases hd
          exact absurd (Option.some.inj hhead) hne
      · cases hnil
      · obtain rfl : c = '\n' := Option.some.inj hhead
        rcases h.mark with ⟨d, hd, hq⟩ | ⟨-, hslash⟩
        · rw [(hx w a rfl).1 d hd] at hq
          cases hq
        · cases hslash

/-- A reading that begins in the sealed part also ends there, so it is not changed by what follows
the part. -/
theorem IsFirm.read_of_isSealed (hp : p.IsFirm) (h : IsSealed w z) {r : Text}
    (hr : p (w ++ z) = some r) : ∃ x r₀, w = x ++ r₀ ∧ r = r₀ ++ z ∧
      ∀ z' : Text, w.getLast? = some '\n' ∨ z' = [] ∨ z'.head? = some '\n' →
        p (x ++ (r₀ ++ z')) = some (r₀ ++ z') := by
  obtain ⟨x, hx, htight, hread⟩ := hp.read hr
  have hwithin : ∃ r₀, w = x ++ r₀ ∧ r = r₀ ++ z := by
    rcases List.append_eq_append_iff.1 hx with ⟨a, rfl, rfl⟩ | ⟨r₀, hw, hr₀⟩
    · obtain rfl := h.eq_nil_of_isTight htight
      exact ⟨[], by simp, rfl⟩
    · exact ⟨r₀, hw, hr₀⟩
  obtain ⟨r₀, rfl, rfl⟩ := hwithin
  refine ⟨x, r₀, rfl, rfl, fun z' hz' => hread _ ?_⟩
  cases r₀ with
  | nil =>
      rw [List.append_nil] at hz'
      exact .inr (hz'.resolve_left htight.getLast?_ne)
  | cons c r₀ => exact .inl rfl

structure Shuns (p : Shape) (l : Text) : Prop where
  line : '\n' ∉ l
  none : ∀ z, p (l ++ '\n' :: z) = none

theorem misses_line {l : Text} (hl : '\n' ∉ l) : p.Misses start (l ++ '\n' :: t) ↔
    (start = true → p (l ++ '\n' :: t) = none) ∧ p.Misses true t := by
  induction l generalizing start with
  | nil => exact misses_cons
  | cons c l ih =>
      obtain ⟨hc, hl⟩ := not_or.1 (mt List.mem_cons.2 hl)
      rw [List.cons_append, misses_cons, ih hl]
      simp [Ne.symm hc]

theorem Misses.unlines_append (hls : ∀ l ∈ ls, p.Shuns l) (hz : p.Misses true z) :
    p.Misses true (Text.unlines ls ++ z) := by
  induction ls with
  | nil => exact hz
  | cons l ls ih =>
      have hl := hls l List.mem_cons_self
      rw [Text.unlines_cons, List.append_assoc, List.cons_append, misses_line hl.line]
      exact ⟨fun _ => hl.none _, ih fun m hm => hls m (List.mem_cons_of_mem l hm)⟩

/-- Lines that are not of the shape can come between two parts of a text when no reading of the
shape goes on from the first part into them. -/
theorem Misses.insert (hp : p.IsFirm) (hls : ∀ l ∈ ls, p.Shuns l) (hz : p.Misses true z)
    (hsealed : ∀ u w, y = u ++ w → w ≠ [] → Text.lineAfter start u = true →
      IsSealed w (Text.unlines ls ++ z) ∧ (w.getLast? = some '\n' ∨ z = []))
    (h : p.Misses start (y ++ z)) : p.Misses start (y ++ (Text.unlines ls ++ z)) := by
  obtain ⟨hfirst, -⟩ := misses_append.1 h
  refine misses_append.2 ⟨fun u w hw hne hline => ?_, (hz.unlines_append hls).of_true _⟩
  obtain ⟨hseal, hend⟩ := hsealed u w hw hne hline
  cases hread : p (w ++ (Text.unlines ls ++ z)) with
  | none => rfl
  | some r =>
      obtain ⟨x, r₀, rfl, -, hagain⟩ := hp.read_of_isSealed hseal hread
      have hnone := hfirst u (x ++ r₀) hw hne hline
      rw [List.append_assoc, hagain z (hend.imp_right .inl)] at hnone
      cases hnone

end Shape

end Scaffold
