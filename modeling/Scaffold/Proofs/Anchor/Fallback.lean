import Scaffold.Insertion.Basic
import Scaffold.Proofs.Anchor.LastLine

namespace Scaffold

def Text.IsMute (t : Text) : Prop := ∀ c ∈ t, c ≠ '\n' ∧ Shape.isQuote c = false

instance (t : Text) : Decidable t.IsMute :=
  decidable_of_iff (t.all (fun c => c != '\n' && !Shape.isQuote c) = true) (by
    simp [Text.IsMute])

theorem Text.IsMute.append {t u : Text} (ht : t.IsMute) (hu : u.IsMute) : (t ++ u).IsMute :=
  fun c hc => (List.mem_append.1 hc).elim (ht c) (hu c)

namespace Shape

variable {p : Char → Bool} {t r g : Text}

theorem isQuote_eq_false {c : Char} (hp : p '\'' = false ∧ p '"' = false) (h : p c = true) :
    isQuote c = false := by
  by_contra hq
  rw [Bool.not_eq_false, isQuote, Bool.or_eq_true, beq_iff_eq, beq_iff_eq] at hq
  rcases hq with rfl | rfl
  · rw [hp.1] at h
    cases h
  · rw [hp.2] at h
    cases h

theorem isQuote_of_isBlank {c : Char} (h : isBlank c = true) : isQuote c = false :=
  isQuote_eq_false (by decide) h

theorem isQuote_of_isWord {c : Char} (h : isWord c = true) : isQuote c = false :=
  isQuote_eq_false (by decide) h

theorem isTight_of_not_mem (h : '\n' ∉ t) : IsTight t := by
  rintro y b rfl
  simp at h

theorem isTight_around {u v : Text} (hu : u.IsMute) (hg : ∀ c ∈ g, isBlank c = true)
    (hv : '\n' ∉ v) (hhead : ∃ c, v.head? = some c ∧ c ≠ '/') :
    IsTight (u ++ (g ++ v)) := by
  have hmiddle : ∀ a b, g ++ v = a ++ '\n' :: b →
      (∀ c ∈ a, isQuote c = false) ∧ ∃ c, b.head? = some c ∧ c ≠ '/' := by
    intro a b hab
    rcases List.append_eq_append_iff.1 hab with ⟨w, rfl, rfl⟩ | ⟨w, rfl, hw⟩
    · simp at hv
    · refine ⟨fun c hc => isQuote_of_isBlank (hg c (List.mem_append_left w hc)), ?_⟩
      cases w with
      | nil => simp [← show '\n' :: b = v from hw] at hv
      | cons c w =>
          obtain ⟨rfl, rfl⟩ := List.cons.inj hw
          cases w with
          | nil => exact hhead
          | cons d w =>
              refine ⟨d, rfl, ?_⟩
              rintro rfl
              exact absurd (hg '/' (by simp)) (by decide)
  intro y b hyb
  rcases List.append_eq_append_iff.1 hyb with ⟨a, rfl, hab⟩ | ⟨c, rfl, hc⟩
  · obtain ⟨hquote, hslash⟩ := hmiddle a b hab
    refine ⟨fun c hc => ?_, hslash⟩
    rcases List.mem_append.1 hc with hc | hc
    · exact (hu c hc).2
    · exact hquote c hc
  · cases c with
    | nil =>
        obtain ⟨-, hslash⟩ := hmiddle [] b hc.symm
        exact ⟨fun c hc => (hu c (List.mem_append_left _ hc)).2, hslash⟩
    | cons c w =>
        obtain ⟨rfl, -⟩ := List.cons.inj hc
        exact absurd rfl (hu '\n' (by simp)).1

theorem eq_indent (t : Text) : ∃ g, (∀ c ∈ g, c = ' ' ∨ c = '\t') ∧ t = g ++ indent t := by
  refine ⟨t.takeWhile fun c => c == ' ' || c == '\t', fun c hc => ?_, ?_⟩
  · simpa using List.mem_takeWhile_imp hc
  · rw [indent, List.takeWhile_append_dropWhile]

theorem indent_append (hg : ∀ c ∈ g, c = ' ' ∨ c = '\t')
    (ht : ∃ c, t.head? = some c ∧ c ≠ ' ' ∧ c ≠ '\t') : indent (g ++ t) = t := by
  obtain ⟨c, hc, hne⟩ := ht
  rw [indent, List.dropWhile_append_of_pos (by simpa using hg)]
  obtain ⟨u, rfl⟩ := List.head?_eq_some_iff.1 hc
  exact List.dropWhile_cons_of_neg (by simpa using hne)

def IsStarPath (x : Text) : Prop :=
  ∃ (g : Text) (q : Char) (s : Text) (q' : Char), x = g ++ q :: s ++ '*' :: [q'] ∧
    (∀ c ∈ g, isBlank c = true) ∧ isLiteralQuote q = true ∧ (s = [] ∨ s = ['/']) ∧
    isLiteralQuote q' = true

theorem starPath_eq_some_iff : starPath t = some r ↔ ∃ x, t = x ++ r ∧ IsStarPath x := by
  simp only [starPath, Option.bind_eq_bind, Option.bind_eq_some_iff]
  constructor
  · rintro ⟨t₁, h₁, t₂, h₂, h₃⟩
    obtain ⟨g, hg, ht⟩ := eq_blanks t
    obtain ⟨q, hq, hblanks⟩ := eq_of_one h₁
    obtain ⟨q', hq', rfl⟩ := eq_of_one h₃
    have hstar := eq_of_literal h₂
    cases hs : literal "/" t₁ with
    | none =>
        rw [hs, Option.getD_none] at hstar
        refine ⟨g ++ q :: [] ++ '*' :: [q'], ?_, g, q, [], q', rfl, hg, hq, .inl rfl, hq'⟩
        rw [ht, hblanks, hstar]
        simp
    | some u =>
        rw [hs, Option.getD_some] at hstar
        refine ⟨g ++ q :: ['/'] ++ '*' :: [q'], ?_, g, q, _, q', rfl, hg, hq, .inr rfl, hq'⟩
        rw [ht, hblanks, eq_of_literal hs, hstar]
        simp
  · rintro ⟨x, rfl, g, q, s, q', rfl, hg, hq, hs, hq'⟩
    have hblank : isBlank q = false := by
      rw [isLiteralQuote, isQuote, Bool.or_eq_true, Bool.or_eq_true] at hq
      simp only [beq_iff_eq] at hq
      rcases hq with (rfl | rfl) | rfl <;> decide
    have hblanks : blanks (g ++ q :: s ++ '*' :: [q'] ++ r) = q :: (s ++ '*' :: q' :: r) := by
      rw [blanks, Text.trimStart, List.append_assoc, List.append_assoc,
        List.dropWhile_append_of_pos hg]
      simp [hblank]
    have hslash : (literal "/" (s ++ '*' :: q' :: r)).getD (s ++ '*' :: q' :: r) =
        "*".toList ++ q' :: r := by
      rcases hs with rfl | rfl <;> rfl
    refine ⟨s ++ '*' :: q' :: r, by rw [hblanks, one, if_pos hq], q' :: r, ?_, ?_⟩
    · rw [hslash, literal_append]
    · rw [one, if_pos hq']

def IsStarCall (x : Text) : Prop :=
  x = "notFound(".toList ∨ ∃ verb path : Text, x = verb ++ path ∧
    (verb = "get(" ∨ verb = "all(") ∧ IsStarPath path

theorem starCall_eq_some_iff : ((literal "get(" t).bind starPath).or
    (((literal "all(" t).bind starPath).or (literal "notFound(" t)) = some r ↔
      ∃ x, t = x ++ r ∧ IsStarCall x := by
  constructor
  · intro h
    have hverb : ∀ {verb : Text}, (literal verb t).bind starPath = some r →
        (verb = "get(" ∨ verb = "all(") → ∃ x, t = x ++ r ∧ IsStarCall x := by
      intro verb h hverb
      obtain ⟨u, hu, hpath⟩ := Option.bind_eq_some_iff.1 h
      obtain ⟨path, rfl, hstar⟩ := starPath_eq_some_iff.1 hpath
      refine ⟨verb ++ path, ?_, .inr ⟨verb, path, rfl, hverb, hstar⟩⟩
      rw [eq_of_literal hu, List.append_assoc]
    rcases Option.or_eq_some_iff.1 h with h | ⟨-, h⟩
    · exact hverb h (.inl rfl)
    rcases Option.or_eq_some_iff.1 h with h | ⟨-, h⟩
    · exact hverb h (.inr rfl)
    · exact ⟨_, eq_of_literal h, .inl rfl⟩
  · rintro ⟨x, rfl, rfl | ⟨verb, path, rfl, hverb, hpath⟩⟩
    · rw [literal_append]
      rfl
    · have hread : starPath (path ++ r) = some r := starPath_eq_some_iff.2 ⟨path, rfl, hpath⟩
      rw [List.append_assoc]
      rcases hverb with rfl | rfl
      · rw [literal_append, Option.bind_some, hread, Option.some_or]
      · have hget : literal "get(" ("all(".toList ++ (path ++ r)) = none := rfl
        rw [hget, literal_append, Option.bind_some, hread]
        rfl

theorem catchAllRoute_eq_some_iff : catchAllRoute t = some r ↔ ∃ g word call, t = g ++ word ++
    '.' :: call ++ r ∧ (∀ c ∈ g, c = ' ' ∨ c = '\t') ∧ (word ≠ [] ∧ ∀ c ∈ word, isWord c = true) ∧
      IsStarCall call := by
  simp only [catchAllRoute, Option.bind_eq_bind, Option.bind_eq_some_iff]
  constructor
  · rintro ⟨t₁, h₁, t₂, h₂, h₃⟩
    obtain ⟨g, hg, ht⟩ := eq_indent t
    obtain ⟨word, hne, hword, hindent⟩ := eq_of_many h₁
    obtain ⟨call, rfl, hcall⟩ := starCall_eq_some_iff.1 h₃
    refine ⟨g, word, call, ?_, hg, ⟨hne, hword⟩, hcall⟩
    rw [ht, hindent, eq_of_literal h₂]
    simp
  · rintro ⟨g, word, call, rfl, hg, ⟨hne, hword⟩, hcall⟩
    have hindent : indent (g ++ word ++ '.' :: call ++ r) = word ++ ".".toList ++ (call ++ r) := by
      have hhead : ∃ c, (word ++ ".".toList ++ (call ++ r)).head? = some c ∧ c ≠ ' ' ∧ c ≠ '\t' := by
        obtain ⟨c, word, rfl⟩ := List.exists_cons_of_ne_nil hne
        have hc := hword c List.mem_cons_self
        refine ⟨c, rfl, ?_, ?_⟩ <;> rintro rfl <;> exact absurd hc (by decide)
      rw [← indent_append hg hhead]
      simp
    refine ⟨".".toList ++ (call ++ r), ?_, call ++ r, literal_append _ _,
      starCall_eq_some_iff.2 ⟨call, rfl, hcall⟩⟩
    rw [hindent, List.append_assoc]
    have hdot : isWord '.' = false := by decide
    exact many_append hne hword hdot

theorem defaultExport_eq_some_iff : defaultExport t = some r ↔ ∃ g g', t = g ++ "export" ++ (g' ++
    "default".toList) ++ r ∧ (∀ c ∈ g, c = ' ' ∨ c = '\t') ∧ (g' ≠ [] ∧ ∀ c ∈ g', isBlank c = true) ∧
      r.head?.any isWord = false := by
  simp only [defaultExport, Option.bind_eq_bind, Option.bind_eq_some_iff]
  constructor
  · rintro ⟨t₁, h₁, t₂, h₂, t₃, h₃, h⟩
    split at h
    · cases h
    · next hend =>
        cases h
        obtain ⟨g, hg, ht⟩ := eq_indent t
        obtain ⟨g', hne, hg', rfl⟩ := eq_of_many h₂
        refine ⟨g, g', ?_, hg, ⟨hne, hg'⟩, by simpa using hend⟩
        rw [ht, eq_of_literal h₁, eq_of_literal h₃]
        simp
  · rintro ⟨g, g', rfl, hg, ⟨hne, hg'⟩, hend⟩
    have hindent : indent (g ++ "export" ++ (g' ++ "default".toList) ++ r) =
        "export".toList ++ (g' ++ ("default".toList ++ r)) := by
      have hhead : ∃ c, ("export".toList ++ (g' ++ ("default".toList ++ r))).head? = some c ∧
          c ≠ ' ' ∧ c ≠ '\t' := ⟨'e', rfl, by decide, by decide⟩
      rw [← indent_append hg hhead]
      simp
    have hletter : isBlank 'd' = false := by decide
    refine ⟨_, by rw [hindent, literal_append], _,
      many_append (r := "default".toList ++ r) hne hg' hletter, r, literal_append _ _, ?_⟩
    rw [hend]
    rfl

theorem isFirm_catchAllRoute : IsFirm catchAllRoute := by
  refine ⟨rfl, fun {t r} h => ?_⟩
  obtain ⟨g, word, call, rfl, hg, hword, hcall⟩ := catchAllRoute_eq_some_iff.1 h
  refine ⟨g ++ word ++ '.' :: call, rfl, ?_, fun r' _ =>
    catchAllRoute_eq_some_iff.2 ⟨g, word, call, rfl, hg, hword, hcall⟩⟩
  have hopening : (g ++ word ++ ['.']).IsMute := by
    intro c hc
    simp only [List.mem_append, List.mem_singleton] at hc
    rcases hc with (hc | hc) | rfl
    · rcases hg c hc with rfl | rfl <;> decide
    · refine ⟨?_, isQuote_of_isWord (hword.2 c hc)⟩
      rintro rfl
      exact absurd (hword.2 '\n' hc) (by decide)
    · decide
  have hsplit : g ++ word ++ '.' :: call = g ++ word ++ ['.'] ++ call := List.append_cons _ _ _
  rw [hsplit]
  rcases hcall with rfl | ⟨verb, path, rfl, hname, b, q, s, q', rfl, hb, hq, hs, hq'⟩
  · have hmute := hopening.append (u := "notFound(") (by decide)
    exact isTight_of_not_mem fun hmem => (hmute '\n' hmem).1 rfl
  · have hnewline : isLiteralQuote '\n' = false := by decide
    have hslash : isLiteralQuote '/' = false := by decide
    have hlast : '\n' ∉ q :: s ++ '*' :: [q'] := by
      rw [List.cons_append, List.mem_cons, List.mem_append, not_or, not_or]
      refine ⟨?_, by rcases hs with rfl | rfl <;> decide, ?_⟩
      · rintro rfl
        rw [hnewline] at hq
        cases hq
      · rw [List.mem_cons, List.mem_singleton, not_or]
        refine ⟨by decide, ?_⟩
        rintro rfl
        rw [hnewline] at hq'
        cases hq'
    have hhead : ∃ c, (q :: s ++ '*' :: [q']).head? = some c ∧ c ≠ '/' := by
      refine ⟨q, rfl, ?_⟩
      rintro rfl
      rw [hslash] at hq
      cases hq
    have hverb : verb.IsMute := by rcases hname with rfl | rfl <;> decide
    have htight := isTight_around (hopening.append hverb) hb hlast hhead
    simpa using htight

theorem isFirm_defaultExport : IsFirm defaultExport := by
  refine ⟨rfl, fun {t r} h => ?_⟩
  obtain ⟨g, g', rfl, hg, hg', hend⟩ := defaultExport_eq_some_iff.1 h
  refine ⟨g ++ "export" ++ (g' ++ "default".toList), rfl, ?_, fun r' hr' =>
    defaultExport_eq_some_iff.2 ⟨g, g', rfl, hg, hg', ?_⟩⟩
  · have hindent : g.IsMute := fun c hc => by rcases hg c hc with rfl | rfl <;> decide
    exact isTight_around (hindent.append (by decide)) hg'.2 (by decide) ⟨'d', rfl, by decide⟩
  · rcases hr' with hhead | rfl | hhead
    · rwa [hhead]
    · rfl
    · rw [hhead]
      decide

end Shape

theorem FileKind.mem_anchors_routes {a : Anchor} :
    a ∈ routes.anchors ↔ a = .catchAllRoute ∨ a = .defaultExport := by
  simp [anchors, mainAnchor]

namespace Anchor

def shape : Anchor → Shape
  | catchAllRoute => Shape.catchAllRoute
  | defaultExport => Shape.defaultExport
  | _ => fun _ => none

/-- The anchor before which routes go in a text: the last route for every request, or where there is
none the last default export. -/
def IsFallback (a : Anchor) (t : Text) : Prop :=
  a = catchAllRoute ∨ a = defaultExport ∧ locate t catchAllRoute = none

variable {a : Anchor} {t : Text}

theorem IsFallback.mem (h : a.IsFallback t) : a ∈ FileKind.routes.anchors :=
  FileKind.mem_anchors_routes.2 (h.imp_right And.left)

theorem isFallback_iff : a.IsFallback t ↔
    a = catchAllRoute ∨ a = defaultExport ∧ catchAllRoute.shape.Misses true t :=
  or_congr_right (and_congr_right fun _ => Text.lastLine?_eq_none_iff)

theorem locate_eq_lastLine? (ha : a ∈ FileKind.routes.anchors) :
    a.locate t = Text.lastLine? (fun r => (a.shape r).isSome) t := by
  rcases FileKind.mem_anchors_routes.1 ha with rfl | rfl <;> rfl

theorem isFirm_shape (ha : a ∈ FileKind.routes.anchors) : a.shape.IsFirm := by
  rcases FileKind.mem_anchors_routes.1 ha with rfl | rfl
  · exact Shape.isFirm_catchAllRoute
  · exact Shape.isFirm_defaultExport

theorem isSome_shape_of_locate {k : Cut} (ha : a ∈ FileKind.routes.anchors)
    (h : a.locate t = some k) : (a.shape k.after).isSome = true := by
  rw [locate_eq_lastLine? ha] at h
  exact (Text.lastLine?_eq_some_iff.1 h).2.2.1

theorem after_ne_nil_of_locate {k : Cut} (ha : a ∈ FileKind.routes.anchors)
    (h : a.locate t = some k) : k.after ≠ [] := by
  intro hnil
  have hsome := isSome_shape_of_locate ha h
  rw [hnil, (isFirm_shape ha).nil] at hsome
  cases hsome

def plainOpenings : List Text := ["import ", "// ", "app.post("]

theorem shuns_of_opening {o l : Text} (ha : a ∈ FileKind.routes.anchors) (ho : o ∈ plainOpenings)
    (hl : '\n' ∉ o ++ l) : a.shape.Shuns (o ++ l) := by
  refine ⟨hl, fun z => ?_⟩
  simp only [plainOpenings, List.mem_cons, List.not_mem_nil, or_false] at ho
  rw [List.append_assoc]
  rcases FileKind.mem_anchors_routes.1 ha with rfl | rfl <;> rcases ho with rfl | rfl | rfl <;> rfl

theorem shuns_nil (ha : a ∈ FileKind.routes.anchors) : a.shape.Shuns [] := by
  refine ⟨by simp, fun z => ?_⟩
  rcases FileKind.mem_anchors_routes.1 ha with rfl | rfl <;> rfl

theorem shuns_get {c : Char} {l : Text} (ha : a ∈ FileKind.routes.anchors) (hc : c ≠ '*')
    (hl : '\n' ∉ c :: l) : a.shape.Shuns ("app.get('/" ++ c :: l) := by
  refine ⟨by simp at hl ⊢; exact hl, fun z => ?_⟩
  rw [List.append_assoc]
  rcases FileKind.mem_anchors_routes.1 ha with rfl | rfl
  · have hstar : Shape.starPath ("'/".toList ++ (c :: l ++ '\n' :: z)) = none := by
      change (Shape.literal "*" (c :: (l ++ '\n' :: z))).bind _ = none
      simp [Shape.literal, Ne.symm hc]
    change (Shape.starPath ("'/".toList ++ (c :: l ++ '\n' :: z))).or none = none
    rw [hstar]
    rfl
  · rfl

end Anchor

end Scaffold
