import Scaffold.Proofs.Anchor.Fallback
import Scaffold.Proofs.Import.Added
import Scaffold.Proofs.Import.Statements
import Scaffold.Proofs.Insertion.Presence
import Scaffold.Proofs.Insertion.Series

namespace Scaffold

open Text

namespace Shape

variable {q r q' r' : Char}

theorem split_quote {u v m n : Text} (hu : ∀ c ∈ u, isQuote c = false)
    (hv : ∀ c ∈ v, isQuote c = false) (hq : isQuote q = true) (hr : isQuote r = true)
    (h : u ++ q :: m = v ++ r :: n) : u = v ∧ m = n := by
  have hquote : ∀ {w m : Text} {q : Char}, (∀ c ∈ w, isQuote c = false) → isQuote q = true →
      (w ++ q :: m).takeWhile (!isQuote ·) = w := by
    intro w m q hw hq
    rw [List.takeWhile_append_of_pos fun c hc => by simp [hw c hc]]
    simp [hq]
  have huv : u = v := by rw [← hquote hu hq (m := m), h, hquote hv hr]
  subst huv
  exact ⟨rfl, (List.cons.inj (List.append_cancel_left h)).2⟩

theorem eq_of_isInfix_quoted {a x c s : Text} (ha : a.IsMute) (hx : x.IsMute) (hc : c.IsMute)
    (hs : s.IsMute) (hq : isQuote q = true) (hq' : isQuote q' = true) (hr : isQuote r = true)
    (hr' : isQuote r' = true) (h : q :: s ++ [q'] <:+: a ++ r :: x ++ r' :: c) : s = x := by
  obtain ⟨u, v, huv⟩ := h
  have hnone : ∀ {w : Text}, w.IsMute → w.countP isQuote = 0 := fun hw =>
    List.countP_eq_zero.2 fun c hc => by simp [(hw c hc).2]
  have hcount := congrArg (List.countP isQuote) huv
  simp only [List.countP_append, List.countP_cons, List.countP_nil, hnone ha, hnone hx, hnone hc,
    hnone hs, hq, hq', hr, hr', if_true] at hcount
  have hu : ∀ c ∈ u, isQuote c = false := by
    have hzero : u.countP isQuote = 0 := by omega
    simpa using List.countP_eq_zero.1 hzero
  have hline : u ++ q :: (s ++ q' :: v) = a ++ r :: (x ++ r' :: c) := by simpa using huv
  obtain ⟨-, hrest⟩ := split_quote hu (fun d hd => (ha d hd).2) hq hr hline
  exact (split_quote (fun d hd => (hs d hd).2) (fun d hd => (hx d hd).2) hq' hr' hrest).1

end Shape

structure IsRoutePath (path : Text) : Prop where
  mute : path.IsMute
  head : ∃ c u, path = '/' :: c :: u ∧ c ≠ '*'

/-- The lines that a registration of the path brings into a file. -/
inductive RouteLine (path : Text) : Text → Prop
  | empty : RouteLine path []
  | note {u : Text} (hu : u.IsMute) : RouteLine path ("// " ++ u)
  | module {u : Text} {q : Char} (hu : u.IsMute) (hq : Shape.isQuote q = true) :
      RouteLine path ("import " ++ u ++ q :: '.' :: path ++ [q, ';'])
  | handler {verb u : Text} (hverb : verb = "get" ∨ verb = "post") (hu : u.IsMute) :
      RouteLine path ("app." ++ verb ++ "('" ++ path ++ '\'' :: u)

theorem Text.IsMute.not_mem {t : Text} (h : t.IsMute) : '\n' ∉ t := fun hmem => (h _ hmem).1 rfl

theorem Text.isMute_nil : Text.IsMute [] := fun _ hc => nomatch hc

theorem Text.isMute_intercalate {sep : Text} {ps : List Text} (hsep : sep.IsMute)
    (hps : ∀ p ∈ ps, Text.IsMute p) : Text.IsMute (List.intercalate sep ps) := by
  intro c hc
  rcases mem_intercalate hc with hc | ⟨p, hp, hc⟩
  · exact hsep c hc
  · exact hps p hp c hc

namespace RouteLine

variable {path l : Text} {a : Anchor}

theorem shuns (hpath : IsRoutePath path) (ha : a ∈ FileKind.routes.anchors)
    (h : RouteLine path l) : a.shape.Shuns l := by
  have hnewline := hpath.mute.not_mem
  cases h with
  | empty => exact Anchor.shuns_nil ha
  | @note u hu =>
      have hline : Text.IsMute ("// " ++ u) := Text.IsMute.append (by decide) hu
      exact Anchor.shuns_of_opening ha (by decide) hline.not_mem
  | @module u q hu hq =>
      have hq' : '\n' ≠ q := by
        rintro rfl
        cases hq
      rw [List.append_assoc, List.append_assoc]
      refine Anchor.shuns_of_opening ha (by decide) ?_
      simp [hu.not_mem, hnewline, hq']
  | @handler verb u hverb hu =>
      obtain ⟨c, w, rfl, hc⟩ := hpath.head
      have hline : '\n' ∉ c :: w ++ '\'' :: u := by
        simp only [List.mem_cons, not_or] at hnewline
        simp [hnewline, hu.not_mem]
      rcases hverb with rfl | rfl
      · exact Anchor.shuns_get ha hc hline
      · have hopening := Anchor.shuns_of_opening (o := "app.post(") (l := "'/" ++ (c :: w ++ '\'' :: u))
          ha (by decide) (by simpa using hline)
        exact hopening

/-- Only the path itself is in quotes on these lines, and the module that is named after it. -/
theorem eq_of_isInfix (hpath : IsRoutePath path) (h : RouteLine path l) {s : Text} {q q' : Char}
    (hs : s.IsMute) (hq : Shape.isQuote q = true) (hq' : Shape.isQuote q' = true)
    (hin : q :: s ++ [q'] <:+: l) : s = path ∨ s = '.' :: path := by
  have hmute : ∀ {t : Text}, t.IsMute → ¬q :: s ++ [q'] <:+: t := by
    intro t ht hin
    rw [(ht q (hin.subset (by simp))).2] at hq
    cases hq
  cases h with
  | empty => exact absurd hin (hmute Text.isMute_nil)
  | @note u hu => exact absurd hin (hmute (Text.IsMute.append (by decide) hu))
  | @module u r hu hr =>
      have hopening : Text.IsMute ("import " ++ u) := Text.IsMute.append (by decide) hu
      have hsource : Text.IsMute ('.' :: path) := Text.IsMute.append (t := ['.']) (by decide) hpath.mute
      exact .inr (Shape.eq_of_isInfix_quoted hopening hsource (c := [';']) (by decide) hs hq hq' hr hr
        hin)
  | @handler verb u hverb hu =>
      have hopening : Text.IsMute ("app." ++ verb ++ ['(']) := by
        rcases hverb with rfl | rfl <;> decide
      have hin' : q :: s ++ [q'] <:+: "app." ++ verb ++ ['('] ++ '\'' :: path ++ '\'' :: u := by
        simpa using hin
      exact .inl (Shape.eq_of_isInfix_quoted hopening hpath.mute hu hs hq hq' rfl rfl hin')

end RouteLine

/-- The lines of one registration come into a text by two insertions: some into a seam, and some
before the fallback. -/
theorem Seam.exists_routed {path y z : Text} {ls ms : List Text} {a : Anchor} {k : Cut}
    (h : Seam y ls z) (hpath : IsRoutePath path) (hls : ∀ l ∈ ls, RouteLine path l)
    (hms : ∀ l ∈ ms, RouteLine path l) (hslash : (unlines ms).head? = some '/')
    (ha : a.IsFallback (y ++ z)) (hk : a.locate (y ++ z) = some k) :
    ∃ u k', splice (y ++ z) [.insert y (unlines ls), .insert k.before (unlines ms)] = .ok u ∧
      a.IsFallback u ∧ a.locate u = some k' ∧ a.shape.Moved ms k k' ∧
      Adds (RouteLine path) (y ++ z) u := by
  have hfirm : ∀ {b : Anchor}, b ∈ FileKind.routes.anchors → b.shape.IsFirm := Anchor.isFirm_shape
  have hshuns : ∀ {b : Anchor}, b ∈ FileKind.routes.anchors → ∀ l ∈ ls, b.shape.Shuns l :=
    fun hb l hl => (hls l hl).shuns hpath hb
  have hshuns' : ∀ {b : Anchor}, b ∈ FileKind.routes.anchors → ∀ l ∈ ms, b.shape.Shuns l :=
    fun hb l hl => (hms l hl).shuns hpath hb
  rw [Anchor.locate_eq_lastLine? ha.mem] at hk
  obtain ⟨⟨b, d⟩, hk₁, hmoved, hsplice⟩ := h.exists_moved (hfirm ha.mem) (hshuns ha.mem) hk
  obtain ⟨ht₁, hline, -, -⟩ := lastLine?_eq_some_iff.1 hk₁
  obtain ⟨hk₂, hmoved'⟩ := Shape.moved_of_block (hfirm ha.mem) (hshuns' ha.mem) hk₁
  refine ⟨b ++ (unlines ms ++ d), ⟨b ++ unlines ms, d⟩, hsplice _, ?_, ?_, hmoved.trans hmoved', ?_⟩
  · rw [Anchor.isFallback_iff] at ha ⊢
    refine ha.imp_right fun ⟨hexport, hmisses⟩ => ⟨hexport, ?_⟩
    have hcatch : Anchor.catchAllRoute ∈ FileKind.routes.anchors := List.mem_cons_self
    have hmisses₁ := h.misses (hfirm hcatch) (hshuns hcatch) (.inl rfl) hmisses
    rw [ht₁] at hmisses₁
    exact hmisses₁.block (hfirm hcatch) (hshuns' hcatch) hslash hline
  · rw [Anchor.locate_eq_lastLine? ha.mem]
    exact hk₂
  · have hadds : Adds (RouteLine path) (y ++ z) (b ++ d) := by
      rw [← ht₁]
      exact fun l hl => (h.adds (hshuns ha.mem) l hl).imp_right (hls l)
    refine hadds.trans fun l hl => ?_
    rw [Shape.splitOn_unlines_append (hshuns' ha.mem) hline, List.mem_append, List.mem_append] at hl
    rw [splitOn_append_of_beginsLine hline, List.mem_append]
    rcases hl with (hl | hl) | hl
    · exact .inl (.inl hl)
    · exact .inr (hms l hl)
    · exact .inl (.inr hl)

namespace Insertion

/-- The insertion registers handlers for a path. Its mark is the path in quotes, and it imports the
handlers from the module that is named after the path. -/
structure Registers (i : Insertion) (path : Text) : Prop where
  own : IsRoutePath path
  kind : i.kind = .routes
  markers : i.markers = ['\'' :: path ++ ['\'']]
  imports : ∃ names, (∀ name ∈ names, Text.IsMute name) ∧ i.imports = [⟨'.' :: path, names, false⟩]
  block : ∃ lines, i.block = unlines lines ∧ (∀ l ∈ lines, RouteLine path l) ∧
    (unlines lines).head? = some '/'

structure IsNew (i : Insertion) (t : Text) : Prop where
  absent : i.isPresent t = false
  modules : ∀ r ∈ i.imports, ∀ q q', Shape.isQuote q = true → Shape.isQuote q' = true →
    ¬q :: r.source ++ [q'] <:+: t

variable {i j : Insertion} {path path' t u : Text} {a : Anchor} {k : Cut}

/-- A registration is new where a part of its path does not occur. -/
theorem Registers.isNew_of_isInfix (h : i.Registers path) {s : Text} (hs : s <:+: path)
    (ht : ¬s <:+: t) : i.IsNew t := by
  constructor
  · rw [← Bool.not_eq_true, isPresent_iff, h.markers]
    rintro ⟨m, hm, hin⟩
    rw [List.mem_singleton.1 hm] at hin
    exact ht ((hs.trans ⟨['\''], ['\''], rfl⟩).trans hin)
  · intro r hr q q' _ _ hin
    obtain ⟨names, -, himports⟩ := h.imports
    rw [himports] at hr
    rw [List.mem_singleton.1 hr] at hin
    exact ht ((hs.trans ⟨[q, '.'], [q'], by simp⟩).trans hin)

theorem statements_eq_nil {source : Text} (h : ∀ q q', Shape.isQuote q = true →
    Shape.isQuote q' = true → ¬q :: source ++ [q'] <:+: t) : Import.statements source t = [] := by
  rw [List.eq_nil_iff_forall_not_mem]
  intro f hf
  obtain ⟨s, -⟩ := Import.exists_of_mem_statements hf
  refine h s.opening s.closing s.quotes.1 s.quotes.2 ⟨s.above ++ "import" ++ s.gap ++
    Import.typeWord s.typeGap ++ '{' :: s.body ++ "\x7d" ++ s.fromGap ++ "from" ++ s.quoteGap,
    s.below, ?_⟩
  conv => rhs; rw [s.whole]
  simp

/-- What registers one path says nothing of another. -/
theorem IsNew.of_adds (h : j.IsNew t) (hj : j.Registers path') (hpath : IsRoutePath path)
    (hne : path' ≠ path) (hadds : Adds (RouteLine path) t u) : j.IsNew u := by
  have hquoted : ∀ {s : Text} {q q' : Char}, s.IsMute → Shape.isQuote q = true →
      Shape.isQuote q' = true → s ≠ path → s ≠ '.' :: path → ¬q :: s ++ [q'] <:+: t →
      ¬q :: s ++ [q'] <:+: u := by
    intro s q q' hs hq hq' hpath' hsource ht hin
    have hline : '\n' ∉ q :: s ++ [q'] := by
      have hchar : ∀ {c : Char}, Shape.isQuote c = true → '\n' ≠ c := by
        rintro c hc rfl
        cases hc
      simp [hs.not_mem, hchar hq, hchar hq']
    obtain ⟨l, hl, hlin⟩ := exists_mem_splitOn hin hline
    rcases hadds l hl with hl | hl
    · exact ht (hlin.trans (isInfix_of_mem_splitOn hl))
    · exact (hl.eq_of_isInfix hpath hs hq hq' hlin).elim hpath' hsource
  obtain ⟨c, w, rfl, -⟩ := hj.own.head
  obtain ⟨d, v, rfl, -⟩ := hpath.head
  constructor
  · rw [← Bool.not_eq_true, isPresent_iff, hj.markers]
    rintro ⟨m, hm, hin⟩
    rw [List.mem_singleton.1 hm] at hin
    refine hquoted hj.own.mute rfl rfl hne (by simp) ?_ hin
    intro ht
    have habsent := h.absent
    rw [← Bool.not_eq_true, isPresent_iff, hj.markers] at habsent
    exact habsent ⟨_, List.mem_singleton_self _, ht⟩
  · intro r hr q q' hq hq'
    have hmodules := h.modules r hr q q' hq hq'
    obtain ⟨names, -, himports⟩ := hj.imports
    rw [himports] at hr
    rw [List.mem_singleton.1 hr] at hmodules ⊢
    refine hquoted (Text.IsMute.append (t := ['.']) (by decide) hj.own.mute) hq hq' (by simp) ?_
      hmodules
    simpa using hne

theorem Registers.plan?_eq (h : i.Registers path) (hnew : i.IsNew t) :
    ∃ r : ImportRequest, r.source = '.' :: path ∧ Text.IsMute r.clause ∧
      i.imports.filterMap (·.plan? t) = [r.addStatement t] := by
  obtain ⟨names, hnames, himports⟩ := h.imports
  refine ⟨⟨'.' :: path, names, false⟩, rfl, ?_, ?_⟩
  · have hcomma : Text.IsMute ", " := by decide
    have hjoin := Text.isMute_intercalate hcomma hnames
    have hopening : Text.IsMute "\x7b " := by decide
    exact (hopening.append hjoin).append (u := " \x7d from ") (by decide)
  · have hnone : Import.statements ('.' :: path) t = [] :=
      statements_eq_nil (hnew.modules _ (by rw [himports]; exact List.mem_singleton_self _))
    rw [himports, List.filterMap_cons, ImportRequest.plan?, hnone]
    rfl

theorem Registers.plan_eq (h : i.Registers path) (ha : a.IsFallback t) (hnew : i.IsNew t)
    (hk : a.locate t = some k) :
    i.plan t = .edits (i.imports.filterMap (·.plan? t) ++ [.insert k.before (i.block ++ "\n")]) a
      none := by
  have hplace : i.place? t = some (a, k) := by
    rcases ha with rfl | ⟨rfl, hnone⟩
    · simp [place?, h.kind, FileKind.anchors, FileKind.mainAnchor, hk]
    · simp [place?, h.kind, FileKind.anchors, FileKind.mainAnchor, hk, hnone]
  have hfragment : i.fragmentEdits k = [.insert k.before (i.block ++ "\n")] := by
    have hempty : k.after.isEmpty = false := by
      simpa using Anchor.after_ne_nil_of_locate ha.mem hk
    rw [fragmentEdits, h.kind]
    simp [hempty]
  have hmem : a ∈ i.kind.anchors := by
    rw [h.kind]
    exact ha.mem
  rw [plan, hnew.absent, hplace]
  simp [hmem, hfragment]

/-- One registration leaves the fallback the last of its shape, with the registration above it. -/
theorem Registers.step (h : i.Registers path) (ha : a.IsFallback t) (hnew : i.IsNew t)
    (hk : a.locate t = some k) : ∃ edits u k', i.plan t = .edits edits a none ∧
      splice t edits = .ok u ∧ a.IsFallback u ∧ a.locate u = some k' ∧
      a.shape.Moved (ended i.block) k k' ∧ Adds (RouteLine path) t u := by
  obtain ⟨lines, hblock, hlines, hslash⟩ := h.block
  obtain ⟨r, hsource, hclause, hrequest⟩ := h.plan?_eq hnew
  obtain ⟨y, z, ls, rfl, hadd, hseam, hls, -⟩ := r.exists_seam t
  have hroute : ∀ l ∈ ls, RouteLine path l := by
    intro l hl
    rcases hls l hl with rfl | ⟨q, hq, rfl⟩
    · exact .empty
    · rw [r.line_eq, hsource]
      exact .module hclause hq
  have hroute' : ∀ l ∈ lines ++ [[]], RouteLine path l := by
    intro l hl
    rcases List.mem_append.1 hl with hl | hl
    · exact hlines l hl
    · rw [List.mem_singleton.1 hl]
      exact .empty
  have hslash' : (unlines (lines ++ [[]])).head? = some '/' := by
    rw [unlines_append, List.head?_append, hslash, Option.some_or]
  have hnewblock : i.block ++ "\n" = unlines (lines ++ [[]]) := by
    rw [hblock, unlines_append]
    rfl
  have hplan := h.plan_eq ha hnew hk
  rw [hrequest, hadd, hnewblock] at hplan
  obtain ⟨u, k', hsplice, ha', hk', hmoved, hadds⟩ :=
    hseam.exists_routed h.own hroute hroute' hslash' ha hk
  refine ⟨_, u, k', hplan, hsplice, ha', hk', hmoved.of_sublist ?_, hadds⟩
  rw [hblock, ended_unlines fun l hl => ((hlines l hl).shuns h.own ha.mem).line]
  exact List.sublist_append_left lines [[]]

theorem Registers.markers_ne (hi : i.Registers path) (hj : j.Registers path')
    (h : j.markers ≠ i.markers) : path' ≠ path := by
  rintro rfl
  rw [hi.markers, hj.markers] at h
  exact h rfl

/-- Registrations of different paths, none of which a text has, all go before its fallback, in their
order. -/
theorem exists_made_of_registers {is : List Insertion} (his : ∀ i ∈ is, ∃ path, i.Registers path)
    (hmarkers : (is.map (·.markers)).Nodup) (hnew : ∀ i ∈ is, i.IsNew t) (ha : a.IsFallback t)
    (hk : a.locate t = some k) : ∃ v k', Made a is t v ∧ a.IsFallback v ∧ a.locate v = some k' ∧
      a.shape.Moved (is.flatMap fun i => ended i.block) k k' := by
  induction is generalizing t k with
  | nil =>
      have hsome := Anchor.isSome_shape_of_locate ha.mem hk
      exact ⟨t, k, .nil t, ha, hk, (Anchor.isFirm_shape ha.mem).moved_refl hsome⟩
  | cons i is ih =>
      obtain ⟨path, hi⟩ := his i List.mem_cons_self
      obtain ⟨edits, u, k₁, hplan, hsplice, ha', hk₁, hmoved, hadds⟩ :=
        hi.step ha (hnew i List.mem_cons_self) hk
      obtain ⟨hfirst, hrest⟩ := List.nodup_cons.1 hmarkers
      have hnew' : ∀ j ∈ is, j.IsNew u := by
        intro j hj
        obtain ⟨path', hregisters⟩ := his j (List.mem_cons_of_mem i hj)
        have hne : j.markers ≠ i.markers := fun h => hfirst (List.mem_map.2 ⟨j, hj, h⟩)
        exact (hnew j (List.mem_cons_of_mem i hj)).of_adds hregisters hi.own
          (hi.markers_ne hregisters hne) hadds
      obtain ⟨v, k₂, hmade, ha₂, hk₂, hmoved'⟩ :=
        ih (fun j hj => his j (List.mem_cons_of_mem i hj)) hrest hnew' ha' hk₁
      exact ⟨v, k₂, .cons hplan hsplice hmade, ha₂, hk₂, hmoved.trans hmoved'⟩

end Insertion

end Scaffold
