import Scaffold.Proofs.Import.Bindings
import Scaffold.Proofs.Text.Comments

namespace Scaffold

open Text

namespace Text

theorem trim_append_blank {a x b : Text} (ha : ∀ c ∈ a, isBlank c = true)
    (hb : ∀ c ∈ b, isBlank c = true) : trim (a ++ x ++ b) = trim x := by
  rw [trim, trimStart, List.append_assoc, List.dropWhile_append_of_pos ha, List.dropWhile_append]
  split
  · next h =>
      have hx : x.dropWhile isBlank = [] := by simpa using h
      rw [List.dropWhile_eq_nil_iff.2 hb, trim, trimStart, hx]
  · rw [trimEnd, dropEndWhile_append_of_all hb, trim, trimStart, trimEnd]

theorem exists_pad (t : Text) : ∃ a b, t = a ++ trim t ++ b ∧ (∀ c ∈ a, isBlank c = true) ∧
    ∀ c ∈ b, isBlank c = true := by
  obtain ⟨b, hb, hblank⟩ := trimEnd_split (t.dropWhile isBlank)
  refine ⟨t.takeWhile isBlank, b, ?_, fun c hc => List.mem_takeWhile_imp hc, hblank⟩
  rw [List.append_assoc, trim, trimStart, ← hb, List.takeWhile_append_dropWhile]

end Text

namespace Import

theorem pieceEntries_append (x y : Text) :
    pieceEntries (x ++ ',' :: y) = pieceEntries x ++ pieceEntries y := by
  rw [pieceEntries, List.splitOn_append_cons_self, List.map_append, List.filter_append]
  rfl

theorem pieceEntries_of_not_mem {x : Text} (h : ',' ∉ x) :
    pieceEntries x = if (trim x).isEmpty then [] else [trim x] := by
  rw [pieceEntries, List.splitOn_eq_singleton h, List.map_singleton, List.filter_singleton]
  cases (trim x).isEmpty <;> rfl

theorem pieceEntries_lead {a : Text} (ha : ∀ c ∈ a, isBlank c = true) (x : Text) :
    pieceEntries (a ++ x) = pieceEntries x := by
  have htrim : ∀ u : Text, trim (a ++ u) = trim u := fun u => by
    simpa using trim_append_blank (x := u) (b := []) ha (by simp)
  by_cases hx : ',' ∈ x
  · obtain ⟨u, w, rfl, hu⟩ := List.eq_append_cons_of_mem hx
    rw [← List.append_assoc, pieceEntries_append, pieceEntries_append, pieceEntries_of_not_mem hu,
      pieceEntries_of_not_mem (not_mem_append_of_blank ha hu), htrim]
  · rw [pieceEntries_of_not_mem hx, pieceEntries_of_not_mem (not_mem_append_of_blank ha hx), htrim]

theorem pieceEntries_trail {b : Text} (hb : ∀ c ∈ b, isBlank c = true) (x : Text) :
    pieceEntries (x ++ b) = pieceEntries x := by
  induction hn : x.length using Nat.strong_induction_on generalizing x with
  | h n ih =>
      by_cases hx : ',' ∈ x
      · obtain ⟨u, w, rfl, -⟩ := List.eq_append_cons_of_mem hx
        have hlength : w.length < n := by
          rw [← hn, List.length_append, List.length_cons]
          omega
        rw [List.append_assoc, List.cons_append, pieceEntries_append, pieceEntries_append,
          ih w.length hlength w rfl]
      · have htrim : trim (x ++ b) = trim x := trim_append_blank (a := []) (by simp) hb
        have hxb : ',' ∉ x ++ b := by
          rw [List.mem_append, not_or]
          exact ⟨hx, fun h => absurd (hb _ h) (by decide)⟩
        rw [pieceEntries_of_not_mem hx, pieceEntries_of_not_mem hxb, htrim]

/-- The entries of a list as code has them, without the comments. -/
def codeEntries (list : Text) : List Text := pieceEntries (uncomment .code (inner list))

def Found.named (f : Found) : List Text := (codeEntries f.list).map binding

/-- Where the next piece of a list begins: behind a comma of the code, in a comment that some code of
the same entry stands before, or in a comment up to the end of its line that no code stands before. -/
inductive Standing
  | fresh
  | within (code : Text)
  | remark
deriving DecidableEq, Repr

namespace Standing

def place : Standing → Place
  | fresh => .code
  | within _ => .block
  | remark => .line

def code : Standing → Text
  | within code => code
  | _ => []

def upTo (s : Standing) (piece : Text) : Text := s.code ++ uncomment s.place (trim piece)

/-- Where a piece stands in a list that is written anew, where every comma ends a line. -/
def written : Standing → Standing
  | remark => fresh
  | s => s

/-- Where a piece stands in both lists. A comment up to the end of the line must have ended before it,
or else what it says would become code. -/
def begin? (s : Standing) (piece : Text) : Option Standing :=
  match s with
  | remark => if '\n' ∈ indent piece then some fresh else none
  | s => some s

/-- Where the next piece begins, unless the comma that is written behind a piece would be missed in a
comment: the piece has code and then a comment up to the end of the line, or the line does not end. -/
def next? (list : Text) (s : Standing) (piece : Text) : Option Standing := do
  let s ← s.begin? piece
  match placeAfter s.place (trim piece) with
  | .code => some .fresh
  | .block => some (.within (s.upTo piece))
  | .line =>
    if isBlankText (s.upTo piece) && '\n' ∈ list then
      some (if placeAfter s.place piece = .code then .fresh else .remark)
    else none

def isParted (s : Standing) (list piece : Text) : Bool :=
  match placeAfter s.place (trim piece) with
  | .code => true
  | .block => false
  | .line => isBlankText (s.upTo piece) && '\n' ∈ list

def entries (s : Standing) (t : Text) : List Text := pieceEntries (s.code ++ uncomment s.place t)

variable {s s' : Standing} {a b p x y : Text}

theorem entries_fresh (x : Text) : fresh.entries x = pieceEntries (uncomment .code x) := rfl

theorem entries_remark (x : Text) : remark.entries x = pieceEntries (uncomment .line x) := rfl

theorem entries_blank (hs : s ≠ remark) (ha : ∀ c ∈ a, isBlank c = true) (x : Text) :
    s.entries (a ++ x) = s.entries x := by
  have hquiet := quiet_of_blank ha
  cases s with
  | fresh =>
      rw [entries_fresh, entries_fresh, (uncomment_code hquiet.slash).1]
      exact pieceEntries_lead ha _
  | within g => rw [entries, entries, place, (uncomment_block hquiet.star).1]
  | remark => exact absurd rfl hs

theorem entries_append (hy : ∀ c ∈ y.head?, c ≠ '/' ∧ c ≠ '*') (x : Text) : s.entries (x ++ y) =
    pieceEntries (s.code ++ uncomment s.place x ++ uncomment (placeAfter s.place x) y) := by
  rw [entries, (uncomment_append hy).1, List.append_assoc]

theorem entries_comma (s : Standing) (x : Text) : s.entries (',' :: x) = s.entries x := by
  cases s with
  | fresh =>
      rw [entries_fresh, (uncomment_code_cons (by decide) x).1]
      exact pieceEntries_append [] (uncomment .code x)
  | within g =>
      rw [entries, place, (uncomment_block_cons (by decide) x).1]
      rfl
  | remark =>
      rw [entries_remark, (uncomment_line_cons (by decide) x).1, entries_remark]

theorem written_of_begin? (h : s.begin? p = some s') : s.written = s' ∧ s' ≠ remark := by
  unfold begin? at h
  split at h
  · obtain ⟨-, h⟩ := Option.ite_none_right_eq_some.1 h
    exact ⟨Option.some.inj h, by rw [← Option.some.inj h]; nofun⟩
  · next hs =>
      obtain rfl := Option.some.inj h
      exact ⟨by unfold written; split <;> trivial, hs⟩

theorem entries_of_begin? (h : s.begin? p = some s') (x : Text) :
    s.entries (p ++ x) = s'.entries (p ++ x) := by
  unfold begin? at h
  split at h
  · obtain ⟨hfeed, h⟩ := Option.ite_none_right_eq_some.1 h
    obtain rfl := Option.some.inj h
    obtain ⟨b, d, hindent, hb⟩ := List.eq_append_cons_of_mem hfeed
    have hp : p = b ++ '\n' :: (d ++ p.dropWhile isBlank) := by
      conv => lhs; rw [← List.takeWhile_append_dropWhile (p := isBlank) (l := p), ← indent, hindent]
      simp
    have hblank : ∀ c ∈ b, isBlank c = true := fun c hc =>
      List.mem_takeWhile_imp (l := p) (by rw [← indent, hindent]; simp [hc])
    have hfresh := entries_blank (s := fresh) nofun hblank ('\n' :: (d ++ p.dropWhile isBlank) ++ x)
    rw [hp, List.append_assoc, hfresh, entries_remark, (uncomment_line hb).1, List.cons_append,
      (uncomment_feed _).1, entries_fresh]
  · rw [← Option.some.inj h]

theorem not_mem_upTo (hs : ',' ∉ s.code) (hp : ',' ∉ p) : ',' ∉ s.upTo p := by
  rw [upTo, List.mem_append, not_or]
  exact ⟨hs, fun h => hp ((infix_trim p).subset (uncomment_subset _ _ h))⟩

theorem entries_piece (hs : s ≠ remark) (ha : ∀ c ∈ a, isBlank c = true)
    (hy : ∀ c ∈ y.head?, c ≠ '/' ∧ c ≠ '*') : s.entries (a ++ trim p ++ y) =
      pieceEntries (s.upTo p ++ uncomment (placeAfter s.place (trim p)) y) := by
  rw [List.append_assoc, entries_blank hs ha, entries_append hy]
  rfl

theorem head?_of_blank (hb : ∀ c ∈ b, isBlank c = true) : ∀ c ∈ b.head?, c ≠ '/' ∧ c ≠ '*' := by
  intro c hc
  have hblank := hb c (List.mem_of_mem_head? hc)
  constructor <;> rintro rfl <;> exact absurd hblank (by decide)

theorem placeAfter_pad (hs : s ≠ remark) (hp : p = a ++ trim p ++ b)
    (ha : ∀ c ∈ a, isBlank c = true) (hb : ∀ c ∈ b, isBlank c = true) :
    placeAfter s.place p = placeAfter (placeAfter s.place (trim p)) b := by
  have hquiet := quiet_of_blank ha
  conv => lhs; rw [hp]
  rw [(uncomment_append (head?_of_blank hb)).2]
  cases s with
  | fresh => rw [place, (uncomment_code hquiet.slash).2]
  | within g => rw [place, (uncomment_block hquiet.star).2]
  | remark => exact absurd rfl hs

theorem entries_separated (hs : s ≠ remark) (hp : p = a ++ trim p ++ b)
    (ha : ∀ c ∈ a, isBlank c = true) (hb : ∀ c ∈ b, isBlank c = true) (x : Text) :
    s.entries (p ++ ',' :: x) =
      pieceEntries (s.upTo p ++ uncomment (placeAfter s.place (trim p)) (b ++ ',' :: x)) := by
  have hhead : ∀ c ∈ (b ++ ',' :: x).head?, c ≠ '/' ∧ c ≠ '*' := by
    rw [List.head?_append]
    cases hbhead : b.head? with
    | none => simp
    | some d => simpa [hbhead] using head?_of_blank hb
  rw [← entries_piece hs ha hhead, ← List.append_assoc, ← hp]

theorem entries_last (hs : s ≠ remark) (p : Text) : s.entries p = pieceEntries (s.upTo p) := by
  obtain ⟨a, b, hp, ha, hb⟩ := exists_pad p
  have hrest : ∀ c ∈ uncomment (placeAfter s.place (trim p)) b, isBlank c = true :=
    fun c hc => hb c (uncomment_subset _ _ hc)
  conv => lhs; rw [hp]
  rw [entries_piece hs ha (head?_of_blank hb)]
  exact pieceEntries_trail hrest _

def listed (pad : Text) (es : List Text) : Text := es.flatMap fun e => pad ++ e ++ [',']

def kept (ps : List Text) : List Text := (ps.map trim).filter (!·.isEmpty)

theorem kept_cons (p : Text) (ps : List Text) : kept (p :: ps) = kept [p] ++ kept ps := by
  rw [kept, kept, kept, List.map_singleton, List.map_cons, ← List.filter_append]
  rfl

theorem listed_append (pad : Text) (es fs : List Text) :
    listed pad (es ++ fs) = listed pad es ++ listed pad fs := List.flatMap_append

theorem entries_listed {pad : Text} (hs : s ≠ remark) (hpad : ∀ c ∈ pad, isBlank c = true) (y : Text) :
    s.entries (listed pad (kept [p]) ++ y) =
      pieceEntries (s.upTo p ++ uncomment (placeAfter s.place (trim p)) (',' :: y)) := by
  by_cases hp : trim p = []
  · have hnone : listed pad (kept [p]) = [] := by simp [listed, kept, hp]
    have hcode : s.upTo p = s.code := by cases s <;> simp [upTo, hp, uncomment]
    have hplace : placeAfter s.place (trim p) = s.place := by cases s <;> simp [hp, placeAfter, place]
    rw [hnone, hcode, hplace, List.nil_append, ← entries_comma]
    rfl
  · have hone : listed pad (kept [p]) = pad ++ trim p ++ [','] := by
      rw [kept, List.map_singleton, List.filter_cons_of_pos (by simpa using hp)]
      simp [listed]
    have hhead : ∀ c ∈ (',' :: y).head?, c ≠ '/' ∧ c ≠ '*' := by simp
    rw [hone, ← entries_piece hs hpad hhead]
    simp

theorem entries_behind_line {v : Text} (hv : ∀ c ∈ v, isBlank c = true)
    (hb : ∀ c ∈ b, isBlank c = true) (x : Text) :
    pieceEntries (v ++ uncomment .line (b ++ ',' :: x)) =
      (if placeAfter .line b = .code then fresh else remark).entries x := by
  by_cases hfeed : '\n' ∈ b
  · obtain ⟨b₁, b₂, rfl, hb₁⟩ := List.eq_append_cons_of_mem hfeed
    have hb₂ : ∀ c ∈ '\n' :: b₂, isBlank c = true := fun c hc => hb c (List.mem_append_right b₁ hc)
    have hquiet : Quiet ('\n' :: b₂ ++ [',']) := (quiet_of_blank hb₂).append ⟨by decide, by decide⟩
    have hends : placeAfter .line (b₁ ++ '\n' :: b₂) = .code := by
      rw [(uncomment_line hb₁).2, (uncomment_feed b₂).2]
      exact (uncomment_code_self (quiet_of_blank hb₂).slash).2
    have hparted := pieceEntries_append (v ++ '\n' :: b₂) (uncomment .code x)
    rw [pieceEntries_lead hv, pieceEntries_blank hb₂] at hparted
    rw [if_pos hends, List.append_assoc, (uncomment_line hb₁).1, List.cons_append,
      (uncomment_feed _).1, ← List.cons_append, List.append_cons, (uncomment_code hquiet.slash).1]
    simpa [entries_fresh] using hparted
  · have hends := (uncomment_line_self hfeed).2
    have hcomma : '\n' ∉ b ++ [','] := by
      rw [List.mem_append, not_or]
      exact ⟨hfeed, by decide⟩
    rw [if_neg (by rw [hends]; decide), List.append_cons, (uncomment_line hcomma).1]
    exact pieceEntries_lead hv _

/-- The code of a piece is the same, and parted from what follows, whether the piece stands in the
list as it was or in a list that is written anew. -/
theorem entries_of_next? {list pad : Text} {c : Char} (h : s.next? list p = some s')
    (hpad : ∀ c ∈ pad, isBlank c = true) (hc : '\n' ∈ list → c = '\n') : ∃ as,
    (∀ x, s.entries (p ++ ',' :: x) = as ++ s'.entries x) ∧
      ∀ y, s.written.entries (listed pad (kept [p]) ++ c :: y) = as ++ s'.written.entries (c :: y) := by
  obtain ⟨s₀, hbegin, h⟩ := Option.bind_eq_some_iff.1 h
  obtain ⟨hwritten, hs₀⟩ := written_of_begin? hbegin
  obtain ⟨a, b, hp, ha, hb⟩ := exists_pad p
  have hquiet : Quiet (b ++ [',']) := (quiet_of_blank hb).append ⟨by decide, by decide⟩
  have hold : ∀ x, s.entries (p ++ ',' :: x) =
      pieceEntries (s₀.upTo p ++ uncomment (placeAfter s₀.place (trim p)) (b ++ ',' :: x)) := by
    intro x
    rw [entries_of_begin? hbegin, entries_separated hs₀ hp ha hb]
  have hnew : ∀ y, s.written.entries (listed pad (kept [p]) ++ c :: y) =
      pieceEntries (s₀.upTo p ++ uncomment (placeAfter s₀.place (trim p)) (',' :: c :: y)) := by
    intro y
    rw [hwritten, entries_listed hs₀ hpad]
  -- Before the comma both lists have the same, so all depends on the place at which it stands.
  cases hplace : placeAfter s₀.place (trim p) with
  | code =>
      obtain rfl : Standing.fresh = s' := by
        simp only [hplace] at h
        exact Option.some.inj h
      refine ⟨pieceEntries (s₀.upTo p), fun x => ?_, fun y => ?_⟩
      · rw [hold, hplace, List.append_cons, (uncomment_code hquiet.slash).1,
          ← pieceEntries_trail hb (s₀.upTo p)]
        simpa [entries_fresh] using pieceEntries_append (s₀.upTo p ++ b) (uncomment .code x)
      · rw [hnew, hplace, (uncomment_code_cons (by decide) _).1]
        exact pieceEntries_append (s₀.upTo p) (uncomment .code (c :: y))
  | block =>
      obtain rfl : Standing.within (s₀.upTo p) = s' := by
        simp only [hplace] at h
        exact Option.some.inj h
      refine ⟨[], fun x => ?_, fun y => ?_⟩
      · rw [hold, hplace, List.append_cons, (uncomment_block hquiet.star).1]
        rfl
      · rw [hnew, hplace, (uncomment_block_cons (by decide) _).1]
        rfl
  | line =>
      simp only [hplace, Bool.and_eq_true, decide_eq_true_eq, Option.ite_none_right_eq_some] at h
      obtain ⟨⟨hblank, hlist⟩, hs'⟩ := h
      obtain rfl := hc hlist
      have hv : ∀ c ∈ s₀.upTo p, isBlank c = true := List.all_eq_true.1 hblank
      have hfresh : s'.written = .fresh := by
        rw [← Option.some.inj hs']
        split <;> rfl
      refine ⟨[], fun x => ?_, fun y => ?_⟩
      · rw [hold, hplace, ← Option.some.inj hs', placeAfter_pad hs₀ hp ha hb, hplace]
        exact entries_behind_line hv hb x
      · rw [hnew, hplace, (uncomment_line_cons (by decide) _).1, (uncomment_feed y).1, hfresh]
        exact pieceEntries_lead hv _

theorem exists_listed (c : Char) (pad y : Text) (es : List Text) :
    ∃ z, listed (c :: pad) es ++ c :: y = c :: z := by
  cases es with
  | nil => exact ⟨y, rfl⟩
  | cons e es => exact ⟨_, rfl⟩

theorem entries_of_foldlM {ps : List Text} {list pad : Text} {c : Char}
    (h : ps.foldlM (next? list) s = some s') (hpad : ∀ d ∈ c :: pad, isBlank d = true)
    (hc : '\n' ∈ list → c = '\n') : ∃ as,
    (∀ x, s.entries (ps.flatMap (· ++ [',']) ++ x) = as ++ s'.entries x) ∧
      ∀ y, s.written.entries (listed (c :: pad) (kept ps) ++ c :: y) =
        as ++ s'.written.entries (c :: y) := by
  induction ps generalizing s with
  | nil =>
      obtain rfl : s = s' := Option.some.inj h
      exact ⟨[], fun _ => rfl, fun _ => rfl⟩
  | cons p ps ih =>
      rw [List.foldlM_cons] at h
      obtain ⟨s₁, hs₁, hrest⟩ := Option.bind_eq_some_iff.1 h
      obtain ⟨as, hold, hnew⟩ := entries_of_next? hs₁ hpad hc
      obtain ⟨bs, hold', hnew'⟩ := ih hrest
      refine ⟨as ++ bs, fun x => ?_, fun y => ?_⟩
      · have hsplit : (p :: ps).flatMap (· ++ [',']) ++ x = p ++ ',' :: (ps.flatMap (· ++ [',']) ++ x) := by
          simp
        rw [hsplit, hold, hold', List.append_assoc]
      · obtain ⟨z, hz⟩ := exists_listed c pad y (kept ps)
        rw [kept_cons, listed_append, List.append_assoc, hz, hnew, ← hz, hnew', List.append_assoc]

theorem code_of_begin? (h : s.begin? p = some s') (hs : ',' ∉ s.code) : ',' ∉ s'.code := by
  rw [← (written_of_begin? h).1]
  cases s with
  | fresh | within => exact hs
  | remark => simp [written, code]

theorem code_of_next? {list : Text} (h : s.next? list p = some s') (hs : ',' ∉ s.code)
    (hp : ',' ∉ p) : ',' ∉ s'.code := by
  obtain ⟨s₀, hbegin, h⟩ := Option.bind_eq_some_iff.1 h
  have hupTo := not_mem_upTo (code_of_begin? hbegin hs) hp
  split at h
  · obtain rfl := Option.some.inj h
    simp [code]
  · obtain rfl := Option.some.inj h
    exact hupTo
  · obtain ⟨-, h⟩ := Option.ite_none_right_eq_some.1 h
    obtain rfl := Option.some.inj h
    split <;> simp [code]

theorem code_of_foldlM {ps : List Text} {list : Text} (h : ps.foldlM (next? list) s = some s')
    (hs : ',' ∉ s.code) (hps : ∀ p ∈ ps, ',' ∉ p) : ',' ∉ s'.code := by
  induction ps generalizing s with
  | nil =>
      obtain rfl : s = s' := Option.some.inj h
      exact hs
  | cons p ps ih =>
      rw [List.foldlM_cons] at h
      obtain ⟨s₁, hs₁, hrest⟩ := Option.bind_eq_some_iff.1 h
      exact ih hrest (code_of_next? hs₁ hs (hps p List.mem_cons_self))
        fun q hq => hps q (List.mem_cons_of_mem p hq)

theorem length_glued {v n z : Text} (hv : ',' ∉ v) (hcode : isBlankText v = false)
    (ha : ∀ c ∈ a, isBlank c = true) (hn : IsEntry n) :
    (pieceEntries (v ++ (a ++ n ++ ',' :: z))).length <
      (pieceEntries v).length + (pieceEntries (a ++ n ++ ',' :: z)).length := by
  have htrim : trim v ≠ [] := by
    intro h
    obtain ⟨b, d, hsplit, hb, hd⟩ := exists_pad v
    rw [h, List.append_nil] at hsplit
    refine absurd (List.all_eq_true.2 fun c hc => ?_) (Bool.eq_false_iff.1 hcode)
    rw [hsplit] at hc
    exact (List.mem_append.1 hc).elim (hb c) (hd c)
  have hglued : ',' ∉ v ++ a ++ n := by
    rw [List.append_assoc, List.mem_append, not_or]
    exact ⟨hv, not_mem_append_of_blank ha hn.comma⟩
  have hsplit : v ++ (a ++ n ++ ',' :: z) = (v ++ a ++ n) ++ ',' :: z := by simp
  have hone : (pieceEntries (v ++ a ++ n)).length ≤ 1 := by
    rw [pieceEntries_of_not_mem hglued]
    split <;> simp
  rw [hsplit, pieceEntries_append, pieceEntries_cons ha hn, pieceEntries_of_not_mem hv,
    if_neg (by simpa using htrim)]
  simp only [List.length_append, List.length_cons, List.length_nil]
  omega

/-- What is written behind the entries that a list had: the entries that are added, in a column if the
list ran over several lines, and each behind the same blanks `c :: pad` as the old ones. -/
structure Extension (list : Text) (added : List Text) (c : Char) (pad tail : Text) : Prop where
  pad_blank : ∀ d ∈ c :: pad, isBlank d = true
  quiet : Quiet (c :: tail)
  entries : pieceEntries (c :: tail) = added
  column : '\n' ∈ list → c = '\n' ∧ ∃ n z, IsEntry n ∧ c :: tail = c :: pad ++ n ++ ',' :: z
  row : '\n' ∉ list → '\n' ∉ c :: tail

/-- What is written behind the last piece is read as it stands just if the comma between them is. -/
theorem entries_last_iff {list pad tail : Text} {c : Char} {added : List Text}
    (h : Extension list added c pad tail) (hne : added ≠ []) (hs : s ≠ remark)
    (hcode : ',' ∉ s.upTo p) :
    s.entries (listed (c :: pad) (kept [p]) ++ c :: tail) = s.entries p ++ added ↔
      s.isParted list p = true := by
  have hlost : pieceEntries (s.upTo p) ≠ pieceEntries (s.upTo p) ++ added := by
    intro heq
    exact hne (List.append_right_eq_self.1 heq.symm)
  rw [entries_listed hs h.pad_blank, entries_last hs, isParted]
  cases hplace : placeAfter s.place (trim p) with
  | code =>
      have hcomma : Quiet (',' :: c :: tail) :=
        Quiet.append (a := [',']) ⟨by decide, by decide⟩ h.quiet
      rw [(uncomment_code_self hcomma.slash).1, pieceEntries_append, h.entries]
      simp
  | block =>
      have hcomma : '*' ∉ ',' :: c :: tail := by
        rw [List.mem_cons, not_or]
        exact ⟨by decide, h.quiet.star⟩
      rw [(uncomment_block_self hcomma).1, List.append_nil]
      simpa using hlost
  | line =>
      by_cases hlist : '\n' ∈ list
      · obtain ⟨rfl, n, z, hn, htail⟩ := h.column hlist
        rw [(uncomment_line_cons (by decide) _).1, (uncomment_feed tail).1,
          (uncomment_code_self h.quiet.slash).1, decide_eq_true hlist, Bool.and_true]
        constructor
        · intro hglued
          by_contra hvis
          have hlength := length_glued (z := z) hcode (Bool.eq_false_iff.2 hvis) h.pad_blank hn
          rw [← htail, hglued, List.length_append, h.entries] at hlength
          exact lt_irrefl _ hlength
        · intro hblank
          have hv : ∀ d ∈ s.upTo p, isBlank d = true := List.all_eq_true.1 hblank
          have hnil : pieceEntries (s.upTo p) = [] := pieceEntries_blank hv
          rw [hnil, List.nil_append, ← h.entries]
          exact pieceEntries_lead hv _
      · have hcomma : '\n' ∉ ',' :: c :: tail := by
          rw [List.mem_cons, not_or]
          exact ⟨by decide, h.row hlist⟩
        rw [(uncomment_line_self hcomma).1, List.append_nil, decide_eq_false hlist, Bool.and_false]
        simpa using hlost

theorem column_append (indent : Text) (old added : List Text) :
    ('\n' :: (old ++ added).flatMap fun e => indent ++ e ++ ",\n".toList) =
      listed ('\n' :: indent) old ++ '\n' :: added.flatMap fun e => indent ++ e ++ ",\n".toList := by
  induction old with
  | nil => rfl
  | cons e old ih =>
      simp only [listed, List.cons_append, List.flatMap_cons, List.append_assoc] at ih ⊢
      rw [← ih]
      simp

theorem row_append (old : List Text) {added : List Text} (hne : added ≠ []) :
    ' ' :: List.intercalate ", " (old ++ added) ++ " ".toList =
      listed [' '] old ++ ' ' :: (List.intercalate ", " added ++ " ".toList) := by
  induction old with
  | nil => rfl
  | cons e old ih =>
      obtain ⟨f, fs, hfs⟩ := List.exists_cons_of_ne_nil (List.append_ne_nil_of_right_ne_nil old hne)
      have hjoin : List.intercalate ", " (e :: old ++ added) =
          e ++ ", " ++ List.intercalate ", " (old ++ added) := by
        rw [List.cons_append, hfs, List.intercalate_cons_cons]
      rw [hjoin]
      simp only [listed, List.cons_append, List.flatMap_cons, List.append_assoc] at ih ⊢
      rw [← ih]
      simp

theorem quiet_of_mem {t : Text} {es : List Text} (hes : ∀ e ∈ es, Quiet e)
    (h : ∀ c ∈ t, isBlank c = true ∨ c = ',' ∨ ∃ e ∈ es, c ∈ e) : Quiet t := by
  constructor
  · intro hslash
    rcases h _ hslash with h | h | ⟨e, he, h⟩
    · exact absurd h (by decide)
    · cases h
    · exact (hes e he).slash h
  · intro hstar
    rcases h _ hstar with h | h | ⟨e, he, h⟩
    · exact absurd h (by decide)
    · cases h
    · exact (hes e he).star h

theorem exists_extension (list : Text) (old : List Text) {added : List Text} (hne : added ≠ [])
    (hadded : ∀ e ∈ added, IsEntry e ∧ Quiet e ∧ '\n' ∉ e) : ∃ c pad tail,
    inner (renderList list (old ++ added)) = listed (c :: pad) old ++ c :: tail ∧
      Extension list added c pad tail := by
  have hentries : ∀ e ∈ added, IsEntry e := fun e he => (hadded e he).1
  have hquiet : ∀ e ∈ added, Quiet e := fun e he => (hadded e he).2.1
  rw [inner_renderList]
  by_cases hlist : '\n' ∈ list
  · have hindent := entryIndent_blank list
    have hpad : ∀ d ∈ '\n' :: entryIndent list, isBlank d = true :=
      List.forall_mem_cons.2 ⟨by decide, hindent⟩
    refine ⟨'\n', entryIndent list, _, (if_pos hlist).trans (column_append _ old added), hpad,
      quiet_of_mem hquiet fun c hc => ?_, pieceEntries_column hindent hentries,
      fun _ => ⟨rfl, ?_⟩, fun h => absurd hlist h⟩
    · rcases List.mem_cons.1 hc with rfl | hc
      · exact .inl (by decide)
      · obtain ⟨e, he, hc⟩ := List.mem_flatMap.1 hc
        simp only [List.mem_append] at hc
        rcases hc with (hc | hc) | hc
        · exact .inl (hindent c hc)
        · exact .inr (.inr ⟨e, he, hc⟩)
        · rcases List.mem_cons.1 hc with rfl | hc
          · exact .inr (.inl rfl)
          · exact .inl (blank_line c hc)
    · obtain ⟨n, ns, rfl⟩ := List.exists_cons_of_ne_nil hne
      exact ⟨n, '\n' :: ns.flatMap fun e => entryIndent list ++ e ++ ",\n".toList, hentries n (by simp),
        by simp⟩
  · have hmem : ∀ c ∈ ' ' :: (List.intercalate ", " added ++ " ".toList),
        c = ' ' ∨ c = ',' ∨ ∃ e ∈ added, c ∈ e := by
      intro c hc
      rw [List.mem_cons, List.mem_append] at hc
      rcases hc with rfl | hc | hc
      · exact .inl rfl
      · rcases mem_intercalate hc with hc | hc
        · rcases List.mem_cons.1 hc with rfl | hc
          · exact .inr (.inl rfl)
          · exact .inl (List.mem_singleton.1 hc)
        · exact .inr (.inr hc)
      · exact .inl (List.mem_singleton.1 hc)
    refine ⟨' ', [], _, (if_neg hlist).trans (row_append old hne), by simpa using blank_space,
      quiet_of_mem hquiet fun c hc => (hmem c hc).imp_left fun h => by rw [h]; decide,
      pieceEntries_row hentries, fun h => absurd h hlist, fun _ h => ?_⟩
    rcases hmem _ h with h | h | ⟨e, he, h⟩
    · cases h
    · cases h
    · exact (hadded e he).2.2 h

end Standing

/-- Where the last piece of a list stands, if every other comma is read where it is written anew. -/
def lastStanding? (list : Text) (ps : List Text) (p : Text) : Option Standing := do
  (← ps.foldlM (Standing.next? list) .fresh).begin? p

open Standing in
/-- A list with more entries has the code of the list that it was and then what was added, just if the
comma between them parts them. -/
theorem codeEntries_renderList {list p : Text} {ps added : List Text} {s : Standing}
    (hpieces : List.splitOn ',' (inner list) = ps ++ [p]) (hs : lastStanding? list ps p = some s)
    (hne : added ≠ []) (hadded : ∀ e ∈ added, IsEntry e ∧ Quiet e ∧ '\n' ∉ e) :
    codeEntries (renderList list (Import.entries list ++ added)) = codeEntries list ++ added ↔
      s.isParted list p = true := by
  obtain ⟨s₁, hs₁, hbegin⟩ := Option.bind_eq_some_iff.1 hs
  obtain ⟨hwritten, hremark⟩ := written_of_begin? hbegin
  have hold : Import.entries list = kept ps ++ kept [p] := by
    rw [entries_eq, pieceEntries, hpieces, List.map_append, List.filter_append]
    rfl
  have hinner : inner list = ps.flatMap (· ++ [',']) ++ p := by
    have hjoin : List.intercalate [','] (List.splitOn ',' (inner list)) = inner list :=
      List.intercalate_splitOn ','
    rw [← hjoin, hpieces, intercalate_concat]
  have hcomma : ∀ q ∈ ps ++ [p], ',' ∉ q := fun q hq =>
    not_mem_of_mem_splitOn (t := inner list) (by rwa [hpieces])
  obtain ⟨c, pad, tail, hnew, h⟩ := exists_extension list (kept ps ++ kept [p]) hne hadded
  obtain ⟨as, hall, hanew⟩ := entries_of_foldlM hs₁ h.pad_blank fun hlist => (h.column hlist).1
  have hcode₁ := code_of_foldlM hs₁ (by simp [code]) fun q hq => hcomma q (by simp [hq])
  have hcode := not_mem_upTo (code_of_begin? hbegin hcode₁) (hcomma p (by simp))
  have hlast : s₁.entries p = s.entries p := by simpa using entries_of_begin? hbegin []
  obtain ⟨z, hz⟩ := exists_listed c pad tail (kept [p])
  have hread : codeEntries (renderList list (Import.entries list ++ added)) =
      as ++ s.entries (listed (c :: pad) (kept [p]) ++ c :: tail) := by
    rw [codeEntries, hold, hnew, listed_append, List.append_assoc, hz, ← entries_fresh]
    exact (hanew z).trans (by rw [hwritten])
  rw [hread, codeEntries, hinner, ← entries_fresh, hall, hlast, List.append_assoc,
    List.append_cancel_left_eq, entries_last_iff h hne hremark hcode]

theorem codeEntries_of_not_mem {list : Text} (h : '/' ∉ list) :
    codeEntries list = Import.entries list := by
  have hinner : '/' ∉ inner list := fun hmem =>
    h ((List.dropWhile_suffix _).subset ((begins_dropEndWhile _ _).subset hmem))
  rw [codeEntries, (uncomment_code_self hinner).1, entries_eq]

open Standing in
theorem lastStanding?_of_not_mem {list p : Text} {ps : List Text}
    (hpieces : List.splitOn ',' (inner list) = ps ++ [p]) (h : '/' ∉ list) :
    lastStanding? list ps p = some .fresh ∧ Standing.isParted .fresh list p = true := by
  have hpiece : ∀ q ∈ ps ++ [p], placeAfter .code (trim q) = .code := by
    intro q hq
    have hinner : q <:+: inner list := isInfix_of_mem_splitOn (by rwa [hpieces])
    have hslash : '/' ∉ trim q := fun hmem => h ((List.dropWhile_suffix _).subset
      ((begins_dropEndWhile _ _).subset (hinner.subset ((infix_trim q).subset hmem))))
    exact (uncomment_code_self hslash).2
  have hfold : ps.foldlM (next? list) .fresh = some .fresh := by
    clear hpieces
    induction ps with
    | nil => rfl
    | cons q ps ih =>
        have hq := hpiece q (by simp)
        have hnext : next? list .fresh q = some .fresh := by
          simp only [next?, begin?, place, Option.bind_eq_bind, Option.bind_some, hq]
        rw [List.foldlM_cons, hnext]
        exact ih fun q' hq' => hpiece q' (by simp at hq' ⊢; tauto)
  have hp := hpiece p (by simp)
  refine ⟨by rw [lastStanding?, hfold]; rfl, ?_⟩
  simp only [isParted, place, hp]

end Import

end Scaffold
