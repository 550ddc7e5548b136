import Scaffold.Proofs.Text.Parts

namespace Scaffold.Text

inductive Place
  | code
  | line
  | block
deriving DecidableEq, Repr

/-- What is left of a text when its comments are taken out, read from a place on. -/
def uncomment : Place → Text → Text
  | .code, '/' :: '/' :: t => uncomment .line t
  | .code, '/' :: '*' :: t => uncomment .block t
  | .code, c :: t => c :: uncomment .code t
  | .line, '\n' :: t => '\n' :: uncomment .code t
  | .line, _ :: t => uncomment .line t
  | .block, '*' :: '/' :: t => uncomment .code t
  | .block, _ :: t => uncomment .block t
  | _, [] => []

def placeAfter : Place → Text → Place
  | .code, '/' :: '/' :: t => placeAfter .line t
  | .code, '/' :: '*' :: t => placeAfter .block t
  | .code, _ :: t => placeAfter .code t
  | .line, '\n' :: t => placeAfter .code t
  | .line, _ :: t => placeAfter .line t
  | .block, '*' :: '/' :: t => placeAfter .code t
  | .block, _ :: t => placeAfter .block t
  | p, [] => p

structure Quiet (t : Text) : Prop where
  slash : '/' ∉ t
  star : '*' ∉ t

variable {p : Place} {a b t u : Text} {c : Char}

theorem quiet_of_blank (h : ∀ c ∈ b, isBlank c = true) : Quiet b :=
  ⟨fun hc => absurd (h _ hc) (by decide), fun hc => absurd (h _ hc) (by decide)⟩

theorem Quiet.append (ha : Quiet a) (hb : Quiet b) : Quiet (a ++ b) := by
  refine ⟨fun h => ?_, fun h => ?_⟩
  · exact (List.mem_append.1 h).elim ha.slash hb.slash
  · exact (List.mem_append.1 h).elim ha.star hb.star

theorem uncomment_subset (p : Place) (t : Text) : uncomment p t ⊆ t := by
  fun_induction uncomment p t <;> grind

theorem apart_append (h : ∀ d ∈ u.head?, d ≠ c) (ht : ∀ v, t = c :: v → False) :
    ∀ v, t ++ u = c :: v → False := by
  intro v hv
  cases t with
  | nil => exact h c (by rw [List.nil_append] at hv; simp [hv]) rfl
  | cons d t => exact ht t (by rw [(List.cons.inj hv).1])

/-- A reading can be parted where no two characters of a comment's ends come together. -/
theorem uncomment_append (h : ∀ c ∈ u.head?, c ≠ '/' ∧ c ≠ '*') :
    uncomment p (t ++ u) = uncomment p t ++ uncomment (placeAfter p t) u ∧
      placeAfter p (t ++ u) = placeAfter (placeAfter p t) u := by
  have hslash : ∀ d ∈ u.head?, d ≠ '/' := fun d hd => (h d hd).1
  have hstar : ∀ d ∈ u.head?, d ≠ '*' := fun d hd => (h d hd).2
  fun_induction uncomment p t with
  | case1 t ih | case2 t ih | case6 t ih => exact ih
  | case3 c t hline hblock ih =>
      have hline' : ∀ v, c = '/' → t ++ u = '/' :: v → False :=
        fun v hc => apart_append hslash (fun w => hline w hc) v
      have hblock' : ∀ v, c = '/' → t ++ u = '*' :: v → False :=
        fun v hc => apart_append hstar (fun w => hblock w hc) v
      rw [List.cons_append, uncomment.eq_3 c _ hline' hblock', placeAfter.eq_3 c _ hline' hblock',
        placeAfter.eq_3 c t hline hblock, ih.1, ih.2]
      exact ⟨rfl, rfl⟩
  | case4 t ih => exact ⟨congrArg ('\n' :: ·) ih.1, ih.2⟩
  | case5 c t hc ih =>
      rw [List.cons_append, uncomment.eq_5 c _ hc, placeAfter.eq_5 c t hc,
        placeAfter.eq_5 c (t ++ u) hc]
      exact ih
  | case7 c t hclosed ih =>
      have hclosed' : ∀ v, c = '*' → t ++ u = '/' :: v → False :=
        fun v hc => apart_append hslash (fun w => hclosed w hc) v
      rw [List.cons_append, uncomment.eq_7 c _ hclosed', placeAfter.eq_7 c _ hclosed',
        placeAfter.eq_7 c t hclosed]
      exact ih
  | case8 p => cases p <;> exact ⟨rfl, rfl⟩

theorem uncomment_code_cons (hc : c ≠ '/') (t : Text) :
    uncomment .code (c :: t) = c :: uncomment .code t ∧
      placeAfter .code (c :: t) = placeAfter .code t :=
  ⟨uncomment.eq_3 c t (fun _ h => absurd h hc) fun _ h => absurd h hc,
    placeAfter.eq_3 c t (fun _ h => absurd h hc) fun _ h => absurd h hc⟩

theorem uncomment_block_cons (hc : c ≠ '*') (t : Text) :
    uncomment .block (c :: t) = uncomment .block t ∧
      placeAfter .block (c :: t) = placeAfter .block t :=
  ⟨uncomment.eq_7 c t fun _ h => absurd h hc, placeAfter.eq_7 c t fun _ h => absurd h hc⟩

theorem uncomment_line_cons (hc : c ≠ '\n') (t : Text) :
    uncomment .line (c :: t) = uncomment .line t ∧ placeAfter .line (c :: t) = placeAfter .line t :=
  ⟨uncomment.eq_5 c t hc, placeAfter.eq_5 c t hc⟩

theorem uncomment_code (hb : '/' ∉ b) :
    uncomment .code (b ++ t) = b ++ uncomment .code t ∧
      placeAfter .code (b ++ t) = placeAfter .code t := by
  induction b with
  | nil => exact ⟨rfl, rfl⟩
  | cons c b ih =>
      rw [List.mem_cons, not_or] at hb
      have hcons := uncomment_code_cons (Ne.symm hb.1) (b ++ t)
      rw [List.cons_append, hcons.1, hcons.2, (ih hb.2).1, (ih hb.2).2]
      exact ⟨rfl, rfl⟩

theorem uncomment_block (hb : '*' ∉ b) :
    uncomment .block (b ++ t) = uncomment .block t ∧
      placeAfter .block (b ++ t) = placeAfter .block t := by
  induction b with
  | nil => exact ⟨rfl, rfl⟩
  | cons c b ih =>
      rw [List.mem_cons, not_or] at hb
      have hcons := uncomment_block_cons (Ne.symm hb.1) (b ++ t)
      rw [List.cons_append, hcons.1, hcons.2]
      exact ih hb.2

theorem uncomment_line (hb : '\n' ∉ b) :
    uncomment .line (b ++ t) = uncomment .line t ∧
      placeAfter .line (b ++ t) = placeAfter .line t := by
  induction b with
  | nil => exact ⟨rfl, rfl⟩
  | cons c b ih =>
      rw [List.mem_cons, not_or] at hb
      have hcons := uncomment_line_cons (Ne.symm hb.1) (b ++ t)
      rw [List.cons_append, hcons.1, hcons.2]
      exact ih hb.2

theorem uncomment_code_self (hb : '/' ∉ b) : uncomment .code b = b ∧ placeAfter .code b = .code := by
  simpa [uncomment, placeAfter] using uncomment_code (t := []) hb

theorem uncomment_block_self (hb : '*' ∉ b) :
    uncomment .block b = [] ∧ placeAfter .block b = .block := by
  simpa [uncomment, placeAfter] using uncomment_block (t := []) hb

theorem uncomment_line_self (hb : '\n' ∉ b) :
    uncomment .line b = [] ∧ placeAfter .line b = .line := by
  simpa [uncomment, placeAfter] using uncomment_line (t := []) hb

theorem uncomment_feed (t : Text) : uncomment .line ('\n' :: t) = uncomment .code ('\n' :: t) ∧
    placeAfter .line ('\n' :: t) = placeAfter .code ('\n' :: t) := ⟨rfl, rfl⟩

end Scaffold.Text
