import Mathlib.Logic.Relation
import Scaffold.Tree.Disk

namespace Scaffold

/-- One comes from the path to the other by going up from parent to parent. -/
def Path.IsBelow (p q : Path) : Prop := Relation.TransGen (fun p q => p.parent? = some q) p q

namespace Disk

variable {ε ε' α β : Type} {t t' : Tree} {P : Tree → Prop}

theorem bind_eq_ok_iff {x : Disk ε α} {f : α → Disk ε β} {b : β} :
    (x >>= f) t = .ok b t' ↔ ∃ a u, x t = .ok a u ∧ f a u = .ok b t' := by
  change EStateM.bind x f t = _ ↔ _
  rw [EStateM.bind]
  cases x t with
  | error e u => simp
  | ok a u =>
      constructor
      · exact fun h => ⟨a, u, rfl, h⟩
      · rintro ⟨_, _, ⟨⟩, h⟩
        exact h

theorem bind_of_ok {x : Disk ε α} {f : α → Disk ε β} {a : α} (h : x t = .ok a t') :
    (x >>= f) t = f a t' := by
  change EStateM.bind x f t = _
  rw [EStateM.bind, h]

theorem bind_eq_error {x : Disk ε α} {f : α → Disk ε β} {e : ε} (h : x t = .error e t') :
    (x >>= f) t = .error e t' := by
  change EStateM.bind x f t = _
  rw [EStateM.bind, h]

theorem bind_eq_error_iff {x : Disk ε α} {f : α → Disk ε β} {e : ε} :
    (x >>= f) t = .error e t' ↔
      x t = .error e t' ∨ ∃ a u, x t = .ok a u ∧ f a u = .error e t' := by
  change EStateM.bind x f t = _ ↔ _
  rw [EStateM.bind]
  cases x t with
  | error e' u => simp
  | ok a u =>
      constructor
      · exact fun h => .inr ⟨a, u, rfl, h⟩
      · rintro (⟨⟨⟩⟩ | ⟨_, _, ⟨⟩, h⟩)
        exact h

theorem exists_ok_of_run {x : Disk ε α} {a : α} (h : EStateM.run' x t = some a) :
    ∃ t', x t = .ok a t' := by
  unfold EStateM.run' EStateM.run at h
  cases hx : x t with
  | error e u => simp [hx] at h
  | ok b u =>
      rw [hx] at h
      exact ⟨u, Option.some.inj h ▸ rfl⟩

theorem look_eq_ok_iff {f : Tree → Except ε α} {a : α} :
    look f t = .ok a t' ↔ f t = .ok a ∧ t' = t := by
  rw [look]
  cases f t <;> simp [eq_comm]

theorem change_eq_ok_iff {f : Tree → Except ε Tree} :
    change f t = .ok () t' ↔ f t = .ok t' := by
  rw [change]
  cases f t <;> simp

theorem look_eq_error_iff {f : Tree → Except ε α} {e : ε} :
    look f t = .error e t' ↔ f t = .error e ∧ t' = t := by
  rw [look]
  cases f t <;> simp [eq_comm]

theorem change_eq_error_iff {f : Tree → Except ε Tree} {e : ε} :
    change f t = .error e t' ↔ f t = .error e ∧ t' = t := by
  rw [change]
  cases f t <;> simp [eq_comm]

theorem adaptExcept_eq_ok_iff {g : ε → ε'} {x : Disk ε α} {a : α} :
    EStateM.adaptExcept g x t = .ok a t' ↔ x t = .ok a t' := by
  rw [EStateM.adaptExcept]
  cases x t <;> simp

theorem adaptExcept_eq_error {g : ε → ε'} {x : Disk ε α} {e : ε} (h : x t = .error e t') :
    EStateM.adaptExcept g x t = .error (g e) t' := by
  rw [EStateM.adaptExcept, h]

theorem adaptExcept_eq_error_iff {g : ε → ε'} {x : Disk ε α} {e : ε'} :
    EStateM.adaptExcept g x t = .error e t' ↔ ∃ e', x t = .error e' t' ∧ g e' = e := by
  rw [EStateM.adaptExcept]
  cases x t with
  | ok a u => simp
  | error e' u =>
      constructor
      · rintro ⟨⟩
        exact ⟨e', rfl, rfl⟩
      · rintro ⟨_, ⟨⟩, rfl⟩
        rfl

/-- An action on each of a list fails on one of them, and has then succeeded on those before it. -/
theorem forM_eq_error {f : α → Disk ε Unit} {as : List α} {e : ε}
    (h : as.forM f t = .error e t') :
    ∃ done a rest u, as = done ++ a :: rest ∧ done.forM f t = .ok () u ∧ f a u = .error e t' := by
  induction as generalizing t with
  | nil => cases h
  | cons a as ih =>
      rcases bind_eq_error_iff.1 h with hfail | ⟨⟨⟩, u, hok, hrest⟩
      · exact ⟨[], a, as, t, rfl, rfl, hfail⟩
      · obtain ⟨done, b, rest, v, rfl, hdone, hfail⟩ := ih hrest
        exact ⟨a :: done, b, rest, v, rfl, bind_eq_ok_iff.2 ⟨(), u, hok, hdone⟩, hfail⟩

theorem mapM_eq_error {f : α → Disk ε β} {as : List α} {e : ε} (h : as.mapM f t = .error e t') :
    ∃ done a rest bs u, as = done ++ a :: rest ∧ done.mapM f t = .ok bs u ∧
      f a u = .error e t' := by
  induction as generalizing t with
  | nil => cases h
  | cons a as ih =>
      rw [List.mapM_cons] at h
      rcases bind_eq_error_iff.1 h with hfail | ⟨b, u, hok, hrest⟩
      · exact ⟨[], a, as, [], t, rfl, rfl, hfail⟩
      rcases bind_eq_error_iff.1 hrest with hmap | ⟨bs, v, -, hpure⟩
      · obtain ⟨done, a', rest, bs, v, rfl, hdone, hfail⟩ := ih hmap
        refine ⟨a :: done, a', rest, b :: bs, v, rfl, ?_, hfail⟩
        rw [List.mapM_cons]
        exact bind_eq_ok_iff.2 ⟨b, u, hok, bind_eq_ok_iff.2 ⟨bs, v, hdone, rfl⟩⟩
      · cases hpure

theorem exists_turn_of_mapM {f : α → Disk ε β} {as : List α} {bs : List β}
    (h : as.mapM f t = .ok bs t') {k : Nat} {a : α} (ha : as[k]? = some a) :
    ∃ b u v, bs[k]? = some b ∧ (as.take k).mapM f t = .ok (bs.take k) u ∧ f a u = .ok b v ∧
      (as.drop (k + 1)).mapM f v = .ok (bs.drop (k + 1)) t' := by
  induction as generalizing t bs k with
  | nil => cases ha
  | cons a' as ih =>
      rw [List.mapM_cons] at h
      obtain ⟨b, u, hfirst, hrest⟩ := bind_eq_ok_iff.1 h
      obtain ⟨bs, v, hmap, hpure⟩ := bind_eq_ok_iff.1 hrest
      cases hpure
      cases k with
      | zero =>
          cases ha
          exact ⟨b, t, u, rfl, rfl, hfirst, hmap⟩
      | succ k =>
          obtain ⟨b', x, y, hb', hearlier, hturn, hlater⟩ := ih hmap ha
          refine ⟨b', x, y, hb', ?_, hturn, hlater⟩
          rw [List.take_succ_cons, List.mapM_cons]
          exact bind_eq_ok_iff.2 ⟨b, u, hfirst, bind_eq_ok_iff.2 ⟨bs.take k, x, hearlier, rfl⟩⟩

def treeOf : EStateM.Result ε Tree α → Tree
  | .ok _ t => t
  | .error _ t => t

def final (x : Disk ε α) (t : Tree) : Tree := treeOf (x t)

theorem final_of_eq_ok {x : Disk ε α} {a : α} (h : x t = .ok a t') : x.final t = t' := by
  rw [final, h, treeOf]

theorem of_final {x : Disk ε α} {a : α} (hx : P (x.final t)) (h : x t = .ok a t') : P t' := by
  rwa [final_of_eq_ok h] at hx

theorem of_final_error {x : Disk ε α} {e : ε} (hx : P (x.final t)) (h : x t = .error e t') :
    P t' := by
  rwa [final, h] at hx

theorem final_look (f : Tree → Except ε α) (t : Tree) : (look f).final t = t := by
  rw [final, look]
  cases f t <;> rfl

theorem final_change {f : Tree → Except ε Tree} (h : P t) (hf : ∀ u, f t = .ok u → P u) :
    P ((change f).final t) := by
  rw [final, change]
  cases hft : f t with
  | error e => exact h
  | ok u => exact hf u hft

theorem final_adaptExcept (g : ε → ε') (x : Disk ε α) (t : Tree) :
    final (EStateM.adaptExcept g x) t = x.final t := by
  rw [final, final, EStateM.adaptExcept]
  cases x t <;> rfl

theorem final_bind {x : Disk ε α} {f : α → Disk ε β} (hx : P (x.final t))
    (hf : ∀ a u, x t = .ok a u → P ((f a).final u)) : P ((x >>= f).final t) := by
  rw [final] at hx
  change P (treeOf (EStateM.bind x f t))
  rw [EStateM.bind]
  cases hxt : x t with
  | error e u => rwa [hxt] at hx
  | ok a u => exact hf a u hxt

/-- The action keeps a property, also when it fails. -/
def Keeps (P : Tree → Prop) (x : Disk ε α) : Prop := ∀ t, P t → P (x.final t)

namespace Keeps

theorem pure (a : α) : Keeps P (pure a : Disk ε α) := fun _ h => h

theorem look (f : Tree → Except ε α) : Keeps P (look f) := by
  intro t h
  rwa [final_look]

theorem change {f : Tree → Except ε Tree} (hf : ∀ t t', P t → f t = .ok t' → P t') :
    Keeps P (change f) :=
  fun t h => final_change h fun u => hf t u h

theorem adaptExcept {x : Disk ε α} (h : Keeps P x) (g : ε → ε') :
    Keeps P (EStateM.adaptExcept g x) := by
  intro t ht
  rw [final_adaptExcept]
  exact h t ht

theorem bind {x : Disk ε α} {f : α → Disk ε β} (hx : Keeps P x) (hf : ∀ a, Keeps P (f a)) :
    Keeps P (x >>= f) := by
  intro t ht
  exact final_bind (hx t ht) fun a u hxt => hf a u (of_final (hx t ht) hxt)

theorem forM {f : α → Disk ε Unit} {as : List α} (h : ∀ a ∈ as, Keeps P (f a)) :
    Keeps P (as.forM f) := by
  induction as with
  | nil => exact pure ()
  | cons a as ih =>
      exact bind (h a List.mem_cons_self) fun _ => ih fun b hb => h b (List.mem_cons_of_mem a hb)

theorem mapM {f : α → Disk ε β} {as : List α} (h : ∀ a ∈ as, Keeps P (f a)) :
    Keeps P (as.mapM f) := by
  induction as with
  | nil => exact pure []
  | cons a as ih =>
      rw [List.mapM_cons]
      exact bind (h a List.mem_cons_self) fun b =>
        bind (ih fun c hc => h c (List.mem_cons_of_mem a hc)) fun bs => pure _

theorem makeDirectoriesUpTo (n : Nat) (p : Path)
    (h : ∀ t t' q, q = p ∨ p.IsBelow q → P t → t.makeDirectory q = .ok t' → P t') :
    Keeps P (makeDirectoriesUpTo n p) := by
  induction n generalizing p with
  | zero => exact fun t ht => ht
  | succ n ih =>
      intro t ht
      have hmakes := fun t t' => h t t' p (.inl rfl)
      have hsettled : ∀ e u, P u → P (treeOf (if u.isDirectory p then EStateM.Result.ok () u
          else EStateM.Result.error (e : FileError) u)) := by
        intro e u hu
        split
        · exact hu
        · exact hu
      rw [final, Disk.makeDirectoriesUpTo]
      dsimp only
      split
      · exact ht
      split
      · next u hmake => exact hmakes t u ht hmake
      · split
        · exact ht
        · next above hparent =>
            -- What is made above the parent is above the path, too.
            have hup := ih above (fun t t' q hq => h t t' q (.inr (by
              rcases hq with rfl | hq
              · exact .single hparent
              · exact .head hparent hq))) t ht
            rw [final] at hup
            split
            · next e u hmade => rwa [hmade] at hup
            · next u hmade =>
                rw [hmade] at hup
                split
                · next v hmake => exact hmakes u v hup hmake
                · next e _ => exact hsettled e u hup
      · next e _ _ => exact hsettled e t ht

/-- Making room for a file keeps what each directory keeps that is made above it. -/
theorem makeRoom (p : Path)
    (h : ∀ t t' q, p.IsBelow q → P t → t.makeDirectory q = .ok t' → P t') :
    Keeps P (makeRoom p) := by
  cases hparent : p.parent? with
  | none =>
      rw [Disk.makeRoom, Path.directory, hparent]
      exact fun t ht => ht
  | some above =>
      rw [Disk.makeRoom, Path.directory, hparent]
      refine makeDirectoriesUpTo _ _ fun t t' q hq => h t t' q ?_
      rcases hq with rfl | hq
      · exact .single hparent
      · exact .head hparent hq

end Keeps

end Disk

end Scaffold
