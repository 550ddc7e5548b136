import Scaffold.Insertion.Plan

namespace Scaffold

/-- The text becomes the last one when all the insertions are made in their order, every one at the
same anchor and without a warning. -/
inductive Made (a : Anchor) : List Insertion → Text → Text → Prop
  | nil (t : Text) : Made a [] t t
  | cons {i : Insertion} {is : List Insertion} {t u v : Text} {edits : List Edit}
      (hplan : i.plan t = .edits edits a none) (hsplice : splice t edits = .ok u)
      (hrest : Made a is u v) : Made a (i :: is) t v

theorem Made.single {a : Anchor} {i : Insertion} {t u : Text} {edits : List Edit}
    (hplan : i.plan t = .edits edits a none) (hsplice : splice t edits = .ok u) : Made a [i] t u :=
  .cons hplan hsplice (.nil u)

namespace Insertion

structure IsBare (i : Insertion) (t : Text) : Prop where
  absent : i.isPresent t = false
  imports : ∀ r ∈ i.imports, r.plan? t = none

variable {i : Insertion} {t : Text}

theorem plan_of_place? (habsent : i.isPresent t = false) {a : Anchor} {k : Cut}
    (ha : a ∈ i.kind.anchors) (hk : i.place? t = some (a, k)) :
    i.plan t = .edits (i.imports.filterMap (·.plan? t) ++ i.fragmentEdits k) a none := by
  rw [plan, habsent, hk]
  simp [ha]

theorem IsBare.plan_eq (h : i.IsBare t) {a : Anchor} {k : Cut} (ha : a ∈ i.kind.anchors)
    (hk : i.place? t = some (a, k)) : i.plan t = .edits (i.fragmentEdits k) a none := by
  have hnone : i.imports.filterMap (·.plan? t) = [] := List.filterMap_eq_nil_iff.2 h.imports
  rw [plan_of_place? h.absent ha hk, hnone, List.nil_append]

end Insertion

end Scaffold
