import Scaffold.Proofs.Anchor.ClassBody
import Scaffold.Proofs.Edit.Insertions
import Scaffold.Proofs.Insertion.Series

namespace Scaffold

namespace Insertion

def member (i : Insertion) : Text := "\n" ++ i.block

theorem getLast?_member (i : Insertion) : i.member.getLast? = some '\n' := by
  rw [member, block, ← List.append_assoc]
  exact List.getLast?_concat

theorem getLast?_members {is : List Insertion} (h : is ≠ []) :
    (is.flatMap member).getLast? = some '\n' := by
  obtain ⟨before, i, rfl⟩ := (List.eq_nil_or_concat is).resolve_left h
  have hmember := i.getLast?_member
  rw [List.concat_eq_append, List.flatMap_append, List.flatMap_singleton, List.getLast?_append,
    hmember, Option.some_or]

/-- The members of the text's first class, apart from the blanks on the line of its closing brace,
which is where the class takes more of them. -/
structure Gathers (t head members margin tail : Text) : Prop where
  hasClass : HasClass t head (members ++ margin) tail
  isMargin : Brace.IsMargin margin
  located : Anchor.locate t .classEnd = some ⟨head ++ '{' :: members, margin ++ '}' :: tail⟩

variable {i : Insertion} {t head members margin tail : Text}

theorem exists_gathers {k : Cut} (h : Anchor.locate t .classEnd = some k) :
    ∃ head members margin tail, Gathers t head members margin tail := by
  obtain ⟨head, body, tail, hclass⟩ := exists_hasClass h
  obtain ⟨members, margin, rfl, hmargin, -, hlocate⟩ := hclass.exists_margin
  exact ⟨head, members, margin, tail, hclass, hmargin, hlocate⟩

/-- The text with another member. -/
theorem Gathers.add (h : Gathers t head members margin tail) {new : Text}
    (hbalanced : Brace.IsBalanced new) (hfirst : new.head? = some '\n')
    (hlast : new.getLast? = some '\n') :
    Gathers (head ++ '{' :: members ++ new ++ (margin ++ '}' :: tail)) head (members ++ new) margin
      tail := by
  obtain ⟨u, rfl⟩ := List.head?_eq_some_iff.1 hfirst
  have hmembers : Brace.IsBalanced members := h.hasClass.isBalanced.of_append_margin h.isMargin
  have hbody : Brace.IsBalanced (members ++ '\n' :: u ++ margin) :=
    (hmembers.append_line hbalanced).append_margin h.isMargin
  have hclass := h.hasClass.replace hbody tail
  have hline : (members ++ '\n' :: u).getLast? = some '\n' := by
    rwa [List.getLast?_append_of_ne_nil _ (List.cons_ne_nil _ _)]
  have hwhole : head ++ '{' :: members ++ '\n' :: u ++ (margin ++ '}' :: tail) =
      head ++ '{' :: (members ++ '\n' :: u ++ margin ++ '}' :: tail) := by simp
  rw [hwhole]
  exact ⟨hclass, h.isMargin, (hclass.locate_of_line h.isMargin hline).1⟩

theorem Gathers.plan_eq (h : Gathers t head members margin tail) (hkind : i.kind = .shard)
    (hbare : i.IsBare t) :
    i.plan t = .edits [.insert (head ++ '{' :: members) i.member] .classEnd none := by
  have hplace : i.place? t = some (.classEnd, ⟨head ++ '{' :: members, margin ++ '}' :: tail⟩) := by
    simp [place?, hkind, FileKind.anchors, FileKind.mainAnchor, h.located]
  rw [hbare.plan_eq (by rw [hkind]; decide) hplace, fragmentEdits, hkind]
  rfl

theorem Gathers.splice_eq (h : Gathers t head members margin tail) (new : Text) :
    splice t [.insert (head ++ '{' :: members) new] =
      .ok (head ++ '{' :: members ++ new ++ (margin ++ '}' :: tail)) := by
  have hwhole : t = head ++ '{' :: members ++ (margin ++ '}' :: tail) := by
    rw [h.hasClass.whole]
    simp
  rw [hwhole]
  exact splice_insert _ _ _

/-- Where all the members are balanced and come to a text that has none of their marks, they gather
in their order. -/
theorem Gathers.exists_made {is : List Insertion} (h : Gathers t head members margin tail)
    (hkind : ∀ i ∈ is, i.kind = .shard) (hbalanced : ∀ i ∈ is, Brace.IsBalanced i.member)
    (hbare : ∀ done i rest u, is = done ++ i :: rest → Made .classEnd done t u → i.IsBare u) :
    ∃ v, Made .classEnd is t v ∧
      Gathers v head (members ++ is.flatMap Insertion.member) margin tail := by
  induction is generalizing t members with
  | nil => exact ⟨t, .nil t, by simpa using h⟩
  | cons i is ih =>
      have hplan := h.plan_eq (hkind i (by simp)) (hbare [] i is t rfl (.nil t))
      have hsplice := h.splice_eq i.member
      have hadd := h.add (hbalanced i (by simp)) rfl i.getLast?_member
      obtain ⟨v, hmade, hgathers⟩ := ih hadd (fun j hj => hkind j (by simp [hj]))
        (fun j hj => hbalanced j (by simp [hj])) (fun done j rest u hsplit hdone =>
          hbare (i :: done) j rest u (by rw [hsplit]; rfl) (.cons hplan hsplice hdone))
      exact ⟨v, .cons hplan hsplice hmade, by simpa [List.append_assoc] using hgathers⟩

end Insertion

end Scaffold
