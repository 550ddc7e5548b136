import Scaffold.Proofs.Edit.Weave
import Scaffold.Proofs.Insertion.Planned

namespace Scaffold

namespace Mapping

theorem isInfix_entryEdit (close : Cut) (body entry : Text) :
    entry <:+: (entryEdit close body entry).replacement := by
  unfold entryEdit
  split
  · exact List.infix_append _ _ _
  · exact List.infix_append _ _ _

end Mapping

namespace Insertion

variable {i : Insertion} {t : Text}

/-- What is left of a fragment when it goes in: all but the line feeds that end it. -/
def core (i : Insertion) : Text := Text.dropFinalNewlines i.fragment

def IsMarked (i : Insertion) : Prop := ∃ m ∈ i.markers, Text.contains m i.core = true

theorem isPresent_iff : i.isPresent t = true ↔ ∃ m ∈ i.markers, m <:+: t := by
  simp only [isPresent, List.any_eq_true, Text.contains_iff]

theorem core_prefix_block : i.core <+: i.block := List.prefix_append _ _

theorem exists_core_edit (k : Cut) : ∃ e ∈ i.fragmentEdits k, i.core <:+: e.replacement := by
  have hblock : i.core <:+: i.block := core_prefix_block.isInfix
  unfold fragmentEdits
  split
  · refine ⟨_, List.mem_append_right _ (List.mem_singleton_self _), ?_⟩
    exact (Text.begins_dropEndWhile _ _).isInfix.trans (Mapping.isInfix_entryEdit _ _ _)
  · refine ⟨_, List.mem_singleton_self _, ?_⟩
    exact hblock.trans (List.suffix_append _ _).isInfix
  · split
    · refine ⟨_, List.mem_singleton_self _, ?_⟩
      exact hblock.trans (List.suffix_append _ _).isInfix
    · refine ⟨_, List.mem_singleton_self _, ?_⟩
      exact hblock.trans (List.prefix_append _ _).isInfix

/-- A plan that is carried out leaves the whole fragment in the text. -/
theorem isInfix_core_of_plan {after : Text} {edits : List Edit} {anchor : Anchor}
    {missed : Option Anchor} (hplan : i.plan t = .edits edits anchor missed)
    (hsplice : splice t edits = .ok after) : i.core <:+: after := by
  obtain ⟨-, k, -, rfl⟩ := of_plan hplan
  obtain ⟨-, rfl⟩ := laid_of_splice hsplice
  obtain ⟨e, he, hcore⟩ := i.exists_core_edit k
  have hmem := (Edit.perm_ordered _).mem_iff.2
    (List.mem_append_right (i.imports.filterMap (·.plan? t)) he)
  exact hcore.trans (Edit.isInfix_weave hmem)

theorem plan_of_isPresent (h : i.isPresent t = true) : i.plan t = .present i.presentReason := by
  rw [plan, if_pos h]

theorem isPresent_of_plan {after : Text} {edits : List Edit} {anchor : Anchor}
    {missed : Option Anchor} (hmarked : i.IsMarked) (hplan : i.plan t = .edits edits anchor missed)
    (hsplice : splice t edits = .ok after) : i.isPresent after = true := by
  obtain ⟨m, hm, hcore⟩ := hmarked
  exact isPresent_iff.2
    ⟨m, hm, (Text.contains_iff.1 hcore).trans (isInfix_core_of_plan hplan hsplice)⟩

end Insertion

end Scaffold
