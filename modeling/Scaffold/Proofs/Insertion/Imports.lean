import Scaffold.Proofs.Import.Changes
import Scaffold.Proofs.Insertion.Members

namespace Scaffold

open Text

namespace Insertion

variable {t t' head head' members margin tail tail' : Text}

theorem Gathers.of_hasClass (h : Gathers t head members margin tail)
    (hclass : HasClass t' head' (members ++ margin) tail') :
    Gathers t' head' members margin tail' := by
  obtain ⟨ms, gap, hbody, -, hline, hlocated⟩ := h.hasClass.exists_margin
  obtain ⟨ms', gap', hbody', hgap', hline', hlocated'⟩ := hclass.exists_margin
  -- In the first text the place is where the members end.
  have hmembers : ∀ {us vs : Text},
      Anchor.locate t .classEnd = some ⟨head ++ '{' :: us, vs ++ '}' :: tail⟩ → us = members := by
    intro us vs hlocate
    have hbefore := congrArg Cut.before (Option.some.inj (hlocate.symm.trans h.located))
    exact (List.cons.inj (List.append_cancel_left hbefore)).2
  obtain rfl := hmembers hlocated
  obtain rfl := List.append_cancel_left hbody
  refine ⟨hclass, h.isMargin, ?_⟩
  by_cases hlast : ms.getLast? = some '\n'
  · exact (hclass.locate_of_line h.isMargin hlast).1
  · obtain rfl := hline.resolve_left hlast
    rcases hline' with hlast' | rfl
    · have hplace := h.hasClass
      rw [hbody'] at hplace
      obtain rfl := hmembers (hplace.locate_of_line hgap' hlast').1
      exact absurd hlast' hlast
    · rw [List.append_nil, List.append_nil] at hbody'
      rw [hbody', hlocated']

end Insertion

/-- A text with a class that the imports keep apart from: they end above its declaration, or begin
behind the brace that closes it. No entry of a list for the module `source` would begin a class. -/
structure ClassApart (source t top header body tail : Text) : Prop where
  hasClass : HasClass t (top ++ header) body tail
  declared : firstLine? (fun r => (Shape.classDeclaration r).isSome) t =
    some ⟨top, header ++ '{' :: (body ++ '}' :: tail)⟩
  firstImport : ∀ k, Anchor.locate t .firstImport = some k →
    header ++ '{' :: (body ++ '}' :: tail) <:+ k.after ∨ k.after <:+ tail
  lists : ∀ f ∈ Import.statements source t,
    header ++ '{' :: (body ++ '}' :: tail) <:+ f.rest ∨ f.tail <:+ tail
  entries : ∀ f ∈ Import.statements source t, ∀ e ∈ Import.entries f.list, Shape.IsClassless e

namespace ImportRequest.Change

open Insertion

variable {r : ImportRequest} {t above old new below top header members margin tail : Text}

theorem apart (h : r.Change t above old new below) (ht : t = above ++ old ++ below) {body : Text}
    (hc : ClassApart r.source t top header body tail) :
    header ++ '{' :: (body ++ '}' :: tail) <:+ below ∨ old ++ below <:+ tail := by
  cases h with
  | line hseam hlines hplace =>
      rcases hplace with rfl | hplace
      · obtain ⟨hwhole, -⟩ := firstLine?_eq_some_iff.1 hc.declared
        have hsuffix : header ++ '{' :: (body ++ '}' :: tail) <:+ t := ⟨top, hwhole.symm⟩
        rw [ht] at hsuffix
        exact .inl hsuffix
      · exact hc.firstImport _ hplace
  | list hf hends htail hbehind =>
      rcases hc.lists _ hf with hrest | hlater
      · exact .inl (hrest.trans hbehind)
      · exact .inr (htail ▸ hlater)

theorem hasClass_of_above (h : r.Change t above old new below) (ht : t = above ++ old ++ below)
    (hr : r.IsLine) (hnames : ∀ name ∈ r.names, Shape.IsClassless name) {body u : Text}
    (hc : ClassApart r.source t top header body tail)
    (hbelow : below = u ++ (header ++ '{' :: (body ++ '}' :: tail))) :
    top = above ++ old ++ u ∧
      HasClass (above ++ new ++ below) (above ++ new ++ u ++ header) body tail := by
  obtain ⟨hwhole, hline, hsome, hmisses⟩ := firstLine?_eq_some_iff.1 hc.declared
  have hopening := hc.hasClass.opening
  rw [Anchor.classOpening?, hc.declared, Option.bind_some] at hopening
  have htop : top = above ++ old ++ u := by
    rw [ht, hbelow, ← List.append_assoc] at hwhole
    exact (List.append_cancel_right hwhole).symm
  subst htop
  have hmisses' := h.missesIn hr hnames hc.entries hbelow (by simp) hmisses
  have hdeclared : firstLine? (fun r => (Shape.classDeclaration r).isSome) (above ++ new ++ below) =
      some ⟨above ++ new ++ u, header ++ '{' :: (body ++ '}' :: tail)⟩ :=
    firstLine?_eq_some_iff.2 ⟨by simp [hbelow], h.beginsLine hline, hsome, hmisses'⟩
  refine ⟨rfl, by simp [hbelow], ?_, hc.hasClass.closing⟩
  rw [Anchor.classOpening?, hdeclared, Option.bind_some]
  exact hopening

theorem hasClass_of_behind (ht : t = above ++ old ++ below) {body v : Text}
    (hc : HasClass t (top ++ header) body tail) (htail : tail = v ++ (old ++ below)) (new : Text) :
    above = top ++ header ++ '{' :: (body ++ '}' :: v) ∧
      HasClass (above ++ new ++ below) (top ++ header) body (v ++ new ++ below) := by
  have habove : above = top ++ header ++ '{' :: (body ++ '}' :: v) := by
    have hwhole := hc.whole
    rw [ht, htail, List.append_assoc] at hwhole
    apply List.append_cancel_right
    rw [hwhole]
    simp
  have hclass := hc.replace hc.isBalanced (v ++ new ++ below)
  have hmoved : top ++ header ++ '{' :: (body ++ '}' :: (v ++ new ++ below)) =
      above ++ new ++ below := by
    rw [habove]
    simp
  exact ⟨habove, hmoved ▸ hclass⟩

theorem exists_gathers (h : r.Change t above old new below) (ht : t = above ++ old ++ below)
    (hr : r.IsLine) (hnames : ∀ name ∈ r.names, Shape.IsClassless name)
    (hc : ClassApart r.source t top header (members ++ margin) tail)
    (hg : Gathers t (top ++ header) members margin tail) (member : Text) :
    ∃ head' tail', Gathers (above ++ new ++ below) head' members margin tail' ∧
      splice t [.replace above old new, .insert (top ++ header ++ '{' :: members) member] =
        .ok (head' ++ '{' :: members ++ member ++ (margin ++ '}' :: tail')) := by
  rcases h.apart ht hc with ⟨u, hu⟩ | ⟨v, hv⟩
  · obtain ⟨rfl, hclass⟩ := h.hasClass_of_above ht hr hnames hc hu.symm
    refine ⟨above ++ new ++ u ++ header, tail, hg.of_hasClass hclass, ?_⟩
    have hsplice := splice_replace_pair above old (u ++ header ++ '{' :: members) []
      (margin ++ '}' :: tail) new member
    rw [ht, ← hu]
    simpa only [Edit.insert_eq_replace, List.append_assoc, List.cons_append, List.nil_append]
      using hsplice
  · obtain ⟨habove, hclass⟩ := hasClass_of_behind ht hc.hasClass hv.symm new
    refine ⟨top ++ header, v ++ new ++ below, hg.of_hasClass hclass, ?_⟩
    have hsplice := @splice_replace_pair_swapped (top ++ header ++ '{' :: members) []
      (margin ++ '}' :: v) old below member new (by simp)
    rw [ht, habove]
    simpa only [Edit.insert_eq_replace, List.append_assoc, List.cons_append, List.nil_append]
      using hsplice

theorem eq_nil_of_within (h : r.Change t above old new below) {a x : Text} (hold : old = a ++ x)
    (hend : "\x7d\n".toList <:+ above ++ a) : x = [] := by
  cases h with
  | line => exact (List.nil_eq_append_iff.1 hold).2
  | @list _ body f extra hf hends htail hbehind hlist hbody hne hadded =>
      by_contra hx
      obtain ⟨c, a, rfl⟩ := List.exists_cons_of_ne_nil (l := a) fun hnil => by
        rw [hnil, List.append_nil] at hend
        exact hends hend
      rw [hlist, List.cons_append, List.cons_append, List.cons.injEq] at hold
      obtain ⟨rfl, hrest⟩ := hold
      obtain ⟨x, d, rfl⟩ := (List.eq_nil_or_concat x).resolve_left hx
      rw [List.concat_eq_append, ← List.append_assoc] at hrest
      have hclosing : '}' ∉ a := fun hmem =>
        hbody ((List.append_inj' hrest rfl).1 ▸ List.mem_append_left x hmem)
      obtain ⟨y, hy⟩ := hend
      have hlast : (y ++ ['}']) ++ ['\n'] = above ++ '{' :: a := by simpa using hy
      rcases List.eq_nil_or_concat a with rfl | ⟨a, e, rfl⟩
      · have hbrace := (List.append_inj' hlast rfl).2
        simp at hbrace
      · have hbrace : y ++ ['}'] = above ++ '{' :: a := by
          rw [List.concat_eq_append, ← List.cons_append, ← List.append_assoc] at hlast
          exact (List.append_inj' hlast rfl).1
        have hmem := congrArg List.getLast? hbrace
        rw [List.getLast?_concat, List.getLast?_append_of_ne_nil _ (by simp)] at hmem
        rcases List.mem_cons.1 (List.mem_of_getLast? hmem.symm) with h | h
        · simp at h
        · exact hclosing (by simp [h])

theorem exists_splice (h : r.Change t above old new below) (ht : t = above ++ old ++ below)
    {before after : Text} (hwhole : t = before ++ after) (hend : "\x7d\n".toList <:+ before)
    (member : Text) :
    ∃ u, splice t [.replace above old new, .insert before member] = .ok u := by
  have hsplit := ht.symm.trans hwhole
  rw [List.append_assoc] at hsplit
  rw [Edit.insert_eq_replace, ht]
  rcases List.append_eq_append_iff.1 hsplit with ⟨a, rfl, hrest⟩ | ⟨b, hb, -⟩
  · have hbehind : ∃ x, a = old ++ x ∧ below = x ++ after := by
      rcases List.append_eq_append_iff.1 hrest with h' | ⟨x, hold, hafter⟩
      · exact h'
      · obtain rfl := h.eq_nil_of_within hold hend
        exact ⟨[], by simp [hold], by simp [hafter]⟩
    obtain ⟨x, rfl, hbelow⟩ := hbehind
    have hsplice := splice_replace_pair above old x [] after new member
    rw [hbelow]
    exact ⟨_, by simpa only [List.append_assoc, List.append_nil, List.nil_append] using hsplice⟩
  · by_cases hnil : b = []
    · rw [hnil, List.append_nil] at hb
      have hold := h.eq_nil_of_within (a := []) rfl (by rwa [List.append_nil, hb])
      have hsplice := splice_replace_pair before [] [] [] below new member
      rw [hb, hold]
      exact ⟨_, by simpa only [List.append_assoc, List.append_nil, List.nil_append] using hsplice⟩
    · have hsplice := @splice_replace_pair_swapped before [] b old below member new
        (by simpa using hnil)
      rw [hb]
      exact ⟨_, by simpa only [List.append_assoc, List.append_nil, List.nil_append] using hsplice⟩

end ImportRequest.Change

namespace Insertion

variable {i : Insertion} {r : ImportRequest} {t u m head top header body members margin tail : Text}

/-- No mark is in the text afterwards that was not there before, unless the fragment has it or all its
characters are in the line of the import. -/
def AddsNoMark (i : Insertion) (r : ImportRequest) (t u : Text) : Prop :=
  ∀ m, IsMark m → r.Lacks m → ¬m <:+: i.fragment → ¬m <:+: t → ¬m <:+: u

theorem isInfix_of_block (hm : IsMark m) {y : Text} (h : m <:+: i.block ++ y) :
    m <:+: i.fragment ∨ m <:+: y := by
  have hsplit : i.block ++ y = dropFinalNewlines i.fragment ++ '\n' :: y := by simp [block]
  rw [hsplit] at h
  exact (isInfix_of_append_sep hm.line h).imp_left fun h =>
    h.trans (begins_dropEndWhile _ _).isInfix

/-- A mark in a class that got a member is in the member's fragment or was there before. -/
theorem isInfix_of_member (hm : IsMark m) {x y : Text} (h : m <:+: x ++ i.member ++ y) :
    m <:+: i.fragment ∨ m <:+: x ++ y := by
  have hsplit : x ++ i.member ++ y = x ++ '\n' :: (i.block ++ y) := by simp [member]
  rw [hsplit] at h
  rcases isInfix_of_append_sep hm.line h with h | h
  · exact .inr (h.trans (List.prefix_append _ _).isInfix)
  · exact (isInfix_of_block hm h).imp_right fun h => h.trans (List.suffix_append _ _).isInfix

/-- A mark in a text that got a block at its end is in the block's fragment or was there before. What
is put before the block depends on the end of the text, not on what an import made of it. -/
theorem isInfix_of_appended (hm : IsMark m)
    (hended : beginsLine t.getLast? = true → beginsLine u.getLast? = true)
    (h : m <:+: u ++ i.appended t) : m <:+: i.fragment ∨ m <:+: u := by
  have hsplit : m <:+: u ∨ m <:+: i.block := by
    unfold appended at h
    split at h
    · next hlead =>
        refine hm.of_append_line (hended ?_) h
        rw [Bool.or_eq_true, List.isEmpty_iff, List.isSuffixOf_iff_suffix] at hlead
        rcases hlead with rfl | ⟨x, rfl⟩
        · rfl
        · rw [List.getLast?_append_of_ne_nil _ (by decide)]
          rfl
    · split at h
      · exact isInfix_of_append_sep hm.line h
      · exact (isInfix_of_append_sep hm.line h).imp_right (hm.of_blank_append Import.blank_line)
  rcases hsplit with h | h
  · exact .inr h
  · rw [← List.append_nil i.block] at h
    exact .inl ((isInfix_of_block hm h).resolve_right fun h => hm.ne_nil (List.infix_nil.1 h))

theorem plan_with_import {a : Anchor} {k : Cut} {e : Edit} (himports : i.imports = [r])
    (habsent : i.isPresent t = false) (ha : a ∈ i.kind.anchors) (hk : i.place? t = some (a, k))
    (hedits : i.fragmentEdits k = [e]) : i.plan t = .edits ((r.plan? t).toList ++ [e]) a none := by
  rw [plan_of_place? habsent ha hk, himports, hedits, List.filterMap_cons, List.filterMap_nil]
  cases r.plan? t <;> rfl

theorem Gathers.plan_with_import (h : Gathers t head members margin tail) (hkind : i.kind = .shard)
    (himports : i.imports = [r]) (habsent : i.isPresent t = false) :
    i.plan t = .edits ((r.plan? t).toList ++ [.insert (head ++ '{' :: members) i.member]) .classEnd
      none := by
  refine Insertion.plan_with_import himports habsent (by rw [hkind]; decide)
    (k := ⟨head ++ '{' :: members, margin ++ '}' :: tail⟩) ?_ ?_
  · simp [place?, hkind, FileKind.anchors, FileKind.mainAnchor, h.located]
  · rw [fragmentEdits, hkind]
    rfl

theorem exists_made_apart (hkind : i.kind = .shard) (himports : i.imports = [r]) (hr : r.IsLine)
    (hnames : ∀ name ∈ r.names, Shape.IsClassless name) (hbalanced : Brace.IsBalanced i.member)
    (habsent : i.isPresent t = false) (hc : ClassApart r.source t top header body tail) :
    ∃ u head members margin tail', Made .classEnd [i] t u ∧
      Gathers u head (members ++ i.member) margin tail' ∧ i.AddsNoMark r t u := by
  obtain ⟨members, margin, rfl, hmargin, -, hlocated⟩ := hc.hasClass.exists_margin
  have hg : Gathers t (top ++ header) members margin tail := ⟨hc.hasClass, hmargin, hlocated⟩
  have hplan := hg.plan_with_import hkind himports habsent
  have hmet : ∃ t' head' tail', Gathers t' head' members margin tail' ∧
      splice t ((r.plan? t).toList ++ [.insert (top ++ header ++ '{' :: members) i.member]) =
        .ok (head' ++ '{' :: members ++ i.member ++ (margin ++ '}' :: tail')) ∧
      ∀ m, IsMark m → r.Lacks m → ¬m <:+: t → ¬m <:+: t' := by
    cases hedit : r.plan? t with
    | none => exact ⟨t, _, _, hg, hg.splice_eq _, fun _ _ _ h => h⟩
    | some e =>
        obtain ⟨above, old, new, below, rfl, ht, hchange⟩ := r.exists_change hedit
        obtain ⟨head', tail', hg', hsplice⟩ :=
          hchange.exists_gathers ht hr hnames hc hg i.member
        exact ⟨_, head', tail', hg', hsplice, fun m => hchange.spares ht hr⟩
  obtain ⟨t', head', tail', hg', hsplice, hspares⟩ := hmet
  refine ⟨_, head', members, margin, tail', .single hplan hsplice,
    hg'.add hbalanced rfl i.getLast?_member, fun m hm hlacks hfragment hmt hmu => ?_⟩
  rcases isInfix_of_member hm hmu with h | h
  · exact hfragment h
  · refine hspares m hm hlacks hmt ?_
    rw [hg'.hasClass.whole]
    simpa using h

/-- A further member comes with its import to a class whose last member ends in a brace. -/
theorem Gathers.exists_made_with_import (h : Gathers t head members margin tail)
    (hkind : i.kind = .shard) (himports : i.imports = [r]) (habsent : i.isPresent t = false)
    (hend : "\x7d\n".toList <:+ members) : ∃ u, Made .classEnd [i] t u := by
  have hplan := h.plan_with_import hkind himports habsent
  have hsplice : ∃ u, splice t ((r.plan? t).toList ++
      [.insert (head ++ '{' :: members) i.member]) = .ok u := by
    cases hedit : r.plan? t with
    | none => exact ⟨_, h.splice_eq _⟩
    | some e =>
        obtain ⟨above, old, new, below, rfl, ht, hchange⟩ := r.exists_change hedit
        have hwhole : t = head ++ '{' :: members ++ (margin ++ '}' :: tail) := by
          rw [h.hasClass.whole]
          simp
        refine hchange.exists_splice ht hwhole (hend.trans ?_) i.member
        exact (List.suffix_cons '{' members).trans (List.suffix_append head _)
  obtain ⟨u, hu⟩ := hsplice
  exact ⟨u, .single hplan hu⟩

theorem exists_made_at_end (hkind : i.kind = .schemas) (himports : i.imports = [r]) (hr : r.IsLine)
    (habsent : i.isPresent t = false) : ∃ u, Made .textEnd [i] t u ∧ i.AddsNoMark r t u := by
  have hplan : i.plan t = .edits ((r.plan? t).toList ++ [.insert t (i.appended t)]) .textEnd none := by
    refine plan_with_import himports habsent (by rw [hkind]; decide) (k := ⟨t, []⟩) ?_ ?_
    · simp [place?, hkind, FileKind.anchors, FileKind.mainAnchor, Anchor.locate]
    · rw [fragmentEdits, hkind]
      rfl
  have hmet : ∃ t', splice t ((r.plan? t).toList ++ [.insert t (i.appended t)]) =
        .ok (t' ++ i.appended t) ∧
      (Text.beginsLine t.getLast? = true → Text.beginsLine t'.getLast? = true) ∧
      ∀ m, IsMark m → r.Lacks m → ¬m <:+: t → ¬m <:+: t' := by
    cases hedit : r.plan? t with
    | none =>
        have hsplice := splice_insert t [] (i.appended t)
        rw [List.append_nil, List.append_nil] at hsplice
        exact ⟨t, hsplice, id, fun _ _ _ h => h⟩
    | some e =>
        obtain ⟨above, old, new, below, rfl, ht, hchange⟩ := r.exists_change hedit
        have hsplice := splice_replace_pair above old below [] [] new (i.appended t)
        rw [List.append_nil, List.append_nil, List.append_nil, ← ht] at hsplice
        exact ⟨_, hsplice, fun hline => hchange.beginsLine (ht ▸ hline), fun m =>
          hchange.spares ht hr⟩
  obtain ⟨t', hsplice, hended, hspares⟩ := hmet
  refine ⟨_, .single hplan hsplice, fun m hm hlacks hfragment hmt hmu => ?_⟩
  exact (isInfix_of_appended hm hended hmu).elim hfragment (hspares m hm hlacks hmt)

end Insertion

end Scaffold
