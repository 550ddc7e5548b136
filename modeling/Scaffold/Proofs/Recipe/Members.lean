import Scaffold.Proofs.Insertion.Members
import Scaffold.Proofs.Recipe.Wires

namespace Scaffold

theorem Insertion.member_of_lines {i : Insertion} {u : Text} (h : i.fragment = u ++ "  \x7d" ++ "\n") :
    i.member = '\n' :: i.fragment := by
  have hlast : (u ++ "  \x7d".toList).getLast? = some '}' := by
    rw [List.getLast?_append]
    rfl
  rw [member, block, h, Text.dropFinalNewlines_line hlast (by decide)]
  rfl

namespace Layout

variable {l : Layout} {n : Name} {w : Wire} {t : Template} {generator : Text} {types : List Text}

theorem alike_marker (n : Name) (hgenerator : generator.all Text.isPlain = true) :
    Brace.Alike ("// stackgen[" ++ generator ++ ":" ++ n.kebab ++ "]") "//x" := by
  have hlead : Brace.IsInert " stackgen[" := by decide
  have htrail : Brace.IsInert "]" := by decide
  have hcolon : Brace.IsInert ":" := by decide
  have hword := (((hlead.append fun c hc => Brace.not_mem_signs_of_isPlain
    (List.all_eq_true.1 hgenerator c hc)).append hcolon.inert).append n.isInert_kebab.inert).append
      htrail.inert
  have hsample : Brace.IsInert "x" := by decide
  have h := (Brace.Alike.refl "//".toList).append (Brace.alike_of_isInert hword hsample)
  simpa using h

theorem isBalanced_of_shardWire (hshows : t.Shows) (hnests : t.Nests)
    (hgenerator : generator.all Text.isPlain = true)
    (h : l.shardWire n t generator types = .ok w) : Brace.IsBalanced w.insertion.member := by
  rw [shardWire, fragment_eq ((l.binds_bindings n).set _ _) hshows.slots] at h
  cases h
  generalize hb : (l.bindings n).set .marker _ = b
  obtain ⟨u, hlines⟩ := hnests.exists_lines b
  have hfill : Brace.IsBalanced ('\n' :: t.fill b) := by
    apply hnests.isBalanced_fill
    intro s hs
    have hsample : Brace.IsInert "x" := by decide
    have hslot := hnests.slots hs
    simp only [List.mem_cons, List.not_mem_nil, or_false] at hslot
    rw [← hb]
    rcases hslot with rfl | rfl | rfl | rfl | rfl
    · exact alike_marker n hgenerator
    · exact Brace.alike_of_isInert n.isInert_kebab hsample
    · exact Brace.alike_of_isInert n.isInert_pascal hsample
    · exact Brace.alike_of_isInert n.isInert_snake hsample
    · exact Brace.alike_of_isInert n.isInert_screaming hsample
  rw [Insertion.member_of_lines hlines]
  exact hfill

end Layout

theorem Wired.isBalanced {l : Layout} {n : Name} {w : Wire} (h : Wired l n w)
    (hkind : w.insertion.kind = .shard) : Brace.IsBalanced w.insertion.member := by
  cases h with
  | entry h =>
      rw [Layout.kind_of_entryWire h] at hkind
      cases hkind
  | schema h =>
      rw [Layout.kind_of_schemaWire h] at hkind
      cases hkind
  | shard hshows hnests hgenerator h =>
      exact Layout.isBalanced_of_shardWire hshows hnests hgenerator h
  | routes hregisters hroutes hdir hhandlers h =>
      rw [Layout.kind_of_routesWire h] at hkind
      cases hkind

def Product.sharded : List Product := [.table, .page .dashboard, .page .feed]

theorem Product.exists_shard {p : Product} {l : Layout} {n : Name} {r : Recipe}
    (hp : p ∈ sharded) (h : p.recipe l n = .ok r) : ∃ w ∈ r.wires, w.insertion.kind = .shard := by
  simp only [sharded, List.mem_cons, List.not_mem_nil, or_false] at hp
  rcases hp with rfl | rfl | rfl
  · obtain ⟨schema, -, h⟩ := bind_eq_ok_iff.1 h
    obtain ⟨shard, hshard, h⟩ := bind_eq_ok_iff.1 h
    cases h
    exact ⟨shard, by simp, Layout.kind_of_shardWire hshard⟩
  · obtain ⟨shard, hmem, hshard⟩ := (Recipe.exists_wires_of_page rfl h).1
    exact ⟨shard, hmem, Layout.kind_of_shardWire hshard⟩
  · obtain ⟨shard, hmem, hshard⟩ := (Recipe.exists_wires_of_page rfl h).1
    exact ⟨shard, hmem, Layout.kind_of_shardWire hshard⟩

/-- Members gather in a class. Where a class end is located and balanced members come to it one
after the other, none of them there before, every one goes in after those before it and before the
brace that closed the class at first, and the class end is then located on that brace's line. What
is generated for a shard is balanced. -/
theorem members_gather_in_class {t : Text} {k : Cut} {is : List Insertion}
    (hlocate : Anchor.locate t .classEnd = some k) (hne : is ≠ [])
    (hkind : ∀ i ∈ is, i.kind = .shard) (hbalanced : ∀ i ∈ is, Brace.IsBalanced i.member)
    (hbare : ∀ done i rest u, is = done ++ i :: rest → Made .classEnd done t u → i.IsBare u) :
    (∃ head members margin tail v,
      HasClass t head (members ++ margin) tail ∧
      k = ⟨head ++ '{' :: members, margin ++ '}' :: tail⟩ ∧
      Made .classEnd is t v ∧
      HasClass v head (members ++ is.flatMap Insertion.member ++ margin) tail ∧
      Anchor.locate v .classEnd =
        some (Cut.closing head (members ++ is.flatMap Insertion.member ++ margin) tail).lineStart) ∧
    ∀ p ∈ Product.sharded, ∀ (l : Layout) (n : Name), ∃ r, p.recipe l n = .ok r ∧
      (∃ w ∈ r.wires, w.insertion.kind = .shard) ∧
      ∀ w ∈ r.wires, w.insertion.kind = .shard → Brace.IsBalanced w.insertion.member := by
  constructor
  · obtain ⟨head, members, margin, tail, hgathers⟩ := Insertion.exists_gathers hlocate
    obtain ⟨v, hmade, hgathers'⟩ := hgathers.exists_made hkind hbalanced hbare
    have hlast : (members ++ is.flatMap Insertion.member).getLast? = some '\n' := by
      rw [List.getLast?_append, Insertion.getLast?_members hne, Option.some_or]
    obtain ⟨hend, hline⟩ := hgathers'.hasClass.locate_of_line hgathers.isMargin hlast
    refine ⟨head, members, margin, tail, v, hgathers.hasClass, ?_, hmade, hgathers'.hasClass, ?_⟩
    · rw [hgathers.located] at hlocate
      exact (Option.some.inj hlocate).symm
    · rw [hend, hline]
  · intro p hp l n
    obtain ⟨r, hr, -⟩ := p.exists_recipe l n
    exact ⟨r, hr, Product.exists_shard hp hr, fun w hw => (Product.wired_of_recipe hr hw).isBalanced⟩

theorem members_gather_in_class_notes :
    let one : Insertion := ⟨.shard, ["// [one]"], [], "// [one]\n  one() \x7b return '\x7d'; \x7d\n"⟩
    let two : Insertion := ⟨.shard, ["// [two]"], [], "// [two]\n  two() \x7b /* \x7b */ \x7d"⟩
    Made .classEnd [one, two] "class Notes \x7b\n  n = 0; // \x7d\n  \x7d\nrun();\n"
      ("class Notes \x7b\n  n = 0; // \x7d\n".toList ++ (one.member ++ two.member) ++
        "  \x7d\nrun();\n".toList) := by
  intro one two
  let head : Text := "class Notes "
  let body : Text := "\n  n = 0; // \x7d\n"
  let tail : Text := "\nrun();\n"
  let t : Text := head ++ '{' :: (body ++ "  ".toList ++ '}' :: tail)
  have hmargin : Brace.IsMargin "  ".toList := by simp [Brace.IsMargin]; decide
  have hclass : HasClass t head (body ++ "  ".toList) tail :=
    ⟨rfl, by decide, Brace.closing?_eq_some_iff.2 ⟨_, _, rfl, rfl, false, by decide⟩⟩
  have hgathers : Insertion.Gathers t head body "  " tail :=
    ⟨hclass, hmargin, (hclass.locate_of_line hmargin (by decide)).1⟩
  have hbare : ∀ done i rest u, [one, two] = done ++ i :: rest →
      Made .classEnd done t u → i.IsBare u := by
    intro done i rest u hsplit hmade
    rcases done with _ | ⟨_, _ | ⟨_, done⟩⟩
    · cases hmade
      cases hsplit
      exact ⟨by decide, by simp [one]⟩
    · cases hsplit
      cases hmade with
      | cons hplan hu hrest =>
          cases hrest
          rw [hgathers.plan_eq rfl ⟨by decide, by simp [one]⟩] at hplan
          cases hplan
          rw [hgathers.splice_eq] at hu
          cases hu
          exact ⟨by decide, by simp [two]⟩
    · simp at hsplit
  have hbalanced : ∀ i ∈ [one, two], Brace.IsBalanced i.member := by
    simp only [List.mem_cons, List.not_mem_nil, or_false, forall_eq_or_imp, forall_eq]
    exact ⟨⟨false, by decide⟩, ⟨false, by decide⟩⟩
  obtain ⟨start, members, margin, below, v, -, hk, hmade, hv, -⟩ :=
    (members_gather_in_class hgathers.located (by simp) (by simp [one, two]) hbalanced hbare).1
  injection hk with hbefore hafter
  have hwhole : v = (head ++ '{' :: body) ++ (one.member ++ two.member) ++
      ("  ".toList ++ '}' :: tail) := by
    rw [hv.whole, hbefore, hafter]
    simp
  rwa [hwhole] at hmade

end Scaffold
