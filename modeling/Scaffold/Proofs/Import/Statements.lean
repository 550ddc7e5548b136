import Scaffold.Import.Plan
import Scaffold.Proofs.Import.Reading

namespace Scaffold

/-- A statement that imports a braced list from the module `source`, where it stands in a text:
after the lines `above`, with blanks between its words and `below` after it. -/
structure NamedImport (source t : Text) where
  above : Text
  gap : Text
  typeGap : Option Text
  body : Text
  fromGap : Text
  quoteGap : Text
  opening : Char
  closing : Char
  below : Text
  above_lines : above = [] ∨ above.getLast? = some '\n'
  gap_blank : gap ≠ [] ∧ ∀ c ∈ gap, isBlank c = true
  typeGap_blank : ∀ g ∈ typeGap, g ≠ [] ∧ ∀ c ∈ g, isBlank c = true
  body_open : '}' ∉ body
  fromGap_blank : ∀ c ∈ fromGap, isBlank c = true
  quoteGap_blank : ∀ c ∈ quoteGap, isBlank c = true
  quotes : Shape.isQuote opening = true ∧ Shape.isQuote closing = true
  whole : t = above ++ "import" ++ gap ++ Import.typeWord typeGap ++
    '{' :: body ++ "\x7d" ++ fromGap ++ "from" ++ quoteGap ++ opening :: source ++ closing :: below

namespace NamedImport

variable {source t : Text} (s : NamedImport source t)

def isType : Bool := s.typeGap.isSome

def head : Text :=
  s.above ++ "import" ++ s.gap ++ Import.typeWord s.typeGap

def list : Text := '{' :: s.body ++ ['}']

theorem exists_below : ∃ v, t = s.head ++ s.list ++ v ∧ s.below <:+ v := by
  refine ⟨s.fromGap ++ "from" ++ s.quoteGap ++ s.opening :: source ++ s.closing :: s.below, ?_, ?_⟩
  · conv => lhs; rw [s.whole]
    simp [head, list]
  · exact (List.suffix_cons s.closing s.below).trans (List.suffix_append _ _)

theorem not_suffix_head : ¬"\x7d\n".toList <:+ s.head := by
  have hgaps : ∀ {u g : Text}, u.getLast? ≠ some '}' → g ≠ [] → (∀ c ∈ g, isBlank c = true) →
      ¬"\x7d\n".toList <:+ u ++ g := by
    rintro u g hu hne hg ⟨x, hx⟩
    obtain ⟨g, c, rfl⟩ := (List.eq_nil_or_concat g).resolve_left hne
    have hsplit : (x ++ ['}']) ++ ['\n'] = (u ++ g) ++ [c] := by simpa using hx
    have hlast := congrArg List.getLast? (List.append_inj' hsplit rfl).1
    rw [List.getLast?_concat] at hlast
    by_cases hnil : g = []
    · rw [hnil, List.append_nil] at hlast
      exact hu hlast.symm
    · rw [List.getLast?_append_of_ne_nil u hnil] at hlast
      exact absurd (hg '}' (by simp [List.mem_of_getLast? hlast.symm])) (by decide)
  have hblank := s.gap_blank
  have htyped := s.typeGap_blank
  unfold head
  cases hg : s.typeGap with
  | none =>
      rw [Import.typeWord, List.append_nil]
      refine hgaps ?_ hblank.1 hblank.2
      rw [List.getLast?_append_of_ne_nil _ (by decide)]
      decide
  | some g =>
      obtain ⟨hne, hg⟩ := htyped g hg
      rw [Import.typeWord, ← List.append_assoc]
      refine hgaps ?_ hne hg
      rw [List.getLast?_append_of_ne_nil _ (by decide)]
      decide

end NamedImport

namespace Import

theorem exists_of_found? {source above u : Text} {f : Found} (h : found? source u = some f)
    (habove : above = [] ∨ above.getLast? = some '\n') :
    ∃ s : NamedImport source (above ++ u), s.list = f.list ∧ s.isType = f.isType ∧
      above ++ u = s.head ++ f.tail ∧ s.below = f.rest ∧ f.rest <:+ u := by
  obtain ⟨_, body, _, ⟨gap, typeGap, hgap, htypeGap, htype, rfl⟩, hbody,
    ⟨fromGap, quoteGap, q, r, hfromGap, hquoteGap, hq, hr, rfl⟩, hlist, htail, rfl⟩ :=
    exists_reading h
  refine ⟨⟨above, gap, typeGap, body, fromGap, quoteGap, q, r, f.rest, habove, hgap, htypeGap, hbody,
    hfromGap, hquoteGap, ⟨hq, hr⟩, ?_⟩, hlist.symm, htype, ?_, rfl, ?_⟩
  · rw [htail, hlist]
    simp
  · simp [NamedImport.head]
  · rw [htail]
    exact (List.suffix_append _ f.rest).trans (List.suffix_append _ _)

theorem exists_of_mem_foundFrom {source t u above : Text} {start : Bool} {f : Found}
    (hf : f ∈ foundFrom source start u) (ht : t = above ++ u)
    (hstart : start = true → above = [] ∨ above.getLast? = some '\n') :
    ∃ s : NamedImport source t, s.list = f.list ∧ s.isType = f.isType ∧ t = s.head ++ f.tail ∧
      s.below = f.rest := by
  -- What the search has passed is `above`; it ends a line whenever `start` says so.
  fun_induction foundFrom source start u generalizing above with
  | case1 => simp at hf
  | case2 c r g h ih =>
      subst ht
      obtain ⟨s, hlist, htype, htail, hbelow, w, hw⟩ := exists_of_found? h (hstart rfl)
      rcases List.mem_cons.1 hf with rfl | hf
      · exact ⟨s, hlist, htype, htail, hbelow⟩
      · exact @ih (above ++ w) hf (by rw [← hw, List.append_assoc]) (by simp)
  | case3 c r _ ih =>
      refine @ih (above ++ [c]) hf (by simp [ht]) fun hc => ?_
      exact .inr (by rw [List.getLast?_concat, beq_iff_eq.1 hc])
  | case4 _ c r _ ih =>
      refine @ih (above ++ [c]) hf (by simp [ht]) fun hc => ?_
      exact .inr (by rw [List.getLast?_concat, beq_iff_eq.1 hc])

theorem exists_of_mem_statements {source t : Text} {f : Found} (hf : f ∈ statements source t) :
    ∃ s : NamedImport source t, s.list = f.list ∧ s.isType = f.isType ∧ t = s.head ++ f.tail ∧
      s.below = f.rest :=
  exists_of_mem_foundFrom hf (List.nil_append t).symm fun _ => .inl rfl

end Import

namespace ImportRequest

variable (r : ImportRequest)

/-- The list of a statement with the requested names that it lacks. A type among values says that
it is one. -/
def merged {t : Text} (s : NamedImport r.source t) : List Text :=
  Import.entries s.list ++ (r.missing (Import.entries s.list)).map
    fun name => if r.typeOnly && !s.isType then "type ".toList ++ name else name

theorem exists_of_join? {t : Text} {f : Import.Found} {e : Edit}
    (hf : f ∈ Import.statements r.source t) (h : r.join? t f = some e) :
    ∃ s : NamedImport r.source t,
      e = .replace s.head s.list (Import.renderList s.list (r.merged s)) := by
  obtain ⟨s, hlist, htype, htail, -⟩ := Import.exists_of_mem_statements hf
  have hhead : (Cut.ofRest t f.tail).before = s.head := by
    conv => lhs; rw [htail, Cut.ofRest_append]
  simp only [join?] at h
  split at h
  · cases h
  · refine ⟨s, ?_⟩
    rw [← Option.some.inj h, hhead, ← hlist, merged, htype]
    rfl

end ImportRequest

end Scaffold
