import Scaffold.Import.Statement
import Scaffold.Proofs.Anchor.Shapes

namespace Scaffold

namespace Shape

theorem isBlank_of_isQuote {c : Char} (hc : isQuote c = true) : isBlank c = false := by
  simp only [isQuote, Bool.or_eq_true, beq_iff_eq] at hc
  rcases hc with rfl | rfl <;> decide

end Shape

namespace Import

open Shape

def typeWord : Option Text → Text
  | none => []
  | some gap => "type".toList ++ gap

def IsHead (isType : Bool) (w : Text) : Prop :=
  ∃ (gap : Text) (typeGap : Option Text), (gap ≠ [] ∧ ∀ c ∈ gap, isBlank c = true) ∧
    (∀ g ∈ typeGap, g ≠ [] ∧ ∀ c ∈ g, isBlank c = true) ∧ typeGap.isSome = isType ∧
    w = "import" ++ gap ++ typeWord typeGap

def IsClause (source w : Text) : Prop :=
  ∃ (fromGap quoteGap : Text) (opening closing : Char), (∀ c ∈ fromGap, isBlank c = true) ∧
    (∀ c ∈ quoteGap, isBlank c = true) ∧ isQuote opening = true ∧ isQuote closing = true ∧
    w = fromGap ++ "from" ++ quoteGap ++ opening :: source ++ [closing]

variable {source u : Text} {f : Found} {isType : Bool}

theorem exists_typed {t tail : Text}
    (h : ((literal "type" t).bind (many isBlank)).getD t = tail) :
    ∃ g : Option Text, g.isSome = ((literal "type" t).bind (many isBlank)).isSome ∧
      (∀ x ∈ g, x ≠ [] ∧ ∀ c ∈ x, isBlank c = true) ∧
      t = typeWord g ++ tail := by
  cases ht : (literal "type" t).bind (many isBlank) with
  | none =>
      rw [ht] at h
      exact ⟨none, rfl, by simp, by simpa [typeWord] using h⟩
  | some u =>
      rw [ht] at h
      obtain ⟨v, hv, hu⟩ := Option.bind_eq_some_iff.1 ht
      obtain ⟨g, hne, hg, rfl⟩ := eq_of_many hu
      rw [Option.getD_some] at h
      subst h
      refine ⟨some g, rfl, by simpa using ⟨hne, hg⟩, ?_⟩
      simpa [typeWord] using eq_of_literal hv

theorem typed_of_brace {typeGap : Option Text}
    (htypeGap : ∀ g ∈ typeGap, g ≠ [] ∧ ∀ c ∈ g, isBlank c = true) (t : Text) :
    (literal "type" (typeWord typeGap ++ '{' :: t)).bind (many isBlank) =
      if typeGap.isSome then some ('{' :: t) else none := by
  cases typeGap with
  | none =>
      rw [typeWord, List.nil_append, show "type".toList = 't' :: ['y', 'p', 'e'] from rfl,
        literal_append_of_ne (by decide)]
      rfl
  | some g =>
      obtain ⟨hne, hg⟩ := htypeGap g rfl
      rw [typeWord, List.append_assoc, literal_append, Option.bind_some,
        many_append hne hg (by simp; decide)]
      rfl

theorem exists_reading (h : found? source u = some f) : ∃ head body clause,
    IsHead f.isType head ∧ '}' ∉ body ∧ IsClause source clause ∧ f.list = '{' :: body ++ ['}'] ∧
      f.tail = f.list ++ clause ++ f.rest ∧ u = head ++ f.tail := by
  simp only [found?, Option.bind_eq_bind, Option.bind_eq_some_iff, Option.some.injEq] at h
  obtain ⟨t₁, h₁, t₂, h₂, inner, h₃, t₄, h₄, t₅, h₅, t₆, h₆, t₇, h₇, t₈, h₈, rfl⟩ := h
  obtain rfl := eq_of_literal h₁
  obtain ⟨gap, hne, hgap, rfl⟩ := eq_of_many h₂
  obtain ⟨typeGap, htype, htypeGap, htail⟩ := exists_typed rfl
  generalize ((literal "type" t₂).bind (many isBlank)).getD t₂ = tail at *
  obtain rfl := eq_of_literal h₃
  have hbody : inner.drop (inner.takeWhile (· != '}')).length = inner.dropWhile (· != '}') := by
    have hdrop : (inner.takeWhile (· != '}') ++ inner.dropWhile (· != '}')).drop
        (inner.takeWhile (· != '}')).length = inner.dropWhile (· != '}') := List.drop_left
    rwa [List.takeWhile_append_dropWhile] at hdrop
  obtain ⟨fromGap, hfromGap, hfrom⟩ := eq_blanks t₄
  obtain ⟨quoteGap, hquoteGap, hquote⟩ := eq_blanks t₅
  obtain ⟨q, hq, hopening⟩ := eq_of_one h₆
  obtain ⟨r, hr, hclosing⟩ := eq_of_one h₈
  have hinner : inner = inner.takeWhile (· != '}') ++ "\x7d" ++ fromGap ++ "from" ++ quoteGap ++
      q :: source ++ r :: t₈ := by
    conv => lhs; rw [← List.takeWhile_append_dropWhile (p := (· != '}')) (l := inner)]
    rw [← hbody, eq_of_literal h₄, hfrom, eq_of_literal h₅, hquote, hopening, eq_of_literal h₇,
      hclosing]
    simp
  refine ⟨"import" ++ gap ++ typeWord typeGap, inner.takeWhile (· != '}'),
    fromGap ++ "from" ++ quoteGap ++ q :: source ++ [r],
    ⟨gap, typeGap, ⟨hne, hgap⟩, htypeGap, htype, rfl⟩,
    fun h => absurd (List.mem_takeWhile_imp h) (by decide),
    ⟨fromGap, quoteGap, q, r, hfromGap, hquoteGap, hq, hr, rfl⟩, rfl, ?_, ?_⟩
  · conv => lhs; rw [hinner]
    simp
  · rw [htail]
    simp

theorem IsHead.reading {head : Text} (h : IsHead isType head) (t : Text) : ∃ u v,
    literal "import" (head ++ '{' :: t) = some u ∧ many isBlank u = some v ∧
      ((literal "type" v).bind (many isBlank)).isSome = isType ∧
      ((literal "type" v).bind (many isBlank)).getD v = '{' :: t := by
  obtain ⟨gap, typeGap, ⟨hne, hgap⟩, htypeGap, rfl, rfl⟩ := h
  have hvisible : (typeWord typeGap ++ '{' :: t).head?.any isBlank = false := by
    cases typeGap <;> simp [typeWord] <;> decide
  have htyped := typed_of_brace htypeGap t
  refine ⟨gap ++ (typeWord typeGap ++ '{' :: t), typeWord typeGap ++ '{' :: t, ?_,
    many_append hne hgap hvisible, ?_, ?_⟩
  · rw [List.append_assoc, List.append_assoc, literal_append]
  · rw [htyped]
    cases typeGap <;> rfl
  · rw [htyped]
    cases typeGap <;> rfl

theorem IsClause.reading {clause : Text} (h : IsClause source clause) (rest : Text) : ∃ u v w,
    literal "from" (blanks (clause ++ rest)) = some u ∧ one isQuote (blanks u) = some v ∧
      literal source v = some w ∧ one isQuote w = some rest := by
  obtain ⟨fromGap, quoteGap, q, r, hfromGap, hquoteGap, hq, hr, rfl⟩ := h
  have hfrom : blanks (fromGap ++ ("from".toList ++ (quoteGap ++ q :: (source ++ r :: rest)))) =
      "from".toList ++ (quoteGap ++ q :: (source ++ r :: rest)) :=
    blanks_append hfromGap (by simp; decide)
  have hquote : blanks (quoteGap ++ q :: (source ++ r :: rest)) = q :: (source ++ r :: rest) :=
    blanks_append hquoteGap (by simpa using isBlank_of_isQuote hq)
  refine ⟨quoteGap ++ q :: (source ++ r :: rest), source ++ r :: rest, r :: rest, ?_,
    by rw [hquote, one_cons hq], literal_append _ _, one_cons hr _⟩
  rw [← literal_append "from" (quoteGap ++ q :: (source ++ r :: rest)), ← hfrom]
  simp

theorem found?_reading {head body clause : Text} (hhead : IsHead isType head) (hbody : '}' ∉ body)
    (hclause : IsClause source clause) (rest : Text) :
    found? source (head ++ '{' :: body ++ '}' :: clause ++ rest) =
      some ⟨isType, '{' :: body ++ ['}'], '{' :: body ++ '}' :: clause ++ rest, rest⟩ := by
  obtain ⟨u, v, himport, hgap, htype, htail⟩ := hhead.reading (body ++ '}' :: (clause ++ rest))
  obtain ⟨x, y, z, hfrom, hopening, hsource, hclosing⟩ := hclause.reading rest
  have htake : (body ++ '}' :: (clause ++ rest)).takeWhile (· != '}') = body := by
    rw [List.takeWhile_append_of_pos fun c hc => by simpa using ne_of_mem_of_not_mem hc hbody]
    simp
  have hopen : literal "\x7b" ('{' :: (body ++ '}' :: (clause ++ rest))) =
      some (body ++ '}' :: (clause ++ rest)) := literal_append "\x7b" _
  have hclose : literal "\x7d" ('}' :: (clause ++ rest)) = some (clause ++ rest) :=
    literal_append "\x7d" _
  simp only [List.append_assoc, List.cons_append, found?, Option.bind_eq_bind, himport,
    Option.bind_some, hgap, htype, htail, hopen, htake, List.drop_left, hclose, hfrom, hopening,
    hsource, hclosing]

end Import

end Scaffold
