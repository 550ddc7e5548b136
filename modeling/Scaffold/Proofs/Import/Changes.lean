import Scaffold.Proofs.Anchor.FirstLine
import Scaffold.Proofs.Import.Added
import Scaffold.Proofs.Import.Statements
import Scaffold.Proofs.Text.Marks

namespace Scaffold

open Text

namespace Import

variable {list m : Text} {old extra es : List Text}

theorem isInfix_of_mem_entries {e : Text} (he : e ∈ entries list) : e <:+: list := by
  obtain ⟨p, hp, rfl⟩ := List.mem_map.1 (List.mem_of_mem_filter he)
  exact (infix_trim p).trans ((isInfix_of_mem_splitOn hp).trans
    ((begins_dropEndWhile _ _).isInfix.trans (List.dropWhile_suffix _).isInfix))

theorem exists_of_isInfix_row (hm : IsMark m) (h : m <:+: List.intercalate ", " es ++ " ") :
    ∃ e ∈ es, m <:+: e ++ " " ∧ (m <:+: e ∨ es.getLast? = some e) := by
  induction es with
  | nil =>
      have hnil : m <:+: [] := hm.of_blank_append (b := " ") blank_space h
      exact absurd (List.infix_nil.1 hnil) hm.ne_nil
  | cons e es ih =>
      cases es with
      | nil =>
          rw [List.intercalate_singleton] at h
          exact ⟨e, by simp, h, .inr rfl⟩
      | cons f es =>
          have hsplit : List.intercalate ", " (e :: f :: es) ++ " ".toList =
              e ++ ',' :: (" ".toList ++ (List.intercalate ", " (f :: es) ++ " ".toList)) := by
            rw [List.intercalate_cons_cons]
            simp
          rw [hsplit] at h
          rcases isInfix_of_append_sep hm.comma h with h | h
          · exact ⟨e, by simp, h.trans (List.prefix_append _ _).isInfix, .inl h⟩
          · obtain ⟨g, hg, hmg, hlast⟩ := ih (hm.of_blank_append blank_space h)
            exact ⟨g, List.mem_cons_of_mem e hg, hmg, hlast⟩

theorem exists_of_isInfix_column {indent : Text} (hindent : ∀ c ∈ indent, isBlank c = true)
    (hm : IsMark m) (h : m <:+: es.flatMap fun e => indent ++ e ++ ",\n") : ∃ e ∈ es, m <:+: e := by
  induction es with
  | nil => exact absurd (List.infix_nil.1 h) hm.ne_nil
  | cons e es ih =>
      have hsplit : ((e :: es).flatMap fun e => indent ++ e ++ ",\n".toList) =
          indent ++ e ++ ',' :: ("\n".toList ++ es.flatMap fun e => indent ++ e ++ ",\n".toList) := by
        simp
      rw [hsplit] at h
      rcases isInfix_of_append_sep hm.comma h with h | h
      · exact ⟨e, by simp, hm.of_blank_append hindent h⟩
      · obtain ⟨g, hg, hmg⟩ := ih (hm.of_blank_append blank_line h)
        exact ⟨g, List.mem_cons_of_mem e hg, hmg⟩

/-- A mark in a list that got more entries is in an old entry or in what was added. -/
theorem exists_of_isInfix_renderList (hm : IsMark m) (hextra : extra ≠ [])
    (h : m <:+: renderList list (old ++ extra)) :
    (∃ e ∈ old, m <:+: e) ∨ ∃ e ∈ extra, m <:+: e ++ " " := by
  unfold renderList at h
  split at h
  · have hbraces : ∀ x : Text, "\x7b\n".toList ++ x ++ "\x7d".toList =
        [] ++ '{' :: ("\n".toList ++ (x ++ '}' :: [])) := fun x => by simp
    rw [hbraces] at h
    rcases isInfix_of_append_sep hm.opening h with h | h
    · exact absurd (List.infix_nil.1 h) hm.ne_nil
    rcases isInfix_of_append_sep hm.closing (hm.of_blank_append blank_line h) with h | h
    · obtain ⟨e, he, hme⟩ := exists_of_isInfix_column (entryIndent_blank list) hm h
      rcases List.mem_append.1 he with he | he
      · exact .inl ⟨e, he, hme⟩
      · exact .inr ⟨e, he, hme.trans (List.prefix_append _ _).isInfix⟩
    · exact absurd (List.infix_nil.1 h) hm.ne_nil
  · have hbraces : ∀ x : Text, "\x7b ".toList ++ x ++ " \x7d".toList =
        [] ++ '{' :: (" ".toList ++ (x ++ " ".toList ++ '}' :: [])) := fun x => by simp
    rw [hbraces] at h
    rcases isInfix_of_append_sep hm.opening h with h | h
    · exact absurd (List.infix_nil.1 h) hm.ne_nil
    rcases isInfix_of_append_sep hm.closing (hm.of_blank_append blank_space h) with h | h
    · obtain ⟨e, he, hme, hlast⟩ := exists_of_isInfix_row hm h
      rcases hlast with hlast | hlast
      · rcases List.mem_append.1 he with he | he
        · exact .inl ⟨e, he, hlast⟩
        · exact .inr ⟨e, he, hme⟩
      · rw [List.getLast?_append_of_ne_nil old hextra] at hlast
        exact .inr ⟨e, List.mem_of_getLast? hlast, hme⟩
    · exact absurd (List.infix_nil.1 h) hm.ne_nil

theorem exists_renderList (list : Text) (es : List Text) :
    ∃ inner, renderList list es = '{' :: inner ++ ['}'] := by
  unfold renderList
  split
  · exact ⟨_, rfl⟩
  · exact ⟨' ' :: List.intercalate ", " es ++ " ".toList, by simp⟩

end Import

namespace ImportRequest

/-- What meeting a request does to a text: what stands between two parts of it becomes another text.
Either there is a new line at a seam, or a list has more entries. -/
inductive Change (r : ImportRequest) (t : Text) : Text → Text → Text → Text → Prop
  | line {y z : Text} {ls : List Text} (hseam : Seam y ls z)
      (hlines : ∀ l ∈ ls, l = [] ∨ ∃ quote, Shape.isQuote quote = true ∧ l = r.line quote)
      (hplace : y = [] ∨ Anchor.locate t .firstImport = some ⟨y, z⟩) :
      Change r t y [] (unlines ls) z
  | list {above below body : Text} {f : Import.Found} {extra : List Text}
      (hf : f ∈ Import.statements r.source t) (habove : ¬"\x7d\n".toList <:+ above)
      (htail : f.tail = f.list ++ below) (hrest : f.rest <:+ below)
      (hlist : f.list = '{' :: body ++ ['}']) (hbody : '}' ∉ body) (hne : extra ≠ [])
      (hextra : ∀ e ∈ extra, ∃ name ∈ r.names, e = name ∨ r.typeOnly = true ∧ e = "type " ++ name) :
      Change r t above f.list (Import.renderList f.list (Import.entries f.list ++ extra)) below

variable {r : ImportRequest} {t above old new below : Text}

theorem entry_eq (r : ImportRequest) (f : Import.Found) (name : Text) :
    r.entry f name = name ∨ r.typeOnly = true ∧ r.entry f name = "type " ++ name := by
  unfold entry
  split
  · next h =>
      rw [Bool.and_eq_true] at h
      exact .inr ⟨h.1, rfl⟩
  · exact .inl rfl

theorem mem_clause {e name : Text} {c : Char} (hname : name ∈ r.names)
    (he : e = name ∨ r.typeOnly = true ∧ e = "type " ++ name) (hc : c ∈ e) : c ∈ r.clause := by
  have hnames : name <:+: r.clause :=
    (isInfix_intercalate hname).trans (List.infix_append _ (List.intercalate ", " r.names) _)
  rcases he with rfl | ⟨htype, rfl⟩
  · exact hnames.subset hc
  · rcases List.mem_append.1 hc with hc | hc
    · rw [clause, if_pos htype, List.append_assoc, List.append_assoc]
      exact List.mem_append_left _ hc
    · exact hnames.subset hc

theorem exists_change {e : Edit} (h : r.plan? t = some e) : ∃ above old new below,
    e = .replace above old new ∧ t = above ++ old ++ below ∧ r.Change t above old new below := by
  unfold plan? at h
  split at h
  · next f hfind =>
      have hf := List.mem_of_find?_eq_some hfind
      obtain ⟨s, hlist, -, htail, hend⟩ := Import.exists_of_mem_statements hf
      obtain ⟨below, hbelow, hbehind⟩ := s.exists_below
      have hhead : (Cut.ofRest t f.tail).before = s.head := by
        conv => lhs; rw [htail, Cut.ofRest_append]
      have hrest : f.tail = f.list ++ below := by
        have hsplit := htail.symm.trans hbelow
        rw [List.append_assoc, hlist] at hsplit
        exact List.append_cancel_left hsplit
      simp only [join?] at h
      split at h
      · cases h
      · next hne =>
          have hextra : ∀ e ∈ (r.missing (Import.entries f.list)).map (r.entry f),
              ∃ name ∈ r.names, e = name ∨ r.typeOnly = true ∧ e = "type " ++ name := by
            intro e he
            obtain ⟨name, hname, rfl⟩ := List.mem_map.1 he
            exact ⟨name, List.mem_of_mem_filter hname, r.entry_eq f name⟩
          refine ⟨s.head, f.list, _, below, ?_, ?_, .list hf s.not_suffix_head hrest
            (hend ▸ hbehind) hlist.symm s.body_open (by simpa using hne) hextra⟩
          · rw [← hhead]
            exact (Option.some.inj h).symm
          · rw [← hlist]
            exact hbelow
  · obtain ⟨y, z, ls, rfl, hadd, hseam, hlines, hplace⟩ := r.exists_seam t
    refine ⟨y, [], unlines ls, z, ?_, by simp, .line hseam hlines hplace⟩
    rw [← Option.some.inj h, hadd, Edit.insert_eq_replace]

def IsLine (r : ImportRequest) : Prop := ∀ quote, Shape.isQuote quote = true → '\n' ∉ r.line quote

/-- A mark with a character that the statement lacks, however it is quoted. -/
def Lacks (r : ImportRequest) (m : Text) : Prop :=
  ∃ c ∈ m, ∀ quote, Shape.isQuote quote = true → c ∉ r.line quote

theorem shuns_line (hr : r.IsLine) {l : Text}
    (hl : l = [] ∨ ∃ quote, Shape.isQuote quote = true ∧ l = r.line quote) :
    Shape.classDeclaration.Shuns l := by
  rcases hl with rfl | ⟨quote, hquote, rfl⟩
  · exact ⟨by simp, Shape.classDeclaration_cons_eq_none (by decide) (by decide)⟩
  · exact ⟨hr quote hquote, fun z =>
      Shape.classDeclaration_cons_eq_none (c := 'i') (by decide) (by decide) _⟩

/-- No class begins above a seam, whatever comes to stand behind it. Every line there has a quote,
which a declaration does not go over. -/
theorem missesIn_of_seam {y z v x : Text} {ls : List Text} (h : Seam y ls z)
    (hmisses : Shape.classDeclaration.MissesIn true y v) :
    Shape.classDeclaration.MissesIn true y x := by
  intro u w huw hw hstart
  rw [lineAfter_true] at hstart
  obtain ⟨c, hc, hquote⟩ := h.quoted u w huw hw hstart
  obtain ⟨w₁, w₂, rfl⟩ := List.append_of_mem hc
  have hhalts : c ∈ Shape.classHalts := by
    simp only [Shape.isQuote, Bool.or_eq_true, beq_iff_eq] at hquote
    rcases hquote with rfl | rfl <;> decide
  have hnone := hmisses u _ huw hw (by rwa [lineAfter_true])
  rw [List.append_assoc, List.cons_append] at hnone ⊢
  exact (Shape.haltsAt_classDeclaration hhalts).eq_none hnone _

theorem isClassless_of_added (hr : r.IsLine) (hnames : ∀ name ∈ r.names, Shape.IsClassless name)
    {extra : List Text}
    (hextra : ∀ e ∈ extra, ∃ name ∈ r.names, e = name ∨ r.typeOnly = true ∧ e = "type " ++ name) :
    ∀ e ∈ extra, '\n' ∉ e ∧ Shape.IsClassless e := by
  intro e he
  obtain ⟨name, hname, heq⟩ := hextra e he
  have hflat : '\n' ∉ e := by
    intro hmem
    refine hr '\'' rfl ?_
    rw [line_eq, List.append_assoc]
    exact List.mem_append_left _ (List.mem_append_right _ (r.mem_clause hname heq hmem))
  refine ⟨hflat, ?_⟩
  rcases heq with rfl | ⟨-, rfl⟩
  · exact hnames e hname
  · exact Shape.isClassless_of_head (c := 't') hflat rfl (by decide) (by decide)

namespace Change

theorem beginsLine (h : r.Change t above old new below) {u : Text}
    (hu : Text.beginsLine (above ++ old ++ u).getLast? = true) :
    Text.beginsLine (above ++ new ++ u).getLast? = true := by
  by_cases hnil : u = []
  · subst hnil
    rw [List.append_nil] at hu ⊢
    cases h with
    | line =>
        rw [List.append_nil] at hu
        exact beginsLine_append hu (beginsLine_unlines _)
    | list hf habove htail hrest hlist =>
        rw [hlist, ← List.append_assoc, List.getLast?_concat] at hu
        cases hu
  · rwa [List.getLast?_append_of_ne_nil _ hnil] at hu ⊢

theorem missesIn (h : r.Change t above old new below) (hr : r.IsLine)
    (hnames : ∀ name ∈ r.names, Shape.IsClassless name)
    (hentries : ∀ f ∈ Import.statements r.source t, ∀ e ∈ Import.entries f.list,
      Shape.IsClassless e) {u rest : Text} (hbelow : below = u ++ rest) (hrest : rest ≠ [])
    (hmisses : Shape.classDeclaration.MissesIn true (above ++ old ++ u) rest) :
    Shape.classDeclaration.MissesIn true (above ++ new ++ u) rest := by
  have hne : below ≠ [] := by simp [hbelow, hrest]
  obtain ⟨hupper, hlower⟩ := Shape.missesIn_append.1 hmisses
  obtain ⟨habove, -⟩ := Shape.missesIn_append.1 hupper
  cases h with
  | @line _ ls hseam hlines hplace =>
      have hline : Text.beginsLine above.getLast? = true :=
        hseam.line.resolve_right fun h => hne h.1
      rw [List.append_nil, lineAfter_true, hline] at hlower
      refine Shape.missesIn_append.2 ⟨Shape.missesIn_append.2 ⟨?_, ?_⟩, ?_⟩
      · exact missesIn_of_seam hseam habove
      · exact Shape.missesIn_unlines fun l hl => shuns_line hr (hlines l hl)
      · rwa [lineAfter_true, beginsLine_append hline (beginsLine_unlines ls)]
  | @list _ body f extra hf hends htail hbehind hlist hbody hextra hadded =>
      obtain ⟨inner, hrender⟩ :=
        Import.exists_renderList f.list (Import.entries f.list ++ extra)
      have hopens : ∀ x : Text, f.list ++ x = '{' :: (body ++ '}' :: x) := fun x => by simp [hlist]
      have hclosed : ∀ x : Text, lineAfter true (above ++ ('{' :: x ++ ['}'])) = false := fun x => by
        rw [lineAfter_true, ← List.append_assoc, List.getLast?_concat]
        rfl
      have hadds := isClassless_of_added hr hnames hadded
      refine Shape.missesIn_append.2 ⟨Shape.missesIn_append.2 ⟨?_, ?_⟩, ?_⟩
      · intro v w hvw hw hstart
        have hnone := habove v w hvw hw hstart
        rw [hopens] at hnone
        rw [hrender, List.append_assoc, List.cons_append]
        exact (Shape.haltsAt_classDeclaration (by decide)).eq_none hnone _
      · refine Shape.missesIn_renderList ?_ ?_
        · intro e he
          rcases List.mem_append.1 he with he | he
          · exact hentries f hf e he
          · exact (hadds e he).2
        · intro hflat e he
          rcases List.mem_append.1 he with he | he
          · exact fun hmem => hflat ((Import.isInfix_of_mem_entries he).subset hmem)
          · exact (hadds e he).1
      · rwa [hrender, hclosed, ← hclosed body, ← hlist]

theorem spares (h : r.Change t above old new below) (ht : t = above ++ old ++ below) {m : Text}
    (hr : r.IsLine) (hm : IsMark m) (hlacks : r.Lacks m) (hmt : ¬m <:+: t) :
    ¬m <:+: above ++ new ++ below := by
  intro hnew
  obtain ⟨c, hc, hline⟩ := hlacks
  cases h with
  | line hseam hlines hplace =>
      have hadds := hseam.adds fun l hl => shuns_line hr (hlines l hl)
      rw [List.append_assoc] at hnew
      obtain ⟨l, hl, hml⟩ := exists_mem_splitOn hnew hm.line
      rcases hadds l hl with hold | hadded
      · rw [List.append_nil] at ht
        exact hmt (ht ▸ hml.trans (isInfix_of_mem_splitOn hold))
      · rcases hlines l hadded with rfl | ⟨quote, hquote, rfl⟩
        · exact hm.ne_nil (List.infix_nil.1 hml)
        · exact hline quote hquote (hml.subset hc)
  | @list _ body f extra hf hends htail hbehind hlist hbody hne hextra =>
      have hletters : c ∉ "import ".toList ++ r.clause := by
        intro hmem
        refine hline '\'' rfl ?_
        rw [line_eq, List.append_assoc]
        exact List.mem_append_left _ hmem
      have hinner : m <:+: above ∨ m <:+: Import.renderList f.list (Import.entries f.list ++ extra) ∨
          m <:+: below := by
        obtain ⟨inner, hrender⟩ := Import.exists_renderList f.list (Import.entries f.list ++ extra)
        rw [hrender] at hnew ⊢
        have hbraces : above ++ ('{' :: inner ++ ['}']) ++ below =
            above ++ '{' :: (inner ++ '}' :: below) := by simp
        rw [hbraces] at hnew
        refine (isInfix_of_append_sep hm.opening hnew).imp_right fun h => ?_
        exact (isInfix_of_append_sep hm.closing h).imp_left fun h => h.trans ⟨['{'], ['}'], by simp⟩
      subst ht
      rcases hinner with habove | hrender | hbelow
      · exact hmt (habove.trans (List.prefix_append_of_prefix (List.prefix_append _ _)).isInfix)
      · rcases Import.exists_of_isInfix_renderList hm hne hrender with ⟨e, he, hme⟩ | ⟨e, he, hme⟩
        · exact hmt (hme.trans ((Import.isInfix_of_mem_entries he).trans (List.infix_append _ _ _)))
        · obtain ⟨name, hname, heq⟩ := hextra e he
          rcases List.mem_append.1 (hme.subset hc) with hc | hc
          · exact hletters (List.mem_append_right _ (r.mem_clause hname heq hc))
          · obtain rfl := List.mem_singleton.1 hc
            exact hletters (List.mem_append_left _ (by decide))
      · exact hmt (hbelow.trans (List.suffix_append _ _).isInfix)

end Change

end ImportRequest

end Scaffold
