import Scaffold.Proofs.Edit.Insertions
import Scaffold.Proofs.Import.Bindings
import Scaffold.Proofs.Import.Scanning

namespace Scaffold

open Text

namespace Import

variable {source w : Text} {start : Bool} {f : Found} {skipped later : List Found}

theorem exists_body {head body body' inner : Text} (hw : '}' ∉ w) (hhead : '{' ∉ head)
    (hbody : '}' ∉ body) (h : w ++ '{' :: inner = head ++ '{' :: body') :
    ∃ body'', w ++ '{' :: body = head ++ '{' :: body'' ∧ '}' ∉ body'' := by
  obtain ⟨a, rfl⟩ := prefix_of_append_cons hhead h
  cases a with
  | nil => exact ⟨body, by simp, hbody⟩
  | cons d a =>
      rw [List.append_assoc] at h
      obtain ⟨rfl, -⟩ := List.cons.inj (List.append_cancel_left h)
      refine ⟨a ++ '{' :: body, by simp, ?_⟩
      rw [List.mem_append, List.mem_cons, not_or, not_or]
      exact ⟨fun hmem => hw (by simp [hmem]), by decide, hbody⟩

theorem IsHead.head? {isType : Bool} (h : IsHead isType w) : w.head? = some 'i' := by
  obtain ⟨gap, typeGap, -, -, -, rfl⟩ := h
  rfl

/-- No clause that begins above a list, or on its line, goes over its opening brace: braces do not
occur in the module, or the module does not go on in the line of the statement. -/
theorem IsHead.not_isClause {above head : Text} {isType : Bool} (h : IsHead isType head)
    (habove : beginsLine above.getLast? = true) (hsource : '{' ∉ source ∨ '\n' ∉ source) :
    ∀ b v, b <:+ above ++ head → ¬IsClause source (b ++ '{' :: v) := by
  intro b v hb hclause
  rcases hsource with hopening | hline
  · exact hclause.not_mem (by decide) hopening (by simp)
  rcases List.suffix_or_suffix_of_suffix hb (List.suffix_append above head) with hb | ⟨a, rfl⟩
  · -- The brace would be in the module, and so the quote before it in the head.
    obtain ⟨fromGap, quoteGap, q, r, hfromGap, hquoteGap, hq, -, hwhole⟩ := hclause
    have hwords : '{' ∉ fromGap ++ "from" ++ quoteGap ++ [q] := by
      simp only [List.mem_append, List.mem_singleton, not_or]
      refine ⟨⟨⟨fun h => absurd (hfromGap _ h) (by decide), by decide⟩,
        fun h => absurd (hquoteGap _ h) (by decide)⟩, ?_⟩
      rintro rfl
      cases hq
    have hsplit : b ++ '{' :: v = (fromGap ++ "from" ++ quoteGap ++ [q]) ++ (source ++ [r]) := by
      rw [hwhole]
      simp
    obtain ⟨a, rfl⟩ := prefix_of_append_cons hwords hsplit
    exact h.not_mem_of_isQuote hq (hb.subset (by simp))
  · obtain ⟨x, hx⟩ := hb
    rw [← List.append_assoc] at hx
    have ha : a <:+ above := ⟨x, List.append_cancel_right hx⟩
    rw [List.append_assoc] at hclause
    refine hclause.head?_ne hline (beginsLine_of_suffix ha habove) ?_
    rw [List.head?_append, h.head?, Option.some_or]

theorem exists_found?_of_list {body inner below : Text}
    (hover : ∀ b v, b <:+ w → ¬IsClause source (b ++ '{' :: v))
    (hbody : '}' ∉ body) (hinner : '}' ∉ inner)
    (h : found? source (w ++ '{' :: inner ++ '}' :: below) = some f) :
    ∃ g, found? source (w ++ '{' :: body ++ '}' :: below) = some g := by
  obtain ⟨head, body', clause, hhead, hbody', hclause, hlist, htail, hwhole⟩ := exists_reading h
  have hsplit : w ++ '{' :: inner ++ '}' :: below =
      (head ++ '{' :: body') ++ '}' :: (clause ++ f.rest) := by
    rw [hwhole, htail, hlist]
    simp
  have hopen : '}' ∉ head ++ '{' :: body' := by
    rw [List.mem_append, List.mem_cons, not_or, not_or]
    exact ⟨hhead.not_mem (by decide), by decide, hbody'⟩
  by_cases hw : '}' ∈ w
  · -- The statement's own list is above, and its clause ends before the brace.
    obtain ⟨p, b, rfl, hp⟩ := List.eq_append_cons_of_mem hw
    have hfirst : p ++ '}' :: (b ++ '{' :: (inner ++ '}' :: below)) =
        (head ++ '{' :: body') ++ '}' :: (clause ++ f.rest) := by
      rw [← hsplit]
      simp
    obtain ⟨rfl, hb⟩ := append_cons_inj hp hopen hfirst
    obtain ⟨b, rfl⟩ : ∃ b', b = clause ++ b' := by
      rcases List.append_eq_append_iff.1 hb with ⟨a, rfl, ha⟩ | ⟨a, rfl, -⟩
      · cases a with
        | nil => exact ⟨[], by simp⟩
        | cons c a =>
            obtain ⟨rfl, -⟩ := List.cons.inj ha
            exact absurd hclause (hover b a (List.suffix_append_of_suffix (List.suffix_cons _ _)))
      · exact ⟨a, rfl⟩
    have hread := found?_reading hhead hbody' hclause (b ++ '{' :: body ++ '}' :: below)
    simp only [List.append_assoc, List.cons_append] at hread ⊢
    exact ⟨_, hread⟩
  · have hnone : '}' ∉ w ++ '{' :: inner := by
      rw [List.mem_append, List.mem_cons, not_or, not_or]
      exact ⟨hw, by decide, hinner⟩
    obtain ⟨hlists, rfl⟩ := append_cons_inj hnone hopen hsplit
    obtain ⟨body'', heq, hbody''⟩ := exists_body hw (hhead.not_mem (by decide)) hbody hlists
    have hread := found?_reading hhead hbody'' hclause f.rest
    rw [← heq] at hread
    simp only [List.append_assoc, List.cons_append] at hread ⊢
    exact ⟨_, hread⟩

theorem found?_of_list_eq_none {body inner below : Text}
    (hover : ∀ b v, b <:+ w → ¬IsClause source (b ++ '{' :: v))
    (hbody : '}' ∉ body) (hinner : '}' ∉ inner)
    (h : found? source (w ++ ('{' :: body ++ ['}']) ++ below) = none) :
    found? source (w ++ ('{' :: inner ++ ['}']) ++ below) = none := by
  simp only [List.append_assoc, List.singleton_append] at h ⊢
  rw [← List.append_assoc] at h ⊢
  by_contra hsome
  obtain ⟨g, hg⟩ := Option.ne_none_iff_exists'.1 hsome
  obtain ⟨g', hother⟩ := exists_found?_of_list hover hbody hinner hg
  rw [h] at hother
  cases hother

/-- With another list in its place a statement is still found, behind as many as before it, which are
all of the same sort as before, and with the same ones after it. -/
theorem foundFrom_of_list {u body : Text} (hsource : '{' ∉ source ∨ '\n' ∉ source)
    (hlist : f.list = '{' :: body ++ ['}']) (hbody : '}' ∉ body)
    (h : foundFrom source start u = skipped ++ f :: later) :
    ∃ above head below, IsHead f.isType head ∧ lineAfter start above = true ∧
      u = above ++ head ++ f.list ++ below ∧ f.tail = f.list ++ below ∧ ∀ inner, '}' ∉ inner →
      ∃ skipped' g, foundFrom source start (above ++ head ++ ('{' :: inner ++ ['}']) ++ below) =
          skipped' ++ g :: later ∧
        skipped'.map Found.isType = skipped.map Found.isType ∧ g.isType = f.isType ∧
        g.list = '{' :: inner ++ ['}'] := by
  fun_induction foundFrom source start u generalizing skipped with
  | case1 => simp at h
  | case2 c r g hg ih =>
      obtain ⟨head, body', clause, hhead, hbody', hclause, hlist', htail, hwhole⟩ := exists_reading hg
      cases skipped with
      | nil =>
          obtain ⟨rfl, rfl⟩ := List.cons.inj h
          refine ⟨[], head, clause ++ g.rest, hhead, rfl, ?_, ?_, fun inner hinner => ?_⟩
          · rw [hwhole, htail]
            simp
          · rw [htail, List.append_assoc]
          · have hread := found?_reading hhead hinner hclause g.rest
            have hfound := foundFrom_of_found? hread
            simp only [List.append_assoc, List.cons_append, List.nil_append] at hfound ⊢
            exact ⟨[], _, hfound, rfl, rfl, rfl⟩
      | cons e skipped =>
          obtain ⟨rfl, hrest⟩ := List.cons.inj h
          obtain ⟨above, fhead, below, hfhead, hline, hbelow, hftail, hlists⟩ := ih hrest
          refine ⟨head ++ '{' :: body' ++ '}' :: clause ++ above, fhead, below, hfhead, ?_, ?_, hftail,
            fun inner hinner => ?_⟩
          · rw [lineAfter_append, List.append_cons, hclause.lineAfter_eq_false]
            exact hline
          · rw [hwhole, htail, hlist', hbelow]
            simp
          · obtain ⟨skipped', e, hfound, hskipped, htype, helist⟩ := hlists inner hinner
            have hread := found?_reading hhead hbody' hclause
              (above ++ fhead ++ ('{' :: inner ++ ['}']) ++ below)
            have hhere := foundFrom_of_found? hread
            rw [hfound] at hhere
            simp only [List.append_assoc, List.cons_append, List.nil_append] at hhere ⊢
            exact ⟨_ :: skipped', e, hhere, by rw [List.map_cons, hskipped]; rfl, htype, helist⟩
  | case3 c r hnone ih =>
      obtain ⟨above, head, below, hhead, hline, rfl, hftail, hlists⟩ := ih h
      have hstart : lineAfter true (c :: above) = true := by rwa [lineAfter_cons]
      refine ⟨c :: above, head, below, hhead, hstart, rfl, hftail, fun inner hinner => ?_⟩
      -- What begins here is no statement with the old list, and what the list holds has no say in it.
      have hover := hhead.not_isClause (lineAfter_true ▸ hstart) hsource
      rw [hlist, ← List.cons_append, ← List.cons_append, ← List.cons_append] at hnone
      have hstill := found?_of_list_eq_none hover hbody hinner hnone
      have hskip : foundFrom source true (c :: (above ++ head ++ ('{' :: inner ++ ['}']) ++ below)) =
          foundFrom source (c == '\n') (above ++ head ++ ('{' :: inner ++ ['}']) ++ below) :=
        foundFrom_cons fun _ => hstill
      simp only [List.cons_append] at hskip ⊢
      rw [hskip]
      exact hlists inner hinner
  | case4 start c r hstart ih =>
      obtain ⟨above, head, below, hhead, hline, rfl, hftail, hlists⟩ := ih h
      refine ⟨c :: above, head, below, hhead, by rwa [lineAfter_cons], rfl, hftail,
        fun inner hinner => ?_⟩
      have hskip : foundFrom source start (c :: (above ++ head ++ ('{' :: inner ++ ['}']) ++ below)) =
          foundFrom source (c == '\n') (above ++ head ++ ('{' :: inner ++ ['}']) ++ below) :=
        foundFrom_cons fun hs => absurd hs (by simpa using hstart)
      simp only [List.cons_append] at hskip ⊢
      rw [hskip]
      exact hlists inner hinner

/-- There is a statement above the end of the text whose list is not closed there. -/
def IsOpen (y : Text) : Prop := ∃ u v, y = u ++ v ∧ lineAfter true u = true ∧ Opens v

theorem found?_eq_none {u : Text} (h : u.head? ≠ some 'i') : found? source u = none := by
  by_contra hsome
  obtain ⟨f, hf⟩ := Option.ne_none_iff_exists'.1 hsome
  obtain ⟨head, body, clause, hhead, -, -, -, -, rfl⟩ := exists_reading hf
  exact h (by rw [List.head?_append, hhead.head?, Option.some_or])

theorem IsOpen.brace {y : Text} (h : IsOpen y) : '{' ∈ y := by
  obtain ⟨u, v, rfl, -, isType, head, body, -, -, rfl⟩ := h
  simp

theorem exists_renderList_closed (list : Text) {es : List Text} (hes : ∀ e ∈ es, '}' ∉ e) :
    ∃ inner, renderList list es = '{' :: inner ++ ['}'] ∧ '}' ∉ inner := by
  unfold renderList
  split
  · refine ⟨'\n' :: es.flatMap fun e => entryIndent list ++ e ++ ",\n", rfl, fun hmem => ?_⟩
    rcases List.mem_cons.1 hmem with h | h
    · cases h
    · obtain ⟨e, he, hc⟩ := List.mem_flatMap.1 h
      rw [List.mem_append, List.mem_append] at hc
      rcases hc with (hc | hc) | hc
      · exact absurd (entryIndent_blank list _ hc) (by decide)
      · exact hes e he hc
      · exact absurd hc (by decide)
  · refine ⟨' ' :: List.intercalate ", " es ++ " ".toList, by simp, fun hmem => ?_⟩
    rcases List.mem_append.1 hmem with h | h
    · rcases List.mem_cons.1 h with h | h
      · cases h
      · rcases mem_intercalate h with h | ⟨e, he, hc⟩
        · exact absurd h (by decide)
        · exact hes e he hc
    · exact absurd h (by decide)

theorem IsName.closing {name : Text} (h : IsName name) : '}' ∉ name :=
  fun hmem => h.unbroken _ hmem (by decide)

theorem closing_of_mem_entries {body e : Text} (hbody : '}' ∉ body)
    (he : e ∈ entries ('{' :: body ++ ['}'])) : '}' ∉ e := by
  have hinner : ∃ v, dropEndWhile (· == '}') (('{' :: body ++ ['}']).dropWhile (· == '{')) <+: v ∧
      v <:+ '{' :: body := by
    rcases List.suffix_concat_iff.1 (List.dropWhile_suffix (l := '{' :: body ++ ['}']) (· == '{'))
      with h | ⟨v, hv, hsuffix⟩
    · rw [h]
      exact ⟨[], List.prefix_refl _, List.nil_suffix⟩
    · rw [hv, dropEndWhile_append_of_all (by simp)]
      exact ⟨v, begins_dropEndWhile _ _, hsuffix⟩
  obtain ⟨v, hbegin, hend⟩ := hinner
  obtain ⟨p, hp, rfl⟩ := List.mem_map.1 (List.mem_of_mem_filter he)
  intro hmem
  have hpart := (isInfix_of_mem_splitOn hp).subset ((infix_trim p).subset hmem)
  rcases List.mem_cons.1 (hend.subset (hbegin.subset hpart)) with h | h
  · cases h
  · exact hbody h

end Import

namespace ImportRequest

open Import

variable {r : ImportRequest} {t : Text} {f g : Found} {skipped later : List Found}

theorem plan?_eq_none_of_bound (hfound : statements r.source t = skipped ++ g :: later)
    (hskipped : ∀ f ∈ skipped, r.mayJoin f = false) (hg : r.mayJoin g = true)
    (hbound : ∀ name ∈ r.names, name ∈ g.bound) : r.plan? t = none := by
  have hfind : (statements r.source t).find? r.mayJoin = some g :=
    List.find?_eq_some_iff_append.2 ⟨hg, skipped, later, hfound, by simpa using hskipped⟩
  rw [plan?, hfind]
  exact join?_eq_none_iff.2 hbound

theorem closing_entry (hnames : ∀ name ∈ r.names, IsName name) {body : Text}
    (hlist : f.list = '{' :: body ++ ['}']) (hbody : '}' ∉ body) :
    ∀ e ∈ Import.entries f.list ++ (r.missing (Import.entries f.list)).map (r.entry f), '}' ∉ e := by
  intro e he
  rcases List.mem_append.1 he with he | he
  · exact closing_of_mem_entries hbody (hlist ▸ he)
  · obtain ⟨name, hname, rfl⟩ := List.mem_map.1 he
    have hclosing := (hnames name (List.mem_of_mem_filter hname)).closing
    rcases r.entry_eq f name with h | ⟨-, h⟩
    · rwa [h]
    · rw [h, List.mem_append, not_or]
      exact ⟨by decide, hclosing⟩

theorem bound_of_list {list : Text} (hnames : ∀ name ∈ r.names, IsName name)
    (hg : g.list = renderList list
      (Import.entries f.list ++ (r.missing (Import.entries f.list)).map (r.entry f))) :
    ∀ name ∈ r.names, name ∈ g.bound := by
  intro name hname
  rw [Found.bound, hg, entries_renderList list (isEntry_entry hnames f), List.map_append,
    List.mem_append]
  by_cases hbound : name ∈ f.bound
  · exact .inl hbound
  · refine .inr (List.mem_map.2 ⟨r.entry f name, List.mem_map_of_mem ?_, binding_entry hnames f hname⟩)
    rw [missing_eq]
    exact List.mem_filter.2 ⟨hname, by simpa using hbound⟩

/-- After a list has been made longer the same statements are found, with the new list in its place. -/
theorem exists_joined (hnames : ∀ name ∈ r.names, IsName name)
    (hsource : '{' ∉ r.source ∨ '\n' ∉ r.source) {e : Edit}
    (hfound : statements r.source t = skipped ++ f :: later) (h : r.join? t f = some e) :
    ∃ after skipped' g, splice t [e] = .ok after ∧
      statements r.source after = skipped' ++ g :: later ∧
      skipped'.map Found.isType = skipped.map Found.isType ∧ g.isType = f.isType ∧
      g.list = renderList f.list
        (Import.entries f.list ++ (r.missing (Import.entries f.list)).map (r.entry f)) := by
  have hf : f ∈ statements r.source t := by simp [hfound]
  obtain ⟨s, hlist, -⟩ := exists_of_mem_statements hf
  have hbody : f.list = '{' :: s.body ++ ['}'] := hlist.symm
  obtain ⟨above, head, below, -, -, rfl, htail, hlists⟩ :=
    foundFrom_of_list hsource hbody s.body_open hfound
  obtain ⟨inner, hinner, hclosed⟩ :=
    exists_renderList_closed f.list (closing_entry hnames hbody s.body_open)
  obtain ⟨skipped', g, hfound', htypes, htype, hglist⟩ := hlists inner hclosed
  simp only [join?] at h
  split at h
  · cases h
  · obtain rfl := Option.some.inj h
    have hcut : Cut.ofRest (above ++ head ++ f.list ++ below) f.tail = ⟨above ++ head, f.tail⟩ := by
      rw [htail, List.append_assoc, Cut.ofRest_append]
    rw [hcut]
    exact ⟨_, skipped', g, splice_replace (above ++ head) f.list below _, hinner ▸ hfound', htypes,
      htype, hglist.trans hinner.symm⟩

theorem mayJoin_congr {a b : Found} (h : a.isType = b.isType) : r.mayJoin a = r.mayJoin b := by
  rw [mayJoin, mayJoin, h]

theorem mayJoin_of_types {as bs : List Found} (h : bs.map Found.isType = as.map Found.isType)
    (has : ∀ a ∈ as, r.mayJoin a = false) : ∀ b ∈ bs, r.mayJoin b = false := by
  intro b hb
  have hmem : b.isType ∈ as.map Found.isType := h ▸ List.mem_map_of_mem hb
  obtain ⟨a, ha, hab⟩ := List.mem_map.1 hmem
  rw [← mayJoin_congr hab]
  exact has a ha

/-- A list that has been made longer binds all the names. -/
theorem plan?_of_join (hnames : ∀ name ∈ r.names, IsName name)
    (hsource : '{' ∉ r.source ∨ '\n' ∉ r.source) {e : Edit}
    (hfind : (statements r.source t).find? r.mayJoin = some f) (h : r.join? t f = some e) :
    ∃ after, splice t [e] = .ok after ∧ r.plan? after = none := by
  obtain ⟨hjoins, skipped, later, hfound, hskipped⟩ := List.find?_eq_some_iff_append.1 hfind
  obtain ⟨after, skipped', g, hafter, hfound', htypes, htype, hglist⟩ :=
    exists_joined hnames hsource hfound h
  have hskipped' := mayJoin_of_types htypes (by simpa using hskipped)
  exact ⟨after, hafter, plan?_eq_none_of_bound hfound' hskipped' ((mayJoin_congr htype).trans hjoins)
    (bound_of_list hnames hglist)⟩

theorem exists_place (r : ImportRequest) (t : Text) : ∃ y z lead trail quote, t = y ++ z ∧
    r.addStatement t = .insert y (lead ++ (r.line quote ++ '\n' :: trail)) ∧
    Shape.isQuote quote = true ∧
    (lead = [] ∧ beginsLine y.getLast? = true ∨ lead = ['\n']) ∧
    (y = [] ∨ Anchor.locate t .firstImport = some ⟨y, z⟩) := by
  have hquote := isQuote_quoteStyle t
  have hstatement : ∀ quote, r.statement quote = r.line quote ++ ['\n'] := fun quote => by
    rw [statement_eq]
    simp
  unfold addStatement
  simp only [hstatement]
  split
  · next k hk =>
      obtain ⟨hwhole, -⟩ := Anchor.isJoint_of_firstImport hk
      by_cases hends : endsLine k.before = true
      · refine ⟨k.before, k.after, [], [], _, hwhole.symm, by rw [if_pos hends]; rfl, hquote,
          .inl ⟨rfl, ?_⟩, .inr hk⟩
        rw [beq_iff_eq.1 hends]
        rfl
      · exact ⟨k.before, k.after, ['\n'], [], _, hwhole.symm, by rw [if_neg hends]; rfl, hquote,
          .inr rfl, .inr hk⟩
  · split
    · exact ⟨[], t, [], [], _, rfl, by simp, hquote, .inl ⟨rfl, rfl⟩, .inl rfl⟩
    · exact ⟨[], t, [], ['\n'], _, rfl, by simp, hquote, .inl ⟨rfl, rfl⟩, .inl rfl⟩

theorem found?_line (hnames : ∀ name ∈ r.names, IsName name) {quote : Char}
    (hquote : Shape.isQuote quote = true) (z : Text) :
    ∃ g, found? r.source (r.line quote ++ z) = some g ∧ g.isType = r.typeOnly ∧
      g.list = renderList [] r.names := by
  have hhead : IsHead r.typeOnly
      ("import ".toList ++ (if r.typeOnly then "type " else "").toList) := by
    refine ⟨" ", if r.typeOnly then some " " else none, ⟨by decide, blank_space⟩, ?_, ?_, ?_⟩
    · cases r.typeOnly
      · simp
      · simpa using blank_space
    · cases r.typeOnly <;> rfl
    · cases r.typeOnly <;> rfl
  have hbody : '}' ∉ " ".toList ++ List.intercalate ", " r.names ++ " ".toList := by
    rw [List.mem_append, List.mem_append, not_or, not_or]
    refine ⟨⟨by decide, fun hmem => ?_⟩, by decide⟩
    rcases mem_intercalate hmem with h | ⟨name, hname, h⟩
    · exact absurd h (by decide)
    · exact (hnames name hname).closing h
  have hclause : IsClause r.source (" from ".toList ++ quote :: r.source ++ [quote]) :=
    ⟨" ", " ", quote, quote, blank_space, blank_space, hquote, hquote, rfl⟩
  have hread := found?_reading hhead hbody hclause (';' :: z)
  have hline : r.line quote ++ z = "import ".toList ++ (if r.typeOnly then "type " else "").toList ++
      '{' :: (" ".toList ++ List.intercalate ", " r.names ++ " ".toList) ++
      '}' :: (" from ".toList ++ quote :: r.source ++ [quote]) ++ ';' :: z := by
    rw [line_eq, clause]
    simp
  rw [← hline] at hread
  refine ⟨_, hread, rfl, ?_⟩
  simp [renderList]

theorem seam_quoted {y z : Text} (h : y = [] ∨ Anchor.locate t .firstImport = some ⟨y, z⟩) :
    ∀ u v, y = u ++ v → v ≠ [] → beginsLine u.getLast? = true → ∃ c ∈ v, Shape.isQuote c = true := by
  rcases h with rfl | h
  · intro u v huv hv
    exact absurd (List.nil_eq_append_iff.1 huv).2 hv
  · have hseam : Seam y [[]] z := seam_of_firstImport h (.inr rfl)
    exact hseam.quoted

theorem clause_above {y lead a v x z : Text} {source : Text} (hline : '\n' ∉ source)
    (hx : x.head? = some 'i') (hlead : lead = [] ∧ beginsLine y.getLast? = true ∨ lead = ['\n'])
    (ha : a <:+ y) (hv : lead ++ x = v ++ z) (hclause : IsClause source (a ++ v)) : v = [] := by
  have hhead : ∀ {u v : Text}, x = v ++ z → IsClause source (u ++ v) →
      beginsLine u.getLast? = true → v = [] := by
    intro u v hxv hclause hu
    by_contra hne
    refine hclause.head?_ne hline hu ?_
    rwa [hxv, List.head?_append_of_ne_nil v hne] at hx
  rcases hlead with ⟨rfl, hy⟩ | rfl
  · exact hhead hv hclause (beginsLine_of_suffix ha hy)
  · cases v with
    | nil => rfl
    | cons c v =>
        obtain ⟨rfl, hxv⟩ := List.cons.inj hv
        rw [List.append_cons] at hclause
        have hends : beginsLine (a ++ ['\n']).getLast? = true := by
          rw [List.getLast?_concat]
          rfl
        obtain rfl := hhead hxv hclause hends
        have hfalse := hclause.lineAfter_eq_false true []
        rw [List.append_nil, List.nil_append, lineAfter_true, hends] at hfalse
        cases hfalse

/-- Where no list is open above a new statement, the request finds the statement. -/
theorem plan?_of_addStatement (hnames : ∀ name ∈ r.names, IsName name)
    (hsource : '\n' ∉ r.source ∧ '}' ∉ r.source)
    (hfind : (statements r.source t).find? r.mayJoin = none) :
    ∃ y z new after, t = y ++ z ∧ r.addStatement t = .insert y new ∧
      splice t [.insert y new] = .ok after ∧ (¬IsOpen y → r.plan? after = none) := by
  obtain ⟨y, z, lead, trail, quote, rfl, hadd, hquote, hlead, hplace⟩ := r.exists_place t
  refine ⟨y, z, _, _, rfl, hadd, splice_insert y z _, fun hopen => ?_⟩
  obtain ⟨g, hg, htype, hlist⟩ := found?_line hnames hquote ('\n' :: (trail ++ z))
  have hparted : Parted r.source true y (lead ++ (r.line quote ++ '\n' :: (trail ++ z))) := by
    refine ⟨fun u v huv hv hline => ?_, fun u v huv hline h => hopen ⟨u, v, huv, hline, h⟩,
      fun a v w ha hv hclause => clause_above hsource.1 rfl hlead ha hv hclause⟩
    rw [lineAfter_true] at hline
    exact seam_quoted hplace u v huv hv hline
  obtain ⟨above, habove, htypes⟩ := hparted.exists_foundFrom hsource.2 z
  have hstatements : statements r.source (y ++ (lead ++ (r.line quote ++ '\n' :: (trail ++ z)))) =
      above ++ g :: foundFrom r.source false g.rest := by
    rw [statements, habove, ← foundFrom_of_found? hg]
    rcases hlead with ⟨rfl, hline⟩ | rfl
    · rw [lineAfter_true, hline]
      rfl
    · have hnone : ∀ u : Text, found? r.source ('\n' :: u) = none :=
        fun u => found?_eq_none (by simp)
      rw [List.singleton_append, foundFrom_cons fun _ => hnone _]
      rfl
  have hskipped : ∀ f ∈ above, r.mayJoin f = false := by
    intro f hf
    obtain ⟨e, he, htype⟩ := htypes f hf
    have hmay := List.find?_eq_none.1 hfind e he
    rw [mayJoin, ← htype]
    simpa [mayJoin] using hmay
  have hbound : ∀ name ∈ r.names, name ∈ g.bound := by
    intro name hname
    rw [Found.bound, hlist, entries_renderList [] fun e he => (hnames e he).isEntry]
    exact List.mem_map.2 ⟨name, hname, (hnames name hname).binding_eq⟩
  have hmay : r.mayJoin g = true := by
    rw [mayJoin, htype]
    cases r.typeOnly <;> rfl
  have hafter := plan?_eq_none_of_bound hstatements hskipped hmay hbound
  simpa using hafter

/-- A request that is met is met for good: what its edit makes of a text needs no further edit. This
holds of lists that are made longer and of new statements at the top, and also of one below the first
import, if no list of an import statement is open there. -/
theorem requests_are_met_once {e : Edit} (hnames : ∀ name ∈ r.names, IsName name)
    (hsource : ∀ c ∈ ['\n', '{', '}'], c ∉ r.source) (hplan : r.plan? t = some e) :
    ∃ after, splice t [e] = .ok after ∧
      ((e.isInsertion = true → 0 < e.start → ¬IsOpen (takeBytes e.start t)) →
        r.plan? after = none) := by
  unfold plan? at hplan
  split at hplan
  · next f hfind =>
      obtain ⟨after, hafter, hnone⟩ := plan?_of_join hnames (.inl (hsource '{' (by simp))) hfind hplan
      exact ⟨after, hafter, fun _ => hnone⟩
  · next hfind =>
      obtain ⟨y, z, new, after, rfl, hadd, hafter, hagain⟩ :=
        plan?_of_addStatement hnames ⟨hsource '\n' (by simp), hsource '}' (by simp)⟩ hfind
      obtain rfl : Edit.insert y new = e := by
        rw [← hadd]
        exact Option.some.inj hplan
      refine ⟨after, hafter, fun hopen => hagain ?_⟩
      by_cases hy : y = []
      · exact fun hisOpen => absurd hisOpen.brace (by simp [hy])
      · have hstart : 0 < bytes y := Nat.pos_of_ne_zero (mt bytes_eq_zero.1 hy)
        have hclosed := hopen (beq_self_eq_true _) hstart
        rwa [Edit.insert, takeBytes_bytes_append] at hclosed

theorem requests_are_met_once_line : ∃ after,
    splice "import x from 'x';\n"
      [.insert "import x from 'x';\n".toList "import \x7b z \x7d from 'zod';\n"] = .ok after ∧
      plan? ⟨"zod", ["z"], false⟩ after = none := by
  have hnames : ∀ name ∈ ["z".toList], IsName name := by
    simp only [List.mem_singleton, forall_eq]
    exact isName_of_isIdentifier rfl
  have hplan : plan? ⟨"zod", ["z"], false⟩ "import x from 'x';\n" =
      some (.insert "import x from 'x';\n".toList "import \x7b z \x7d from 'zod';\n") := by
    decide +kernel
  obtain ⟨after, hafter, hnone⟩ := requests_are_met_once hnames (by simp) hplan
  refine ⟨after, hafter, hnone fun _ _ hopen => ?_⟩
  exact absurd hopen.brace (by decide +kernel)

/-- A quoted word in a comment of a list is taken for the end of the first import, and the new
statement comes to stand in the list. -/
theorem open_list_hides_statement : ∃ after,
    plan? ⟨"n", ["z"], false⟩ "import \x7b\n  a, // it's \"x\"\n  b,\n\x7d from 'm';\n" =
        some (.insert "import \x7b\n  a, // it's \"x\"\n".toList "import \x7b z \x7d from \"n\";\n") ∧
      splice "import \x7b\n  a, // it's \"x\"\n  b,\n\x7d from 'm';\n"
        [.insert "import \x7b\n  a, // it's \"x\"\n".toList "import \x7b z \x7d from \"n\";\n"] =
          .ok after ∧
      plan? ⟨"n", ["z"], false⟩ after ≠ none := by
  refine ⟨_, by decide +kernel, splice_insert "import \x7b\n  a, // it's \"x\"\n".toList
    "  b,\n\x7d from 'm';\n" _, by decide +kernel⟩

end ImportRequest

end Scaffold
