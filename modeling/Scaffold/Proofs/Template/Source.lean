import Scaffold.Proofs.Anchor.Header
import Scaffold.Proofs.Template.Exchange
import Scaffold.Template.Catalog

namespace Scaffold

open Text

/-- A source, cut at its marks: what stands between them, character by character, and the labels. -/
inductive Part where
  | char (c : Char)
  | mark (label : Text)
deriving DecidableEq, Repr

namespace Part

def mark? (t : Text) : Option (Text × Text) := do
  let t := Shape.blanks (← Shape.literal ['{', '{'] t)
  let rest ← Shape.many isWord t
  let rest ← Shape.literal ['}', '}'] (Shape.blanks rest)
  some (t.takeWhile isWord, rest)

theorem length_of_mark? {t label rest : Text} (h : mark? t = some (label, rest)) :
    rest.length < t.length := by
  simp only [mark?, Option.bind_eq_bind, Option.bind_eq_some_iff] at h
  obtain ⟨u, hu, v, hv, w, hw, h⟩ := h
  cases h
  have hopening := Shape.length_literal hu
  have hbefore := Shape.length_blanks u
  have hlabel := Shape.length_many hv
  have hafter := Shape.length_blanks v
  have hclosing := Shape.length_literal hw
  omega

def all : Text → List Part
  | [] => []
  | c :: t =>
    match _h : mark? (c :: t) with
    | some (label, rest) => mark label :: all rest
    | none => char c :: all t
termination_by t => t.length
decreasing_by
  · exact length_of_mark? _h
  · exact Nat.lt_succ_self _

def Filled (values : Text → Option Text) : Part → Text → Prop
  | char c, v => v = [c]
  | mark label, v => values label = some v

variable {t label rest : Text} {c : Char}

theorem all_mark (h : mark? t = some (label, rest)) : all t = mark label :: all rest := by
  cases t with
  | nil => cases h
  | cons c t =>
      rw [all]
      split
      · next h' => cases h.symm.trans h'; rfl
      · next h' => cases h.symm.trans h'

theorem all_char (h : mark? (c :: t) = none) : all (c :: t) = char c :: all t := by
  rw [all]
  split
  · next h' => cases h.symm.trans h'
  · rfl

theorem mark?_eq_none (h : c ≠ '{' ∨ t.head? ≠ some '{' ∨ t.tail.head? = some '{') :
    mark? (c :: t) = none := by
  by_cases hc : c = '{'
  · cases t with
    | nil => rw [hc]; rfl
    | cons d t =>
        by_cases hd : d = '{'
        · obtain ⟨u, rfl⟩ : ∃ u, t = '{' :: u :=
            List.head?_eq_some_iff.1 ((h.resolve_left (not_not_intro hc)).resolve_left (by simp [hd]))
          have hliteral : Shape.literal ['{', '{'] ('{' :: '{' :: '{' :: u) = some ('{' :: u) :=
            Shape.literal_append ['{', '{'] _
          have hblank : isBlank '{' = false := by decide
          have hblanks : Shape.blanks ('{' :: u) = '{' :: u :=
            Shape.blanks_append (g := []) (by simp) hblank
          have hlabel : Shape.many isWord ('{' :: u) = none := by
            rw [Shape.many, Shape.one, if_neg (by decide)]
            rfl
          rw [hc, hd, mark?, hliteral]
          simp only [Option.bind_eq_bind, Option.bind_some, hblanks, hlabel, Option.bind_none]
        · have hliteral : Shape.literal ['{', '{'] (c :: d :: t) = none := by
            rw [Shape.literal, if_neg]
            simp [List.isPrefixOf, Ne.symm hd]
          rw [mark?, hliteral]
          rfl
  · have hliteral : Shape.literal ['{', '{'] (c :: t) = none :=
      Shape.literal_append_of_ne (Ne.symm hc)
    rw [mark?, hliteral]
    rfl

theorem mark?_append (hne : label ≠ []) (hlabel : ∀ c ∈ label, isWord c = true) (rest : Text) :
    mark? (['{', '{'] ++ label ++ ['}', '}'] ++ rest) = some (label, rest) := by
  have hbrace : isWord '}' = false ∧ isBlank '}' = false := by decide
  have hvisible : (label ++ (['}', '}'] ++ rest)).head?.any isBlank = false := by
    obtain ⟨c, label, rfl⟩ := List.exists_cons_of_ne_nil hne
    rw [Bool.eq_false_iff]
    intro hblank
    have hword := hlabel c List.mem_cons_self
    rw [not_isWord_of_isBlank hblank] at hword
    cases hword
  have hblanks := Shape.blanks_append (g := []) (by simp) hvisible
  have hlast : Shape.blanks (['}', '}'] ++ rest) = ['}', '}'] ++ rest :=
    Shape.blanks_append (g := []) (by simp) hbrace.2
  have htake : (label ++ (['}', '}'] ++ rest)).takeWhile isWord = label := by
    rw [List.takeWhile_append_of_pos hlabel]
    exact List.append_right_eq_self.2 (List.takeWhile_cons_of_neg (by simp [hbrace]))
  rw [List.append_assoc, List.append_assoc, mark?, Shape.literal_append]
  simp only [Option.bind_eq_bind, Option.bind_some]
  rw [List.nil_append] at hblanks
  have hmany : Shape.many isWord (label ++ (['}', '}'] ++ rest)) = some (['}', '}'] ++ rest) :=
    Shape.many_append hne hlabel hbrace.1
  rw [hblanks, hmany, Option.bind_some, hlast,
    Shape.literal_append, Option.bind_some, htake]

end Part

namespace Slot

def written (s : Slot) : Text := ['{', '{'] ++ s.label ++ ['}', '}']

theorem isWord_label (s : Slot) : s.label ≠ [] ∧ ∀ c ∈ s.label, isWord c = true := by
  have hall : s.label ≠ [] ∧ s.label.all isWord = true := by cases s <;> decide
  exact ⟨hall.1, List.all_eq_true.1 hall.2⟩

theorem label_injective : Function.Injective label := by
  intro s s' h
  cases s <;> cases s' <;> first | rfl | exact absurd h (by decide)

theorem pairwise_label : (all.map label).Pairwise (· < ·) := by decide

end Slot

namespace Symbol

variable {f : List Symbol}

def Parted (a b : Symbol) : Prop := ¬(a = char '{' ∧ b = char '{')

instance (a b : Symbol) : Decidable (Parted a b) := inferInstanceAs (Decidable (¬_))

def part : Symbol → Part
  | char c => .char c
  | slot s => .mark s.label

/-- Where no two braces come together but around slots, the marks are the slots. -/
theorem all_fillAll_written (h : f.IsChain Parted) :
    Part.all (fillAll Slot.written f) = f.map part := by
  induction f with
  | nil => rw [fillAll_nil, Part.all]; rfl
  | cons a f ih =>
      have hrest := ih h.tail
      cases a with
      | char c =>
          have hnone : Part.mark? (c :: fillAll Slot.written f) = none := by
            apply Part.mark?_eq_none
            cases f with
            | nil => exact .inr (.inl (by simp))
            | cons b f =>
                cases b with
                | char d =>
                    have hparted : Parted (char c) (char d) := (List.isChain_cons_cons.1 h).1
                    by_cases hc : c = '{'
                    · refine .inr (.inl fun hd => hparted ⟨by rw [hc], ?_⟩)
                      exact congrArg char (Option.some.inj hd)
                    · exact .inl hc
                | slot s => exact .inr (.inr rfl)
          rw [fillAll_char, Part.all_char hnone, hrest]
          rfl
      | slot s =>
          obtain ⟨hne, hlabel⟩ := s.isWord_label
          rw [fillAll_slot, Slot.written, Part.all_mark (Part.mark?_append hne hlabel _), hrest]
          rfl

theorem exists_filled_iff {values : Text → Option Text} {out : Text} :
    (∃ vs, List.Forall₂ (Part.Filled values) (f.map part) vs ∧ out = vs.flatten) ↔
      (∀ s, slot s ∈ f → (values s.label).isSome = true) ∧
        out = fillAll (fun s => (values s.label).getD []) f := by
  induction f generalizing out with
  | nil =>
      constructor
      · rintro ⟨vs, hvs, rfl⟩
        cases hvs
        exact ⟨fun s hs => (nomatch hs), rfl⟩
      · rintro ⟨-, rfl⟩
        exact ⟨[], .nil, rfl⟩
  | cons a f ih =>
      rw [List.map_cons]
      constructor
      · rintro ⟨_, hvs, rfl⟩
        obtain ⟨v, vs, hv, hrest, rfl⟩ := List.forall₂_cons_left_iff.1 hvs
        obtain ⟨hsome, hrest⟩ := ih.1 ⟨vs, hrest, rfl⟩
        rw [List.flatten_cons, hrest]
        cases a with
        | char c =>
            cases hv
            exact ⟨fun s hs => hsome s (by simpa using hs), rfl⟩
        | slot s =>
            have hv : values s.label = some v := hv
            refine ⟨fun s' hs' => ?_, by rw [fillAll_slot, hv, Option.getD_some]⟩
            rcases List.mem_cons.1 hs' with heq | hs'
            · rw [slot.inj heq, hv]
              rfl
            · exact hsome s' hs'
      · rintro ⟨hsome, rfl⟩
        obtain ⟨vs, hvs, hrest⟩ :=
          ih.2 ⟨fun s hs => hsome s (List.mem_cons_of_mem a hs), rfl⟩
        cases a with
        | char c => exact ⟨[c] :: vs, .cons rfl hvs, by rw [fillAll_char, hrest]; rfl⟩
        | slot s =>
            obtain ⟨v, hv⟩ := Option.isSome_iff_exists.1 (hsome s List.mem_cons_self)
            refine ⟨v :: vs, .cons hv hvs, ?_⟩
            rw [fillAll_slot, hrest, hv, Option.getD_some, List.flatten_cons]

end Symbol

namespace Template

variable {t : Template}

theorem source_eq_fillAll (t : Template) : t.source = Symbol.fillAll Slot.written t.symbols := by
  rw [source, symbols, Symbol.fillAll, List.flatMap_assoc]
  congr 1
  funext p
  cases p with
  | text u => exact (Symbol.fillAll_ofText u).symm
  | slot s => exact (List.append_nil _).symm

theorem slot_mem_symbols {s : Slot} : .slot s ∈ t.symbols ↔ s ∈ t.slots := by
  rw [mem_slots, symbols, List.mem_flatMap]
  constructor
  · rintro ⟨p, hp, hs⟩
    cases p with
    | text u =>
        obtain ⟨c, -, hc⟩ := List.mem_map.1 hs
        cases hc
    | slot s' =>
        cases List.mem_singleton.1 hs
        exact hp
  · intro h
    exact ⟨_, h, List.mem_singleton_self _⟩

theorem parted_of_mem (ht : t ∈ catalog) : t.symbols.IsChain Symbol.Parted := by
  revert t
  unfold catalog Page.html Page.entry Page.staticApp Dashboard.app Dashboard.hook Dashboard.api
    Dashboard.schema Dashboard.routes Dashboard.shard Feed.app Feed.hook Feed.api Feed.schema
    Feed.routes Feed.shard Feed.shardTable Feed.shardList Feed.shardAdd Table.schema Table.shard
    Table.shardName Table.shardTable Table.shardToRow Table.shardPut Table.shardGet
    Table.shardList Table.shardDelete Webhook.handler Webhook.handlerImports Webhook.handlerVerify
    Webhook.handlerRespond Webhook.schema Webhook.routes BundleEntry.resolved BundleEntry.plain
  simp (disch := with_reducible rfl) only [Text.toList_eq]
  decide +kernel

theorem parts_of_mem (ht : t ∈ catalog) : Part.all t.source = t.symbols.map Symbol.part := by
  rw [source_eq_fillAll, Symbol.all_fillAll_written (parted_of_mem ht)]

theorem mark_mem_parts_iff (ht : t ∈ catalog) {x : Text} :
    .mark x ∈ Part.all t.source ↔ x ∈ t.slots.map Slot.label := by
  rw [parts_of_mem ht, List.mem_map, List.mem_map]
  constructor
  · rintro ⟨a, ha, hx⟩
    cases a with
    | char c => cases hx
    | slot s => exact ⟨s, slot_mem_symbols.1 ha, Part.mark.inj hx⟩
  · rintro ⟨s, hs, rfl⟩
    exact ⟨.slot s, slot_mem_symbols.2 hs, rfl⟩

theorem pairwise_labels (t : Template) : (t.slots.map Slot.label).Pairwise (· < ·) :=
  Slot.pairwise_label.sublist ((List.filter_sublist).map _)

variable {b b' : Bindings} {out : Text} {e : TemplateError}

theorem render_eq_ok_iff : t.render b = .ok out ↔ b.Binds t.slots ∧ out = t.fill b := by
  rw [render]
  split
  · next s hs =>
      refine ⟨(fun h => by cases h), fun h => ?_⟩
      have hnone := List.find?_some hs
      rw [Option.isNone_iff_eq_none] at hnone
      exact absurd (h.1 s (List.mem_of_find?_eq_some hs)) (by rw [hnone]; decide)
  · next hnone =>
      rw [Except.ok.injEq, eq_comm]
      refine ⟨fun h => ⟨fun s hs => ?_, h⟩, And.right⟩
      simpa [Option.isSome_iff_ne_none] using List.find?_eq_none.1 hnone s hs

theorem render_eq_error_iff : t.render b = .error e ↔
    ∃ s ∈ t.slots, e = .unbound t.name s ∧ b s = none ∧
      ∀ s' ∈ t.slots, b s' = none → s' ≠ s → s.label < s'.label := by
  rw [render]
  split
  · next s hs =>
      obtain ⟨hnone, before, after, hsplit, hbefore⟩ := List.find?_eq_some_iff_append.1 hs
      have hsorted := t.pairwise_labels
      rw [hsplit, List.map_append, List.map_cons] at hsorted
      obtain ⟨-, hafter, -⟩ := List.pairwise_append.1 hsorted
      have hleast : ∀ s' ∈ t.slots, b s' = none → s' ≠ s → s.label < s'.label := by
        intro s' hs' hnone' hne
        rw [hsplit] at hs'
        rcases List.mem_append.1 hs' with hs' | hs'
        · exact absurd hnone' (by simpa [Option.isSome_iff_ne_none] using hbefore s' hs')
        · have hs' := (List.mem_cons.1 hs').resolve_left hne
          exact (List.pairwise_cons.1 hafter).1 _ (List.mem_map_of_mem hs')
      have hmem : s ∈ t.slots := List.mem_of_find?_eq_some hs
      rw [Except.error.injEq]
      constructor
      · rintro rfl
        exact ⟨s, hmem, rfl, by simpa using hnone, hleast⟩
      · rintro ⟨s', hs', rfl, hnone', hleast'⟩
        by_contra hne
        have hne : s ≠ s' := fun h => hne (by rw [h])
        have hbelow := hleast s' hs' hnone' (Ne.symm hne)
        exact List.lt_asymm hbelow (hleast' s hmem (by simpa using hnone) hne)
  · next hall =>
      refine ⟨(fun h => by cases h), ?_⟩
      rintro ⟨s, hs, -, hnone, -⟩
      exact absurd hnone (by simpa using List.find?_eq_none.1 hall s hs)

theorem render_congr (h : ∀ s ∈ t.slots, b s = b' s) : t.render b = t.render b' := by
  have hfill : t.fill b = t.fill b' := by
    rw [fill_eq_fillAll, fill_eq_fillAll]
    exact Symbol.fillAll_congr_of fun s hs => by rw [h s (slot_mem_symbols.1 hs)]
  have hbinds : b.Binds t.slots ↔ b'.Binds t.slots :=
    forall₂_congr fun s hs => by rw [h s hs]
  cases hb : t.render b with
  | ok out => rw [render_eq_ok_iff, hbinds, hfill] at hb; exact (render_eq_ok_iff.2 hb).symm
  | error e =>
      obtain ⟨s, hs, he, hnone, hleast⟩ := render_eq_error_iff.1 hb
      refine (render_eq_error_iff.2 ⟨s, hs, he, (h s hs).symm.trans hnone, fun s' hs' hnone' => ?_⟩).symm
      exact hleast s' hs' ((h s' hs').trans hnone')

end Template

def Bindings.ofValues (values : Text → Option Text) : Bindings := fun s => values s.label

namespace Template

variable {t : Template}

theorem render_ofValues_iff (ht : t ∈ catalog) (values : Text → Option Text) (out : Text) :
    t.render (.ofValues values) = .ok out ↔
      ∃ vs, List.Forall₂ (Part.Filled values) (Part.all t.source) vs ∧ out = vs.flatten := by
  rw [render_eq_ok_iff, parts_of_mem ht, Symbol.exists_filled_iff, fill_eq_fillAll]
  exact and_congr_left fun _ =>
    ⟨fun h s hs => h s (slot_mem_symbols.1 hs), fun h s hs => h s (slot_mem_symbols.2 hs)⟩

/-- Rendering puts a value in the place of each mark that is written, as it is and once, and fails
with the first label in order if there is one without a value. -/
theorem render_replaces_marks {t : Template} (ht : t ∈ catalog) (values : Text → Option Text) :
    let labels := t.slots.map Slot.label
    let result := t.render (.ofValues values)
    (labels.Pairwise (· < ·) ∧ ∀ x, x ∈ labels ↔ .mark x ∈ Part.all t.source) ∧
    ((∃ out, result = .ok out) ↔ ∀ x ∈ labels, ∃ v, values x = some v) ∧
    (∀ e, result = .error e ↔ ∃ s, e = .unbound t.name s ∧ s.label ∈ labels ∧
      values s.label = none ∧ ∀ x ∈ labels, values x = none → x ≠ s.label → s.label < x) ∧
    (∀ out, result = .ok out ↔
      ∃ vs, List.Forall₂ (Part.Filled values) (Part.all t.source) vs ∧ out = vs.flatten) ∧
    ∀ values', (∀ x ∈ labels, values x = values' x) → result = t.render (.ofValues values') := by
  intro labels result
  have hmem : ∀ {s : Slot}, s.label ∈ labels ↔ s ∈ t.slots :=
    List.mem_map_of_injective Slot.label_injective
  refine ⟨⟨t.pairwise_labels, fun x => (mark_mem_parts_iff ht).symm⟩, ?_, fun e => ?_,
    fun out => render_ofValues_iff ht values out, fun values' h => ?_⟩
  · simp only [result, render_eq_ok_iff, exists_and_left, exists_eq, and_true]
    rw [List.forall_mem_map]
    exact forall₂_congr fun s _ => Option.isSome_iff_exists
  · rw [render_eq_error_iff]
    constructor
    · rintro ⟨s, hs, he, hnone, hleast⟩
      refine ⟨s, he, hmem.2 hs, hnone, List.forall_mem_map.2 fun s' hs' hnone' hne => ?_⟩
      exact hleast s' hs' hnone' fun h => hne (by rw [h])
    · rintro ⟨s, he, hs, hnone, hleast⟩
      refine ⟨s, hmem.1 hs, he, hnone, fun s' hs' hnone' hne => ?_⟩
      exact hleast _ (hmem.2 hs') hnone' fun h => hne (Slot.label_injective h)
  · exact render_congr fun s hs => h _ (hmem.2 hs)

/-- A mark in a value stays as it is. -/
theorem render_replaces_marks_entry :
    let t := BundleEntry.plain
    let values : Text → Option Text := fun x =>
      if x = "kebab".toList then some "\x7b\x7bentry_path\x7d\x7d"
      else if x = "entry_path".toList then some "a/$1" else none
    t ∈ catalog ∧ t.render (.ofValues values) = .ok "'\x7b\x7bentry_path\x7d\x7d': 'a/$1'\n" ∧
      t.render (.ofValues fun _ => none) = .error (.unbound "vite/entry_plain.tmpl" .entryPath) := by
  intro t values
  have ht : t ∈ catalog := by decide
  obtain ⟨-, -, -, hok, -⟩ := render_replaces_marks ht values
  obtain ⟨-, -, herror, -, -⟩ := render_replaces_marks ht fun _ => none
  refine ⟨ht, (hok _).2 ?_, (herror _).2 ⟨.entryPath, rfl, by decide, rfl, by decide⟩⟩
  rw [parts_of_mem ht]
  refine Symbol.exists_filled_iff.2 ⟨fun s hs => ?_, by decide +kernel⟩
  have hslots : ∀ s ∈ t.slots, (values s.label).isSome = true := by decide +kernel
  exact hslots s (slot_mem_symbols.1 hs)

end Template

end Scaffold
