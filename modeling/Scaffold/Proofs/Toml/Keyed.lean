import Scaffold.Toml.Build

namespace Scaffold.Toml

/-- In no table of the value have two entries the same key. -/
inductive Node.Keyed : Node → Prop
  | string {span : Span} {t : Text} : Keyed (.string span t)
  | integer {span : Span} {n : Int} : Keyed (.integer span n)
  | float {span : Span} {t : Text} : Keyed (.float span t)
  | boolean {span : Span} {b : Bool} : Keyed (.boolean span b)
  | moment {span : Span} : Keyed (.moment span)
  | array {span : Span} {isOpen : Bool} {items : List Node} (h : ∀ n ∈ items, Keyed n) :
      Keyed (.array span isOpen items)
  | table {span : Option Span} {form : Form} {es : Entries}
      (hkeys : (es.map fun e => e.1.text).Nodup) (h : ∀ e ∈ es, Keyed e.2) :
      Keyed (.table span form es)

def Node.inner? : Node → Option Entries
  | .table _ _ es => some es
  | .array _ _ items =>
    match items.getLast? with
    | some (.table _ _ es) => some es
    | _ => none
  | _ => none

theorem Node.keyed_array_iff {span : Span} {isOpen : Bool} {items : List Node} :
    (Node.array span isOpen items).Keyed ↔ ∀ n ∈ items, n.Keyed := by
  constructor
  · intro h
    cases h with
    | array h => exact h
  · exact .array

namespace Entries

def keys (es : Entries) : List Text := es.map fun e => e.1.text

structure Keyed (es : Entries) : Prop where
  nodup : (keys es).Nodup
  values : ∀ e ∈ es, e.2.Keyed

variable {es es' inner : Entries} {k : Text} {key : Key} {n : Node}

theorem keyed_table_iff {span : Option Span} {form : Form} :
    (Node.table span form es).Keyed ↔ Keyed es := by
  constructor
  · intro h
    cases h with
    | table hkeys h => exact ⟨hkeys, h⟩
  · exact fun h => .table h.nodup h.values

theorem keyed_nil : Keyed [] := ⟨List.nodup_nil, by simp⟩

theorem of_get? (h : get? es k = some n) : ∃ e ∈ es, e.1.text = k ∧ e.2 = n := by
  obtain ⟨e, he, rfl⟩ := Option.map_eq_some_iff.1 h
  exact ⟨e, List.mem_of_find?_eq_some he, by simpa using List.find?_some he, rfl⟩

theorem get?_cons (e : Key × Node) (es : Entries) (k : Text) :
    get? (e :: es) k = if e.1.text = k then some e.2 else get? es k := by
  by_cases h : e.1.text = k <;> simp [get?, h]

theorem mem_keys_of_get? (h : get? es k = some n) : k ∈ keys es := by
  obtain ⟨e, he, rfl, -⟩ := of_get? h
  exact List.mem_map_of_mem he

theorem get?_eq_none_iff : get? es k = none ↔ k ∉ keys es := by
  simp [get?, keys]

theorem has_eq_false_iff : has es k = false ↔ k ∉ keys es := by
  simp [has, keys]

theorem Keyed.of_cons {e : Key × Node} (h : Keyed (e :: es)) :
    Keyed es ∧ get? es e.1.text = none := by
  obtain ⟨hnew, hnodup⟩ := List.nodup_cons.1 h.nodup
  exact ⟨⟨hnodup, fun e' he' => h.values e' (List.mem_cons_of_mem e he')⟩,
    get?_eq_none_iff.2 hnew⟩

theorem Keyed.get? (h : Keyed es) (hn : get? es k = some n) : n.Keyed := by
  obtain ⟨e, he, -, rfl⟩ := of_get? hn
  exact h.values e he

theorem get?_append_of_not_mem (h : key.text ∉ keys es) :
    get? (es ++ [(key, n)]) key.text = some n := by
  have hfind := Option.map_eq_none_iff.1 (get?_eq_none_iff.2 h)
  simp [get?, List.find?_append, hfind]

theorem Keyed.append (h : Keyed es) (hn : n.Keyed) (hkey : key.text ∉ keys es) :
    Keyed (es ++ [(key, n)]) := by
  constructor
  · rw [keys, List.map_append, List.map_singleton, List.nodup_append]
    refine ⟨h.nodup, by simp, ?_⟩
    rintro k hk _ hlast rfl
    exact hkey (List.mem_singleton.1 hlast ▸ hk)
  · intro e he
    rcases List.mem_append.1 he with he | he
    · exact h.values e he
    · rwa [List.mem_singleton.1 he]

theorem keys_replace : keys (replace es k n) = keys es := by
  rw [keys, replace, List.map_map]
  apply List.map_congr_left
  intro e _
  simp only [Function.comp]
  split <;> rfl

theorem get?_replace (h : k ∈ keys es) : get? (replace es k n) k = some n := by
  induction es with
  | nil => cases h
  | cons e es ih =>
      by_cases he : e.1.text = k
      · simp [get?, replace, he]
      · have htail := ih (by simpa [keys, Ne.symm he] using h)
        simpa [get?, replace, he] using htail

theorem Keyed.replace (h : Keyed es) (hn : n.Keyed) : Keyed (replace es k n) := by
  constructor
  · rw [keys_replace]
    exact h.nodup
  · intro e he
    obtain ⟨e', he', rfl⟩ := List.mem_map.1 he
    split
    · exact hn
    · exact h.values e' he'

theorem Keyed.erase (h : Keyed es) : Keyed (erase es k) where
  nodup := h.nodup.sublist (List.filter_sublist.map _)
  values e he := h.values e (List.mem_filter.1 he).1

theorem not_mem_keys_erase : k ∉ keys (erase es k) := by
  simp [keys, Entries.erase]

def at? : List Key → Entries → Option Entries
  | [], es => some es
  | k :: path, es =>
    match get? es k.text with
    | none => at? path []
    | some n => n.inner?.bind fun inner => at? path inner

theorem at?_cons {path : List Key} (hget : get? es key.text = some n)
    (hinner : n.inner? = some inner) : at? (key :: path) es = at? path inner := by
  rw [at?, hget]
  dsimp only
  rw [hinner, Option.bind_some]

structure Becomes (n n' : Node) (inner inner' : Entries) : Prop where
  before : n.inner? = some inner
  after : n'.inner? = some inner'
  keyed : n.Keyed → Keyed inner ∧ (Keyed inner' → n'.Keyed)

theorem becomes_table (span : Option Span) (form : Form) (inner inner' : Entries) :
    Becomes (.table span form inner) (.table span form inner') inner inner' :=
  ⟨rfl, rfl, fun hn => ⟨keyed_table_iff.1 hn, keyed_table_iff.2⟩⟩

theorem becomes_array (s : Span) (isOpen : Bool) (items : List Node) (span : Option Span)
    (form : Form) (inner inner' : Entries) :
    Becomes (.array s isOpen (items ++ [.table span form inner]))
      (.array s isOpen (items ++ [.table span form inner'])) inner inner' where
  before := by rw [Node.inner?, List.getLast?_concat]
  after := by rw [Node.inner?, List.getLast?_concat]
  keyed hn := by
    have hall := Node.keyed_array_iff.1 hn
    have htable := hall (.table span form inner) (by simp)
    refine ⟨keyed_table_iff.1 htable, fun hinner => .array fun n hmem => ?_⟩
    rcases List.mem_append.1 hmem with hmem | hmem
    · exact hall n (by simp [hmem])
    · rw [List.mem_singleton.1 hmem]
      exact keyed_table_iff.2 hinner

/-- A change along a path begins with a new table for a new key, or changes the entries in the value
that the key has. -/
theorem of_alter?_cons {α : Type} {viaDots : Bool} {change : Form → Entries → Option (α × Entries)}
    {k : Key} {path : List Key} {form : Form} {a : α}
    (h : alter? viaDots change (k :: path) form es = some (a, es')) :
    (get? es k.text = none ∧ ∃ form' inner',
      alter? viaDots change path form' [] = some (a, inner') ∧
        es' = es ++ [(k, .table none form' inner')]) ∨
    ∃ n n' form' inner inner', get? es k.text = some n ∧ Becomes n n' inner inner' ∧
      alter? viaDots change path form' inner = some (a, inner') ∧ es' = replace es k.text n' := by
  rw [alter?] at h
  cases hget : get? es k.text with
  | none =>
      rw [hget] at h
      obtain ⟨⟨a', inner'⟩, hinner, heq⟩ := Option.bind_eq_some_iff.1 h
      cases heq
      exact .inl ⟨rfl, _, _, hinner, rfl⟩
  | some n =>
      rw [hget] at h
      refine .inr ?_
      cases n with
      | table span form₀ inner =>
          simp only [Option.bind_eq_bind] at h
          split at h
          · cases h
          obtain ⟨⟨a', inner'⟩, hinner, heq⟩ := Option.bind_eq_some_iff.1 h
          cases heq
          exact ⟨_, _, _, _, _, rfl, becomes_table span form₀ inner inner', hinner, rfl⟩
      | array span isOpen items =>
          cases isOpen with
          | false => cases h
          | true =>
              simp only at h
              split at h
              · next s form₀ inner before hitems =>
                  obtain ⟨⟨a', inner'⟩, hinner, heq⟩ := Option.bind_eq_some_iff.1 h
                  cases heq
                  obtain rfl : items = before.reverse ++ [.table s form₀ inner] := by
                    rw [← List.reverse_reverse items, hitems, List.reverse_cons]
                  have hbecomes := becomes_array span true before.reverse s form₀ inner inner'
                  exact ⟨_, _, _, _, _, rfl, hbecomes, hinner, rfl⟩
              · cases h
      | string | integer | float | boolean | moment => cases h

/-- A change along a path is a change of the table at its end, and of nothing else. -/
theorem of_alter? {α : Type} {viaDots : Bool} {change : Form → Entries → Option (α × Entries)}
    {path : List Key} {form : Form} {a : α}
    (h : alter? viaDots change path form es = some (a, es')) :
    ∃ form' inner inner', at? path es = some inner ∧ change form' inner = some (a, inner') ∧
      at? path es' = some inner' ∧ (Keyed es → Keyed inner ∧ (Keyed inner' → Keyed es')) := by
  induction path generalizing form es es' with
  | nil => exact ⟨form, es, es', rfl, h, rfl, fun hes => ⟨hes, id⟩⟩
  | cons k path ih =>
      rcases of_alter?_cons h with ⟨hget, _, inner₁, hinner, rfl⟩ |
        ⟨n, n', _, inner₀, inner₁, hget, hn, hinner, rfl⟩
      · obtain ⟨form', inner, inner', hat, hchange, hat', hkeyed⟩ := ih hinner
        have hk := get?_eq_none_iff.1 hget
        refine ⟨form', inner, inner', by rwa [at?, hget], hchange, ?_, fun hes => ?_⟩
        · rw [at?, get?_append_of_not_mem hk]
          exact hat'
        · obtain ⟨hinner, hinner'⟩ := hkeyed keyed_nil
          exact ⟨hinner, fun h => hes.append (keyed_table_iff.2 (hinner' h)) hk⟩
      · obtain ⟨form', inner, inner', hat, hchange, hat', hkeyed⟩ := ih hinner
        have hget' := get?_replace (n := n') (mem_keys_of_get? hget)
        refine ⟨form', inner, inner', (at?_cons hget hn.before).trans hat, hchange,
          (at?_cons hget' hn.after).trans hat', fun hes => ?_⟩
        obtain ⟨hinner₀, hinner₁⟩ := hn.keyed (hes.get? hget)
        obtain ⟨hinner, hinner'⟩ := hkeyed hinner₀
        exact ⟨hinner, fun h => hes.replace (hinner₁ (hinner' h))⟩

theorem Keyed.assign? {form : Form} {keys : List Key} (h : Keyed es) (hn : n.Keyed)
    (hassign : assign? es form keys n = some es') : Keyed es' := by
  obtain ⟨last, -, h'⟩ := Option.bind_eq_some_iff.1 hassign
  obtain ⟨⟨_, es'⟩, halter, rfl⟩ := Option.map_eq_some_iff.1 h'
  obtain ⟨form', inner, inner', -, hput, -, hkeyed⟩ := of_alter? halter
  obtain ⟨hinner, hinner'⟩ := hkeyed h
  apply hinner'
  split at hput
  · cases hput
  · next hnew =>
      cases hput
      refine hinner.append hn (has_eq_false_iff.1 ?_)
      simp only [Bool.or_eq_true, not_or, Bool.not_eq_true] at hnew
      exact hnew.2

end Entries

end Scaffold.Toml
