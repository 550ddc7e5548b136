import Mathlib
import Scaffold.Project.Layout
import Scaffold.Proofs.Toml.Parsed
import Scaffold.Proofs.Toml.Records

namespace Scaffold

theorem PathField.mem_all (f : PathField) : f ∈ all := by cases f <;> decide

theorem ShardField.mem_all (f : ShardField) : f ∈ all := by cases f <;> decide

theorem PathField.key_inj (f g : PathField) (h : f.key = g.key) : f = g := by
  revert h
  cases f <;> cases g <;> decide

theorem ShardField.key_inj (f g : ShardField) (h : f.key = g.key) : f = g := by
  revert h
  cases f <;> cases g <;> decide

theorem PathField.default_ne_nil (f : PathField) : f.default ≠ [] := by cases f <;> decide

namespace Settings

open Toml

def IsLetter (c : Char) : Prop :=
  ('A' ≤ c ∧ c ≤ 'Z') ∨ ('a' ≤ c ∧ c ≤ 'z') ∨ c = '_' ∨ c = '$'

def IsIdentifier (t : Text) : Prop :=
  ∃ c r, t = c :: r ∧ IsLetter c ∧ ∀ d ∈ r, IsLetter d ∨ ('0' ≤ d ∧ d ≤ '9')

theorem isAlpha_iff {c : Char} :
    c.isAlpha = true ↔ ('A' ≤ c ∧ c ≤ 'Z') ∨ ('a' ≤ c ∧ c ≤ 'z') := by
  delta Char.isAlpha Char.isUpper Char.isLower
  simp only [Bool.or_eq_true, Bool.and_eq_true, decide_eq_true_eq]
  rfl

theorem isDigit_iff {c : Char} : c.isDigit = true ↔ '0' ≤ c ∧ c ≤ '9' := by
  delta Char.isDigit
  simp only [Bool.and_eq_true, decide_eq_true_eq]
  rfl

theorem isIdentifier_iff {t : Text} : isIdentifier t = true ↔ IsIdentifier t := by
  cases t with
  | nil => exact iff_of_false (by decide) (by rintro ⟨c, r, h, -⟩; cases h)
  | cons c r =>
      have hletter (c : Char) : (c.isAlpha || c == '_' || c == '$') = true ↔ IsLetter c := by
        simp only [Bool.or_eq_true, beq_iff_eq, isAlpha_iff, IsLetter, or_assoc]
      simp only [isIdentifier, Bool.and_eq_true, List.all_eq_true, hletter, Bool.or_eq_true,
        isDigit_iff]
      constructor
      · exact fun h => ⟨c, r, rfl, h⟩
      · rintro ⟨_, _, ⟨⟩, h⟩
        exact h

theorem isIdentifier_default (f : ShardField) : IsIdentifier f.default :=
  isIdentifier_iff.1 (by cases f <;> decide)

def pathText? (es : Entries) (f : PathField) : Option Text :=
  Entries.text? (Entries.inner es "paths") f.key

def shardText? (es : Entries) (f : ShardField) : Option Text :=
  Entries.text? (Entries.inner es "shard") f.key

def HasTables (es : Entries) : Prop :=
  ∀ k ∈ ["paths".toList, "shard".toList], ∀ n, Entries.get? es k = some n →
    ∃ span form entries, n = .table span form entries

/-- A document with nothing but texts for the fields, each in the table of its own. -/
structure Maps (es : Entries) : Prop where
  tables : ∀ e ∈ es, e.1.text = "paths".toList ∨ e.1.text = "shard".toList
  paths : PathField.record.Fits (Entries.inner es "paths")
  shard : ShardField.record.Fits (Entries.inner es "shard")

def given (s : Settings) (es : Entries) : Settings :=
  ⟨PathField.record.given s.paths (Entries.inner es "paths"),
    ShardField.record.given s.shard (Entries.inner es "shard")⟩

variable {es es' : Entries} {s s' : Settings}

theorem maps_iff : Maps es ↔
    (∀ e ∈ es, e.1.text = "paths".toList ∨ e.1.text = "shard".toList) ∧
      PathField.record.Fits (Entries.inner es "paths") ∧
      ShardField.record.Fits (Entries.inner es "shard") :=
  ⟨fun h => ⟨h.tables, h.paths, h.shard⟩, fun h => ⟨h.1, h.2.1, h.2.2⟩⟩

theorem HasTables.of_cons {e : Key × Node} (h : HasTables (e :: es))
    (hnone : Entries.get? es e.1.text = none) : HasTables es := by
  intro k hk n hn
  refine h k hk n ?_
  rw [Entries.get?_cons, if_neg, hn]
  rintro rfl
  rw [hnone] at hn
  cases hn

theorem ofEntries_cons (k : Key) (n : Node) (es : Entries) (s : Settings) :
    s.ofEntries ((k, n) :: es) =
      if k.text = "paths".toList then
        (PathField.record.read s.paths n k.span).bind fun paths => { s with paths }.ofEntries es
      else if k.text = "shard".toList then
        (ShardField.record.read s.shard n k.span).bind fun shard => { s with shard }.ofEntries es
      else .error ⟨k.span, .unknownField k.text ["paths", "shard"]⟩ := by
  rw [ofEntries, List.foldlM_cons]
  dsimp only
  split
  · cases PathField.record.read s.paths n k.span <;> rfl
  split
  · cases ShardField.record.read s.shard n k.span <;> rfl
  · rfl

theorem ofEntries_eq_ok_iff (hes : Entries.Keyed es) (htables : HasTables es) :
    s.ofEntries es = .ok s' ↔ Maps es ∧ s' = s.given es := by
  induction es generalizing s with
  | nil =>
      change Except.ok s = Except.ok s' ↔ _
      rw [Except.ok.injEq, eq_comm]
      exact (and_iff_right (maps_iff.2 ⟨by simp, RecordShape.fits_nil, RecordShape.fits_nil⟩)).symm
  | cons e es ih =>
      obtain ⟨k, n⟩ := e
      obtain ⟨hes₁, hnone⟩ := hes.of_cons
      have ih {s : Settings} := @ih s hes₁ (htables.of_cons hnone)
      have hget : Entries.get? ((k, n) :: es) k.text = some n := by
        rw [Entries.get?_cons, if_pos rfl]
      rw [ofEntries_cons, maps_iff, List.forall_mem_cons]
      by_cases hpaths : k.text = "paths".toList
      · obtain ⟨span, form, entries, rfl⟩ := htables k.text (by simp [hpaths]) n hget
        have hentries := Entries.keyed_table_iff.1 (hes.get? hget)
        obtain ⟨hself, hnil, hother⟩ := @Entries.inner_cons_table es "paths" "shard" k span form
          entries hpaths (by decide) hnone
        rw [if_pos hpaths, RecordShape.read_bind_eq_ok_iff PathField.key_inj hentries, ih, maps_iff]
        simp only [given, hself, hnil, hother, hpaths]
        simp [and_assoc, and_left_comm]
      by_cases hshard : k.text = "shard".toList
      · obtain ⟨span, form, entries, rfl⟩ := htables k.text (by simp [hshard]) n hget
        have hentries := Entries.keyed_table_iff.1 (hes.get? hget)
        obtain ⟨hself, hnil, hother⟩ := @Entries.inner_cons_table es "shard" "paths" k span form
          entries hshard (by decide) hnone
        rw [if_neg hpaths, if_pos hshard,
          RecordShape.read_bind_eq_ok_iff ShardField.key_inj hentries, ih, maps_iff]
        simp only [given, hself, hnil, hother, hshard]
        simp [and_assoc, and_left_comm]
      · rw [if_neg hpaths, if_neg hshard]
        refine ⟨(fun h => by cases h), ?_⟩
        rintro ⟨⟨⟨hname, -⟩, -⟩, -⟩
        exact absurd hname (not_or.2 ⟨hpaths, hshard⟩)

def fieldNames : List Text :=
  ["paths.vite_config", "paths.routes", "paths.schemas", "paths.user_shard", "paths.client_dir",
    "paths.api_dir", "paths.webhooks_dir", "shard.class_name", "shard.binding"]

theorem fieldNames_eq : fieldNames = PathField.all.map (fun f => (SettingIssue.emptyPath f).field) ++
    ShardField.all.map fun f => "shard.".toList ++ f.key := by
  decide

theorem nodup_fieldNames : fieldNames.Nodup := by decide

theorem mem_issues_iff {i : SettingIssue} : i ∈ s.issues ↔
    (∃ f, s.paths f = [] ∧ i = .emptyPath f) ∨
      ∃ f, ¬IsIdentifier (s.shard f) ∧ i = .notAnIdentifier f (s.shard f) := by
  rw [issues, List.mem_append, List.mem_map, List.mem_map]
  refine or_congr (exists_congr fun f => ?_) (exists_congr fun f => ?_)
  · rw [List.mem_filter, List.isEmpty_iff, and_iff_right (PathField.mem_all f), eq_comm (b := i)]
  · rw [List.mem_filter, and_iff_right (ShardField.mem_all f), ← isIdentifier_iff,
      Bool.not_eq_true', Bool.not_eq_true, eq_comm (b := i)]

/-- The defaults are never at fault. -/
theorem mem_issues_given_iff {i : SettingIssue} : i ∈ (default.given es).issues ↔
    (∃ f, pathText? es f = some [] ∧ i = .emptyPath f) ∨
      ∃ f t, shardText? es f = some t ∧ ¬IsIdentifier t ∧ i = .notAnIdentifier f t := by
  have hpath (f : PathField) : (default.given es).paths f = (pathText? es f).getD f.default := rfl
  have hshard (f : ShardField) : (default.given es).shard f = (shardText? es f).getD f.default := rfl
  rw [mem_issues_iff]
  refine or_congr (exists_congr fun f => and_congr_left fun _ => ?_) (exists_congr fun f => ?_)
  · rw [hpath]
    cases pathText? es f with
    | none => exact iff_of_false (PathField.default_ne_nil f) (by simp)
    | some t => simp
  · rw [hshard]
    cases shardText? es f with
    | none => exact iff_of_false (fun h => h.1 (isIdentifier_default f)) (by simp)
    | some t => simp

theorem issues_given_eq_nil_iff : (default.given es).issues = [] ↔
    (∀ f t, pathText? es f = some t → t ≠ []) ∧ ∀ f t, shardText? es f = some t → IsIdentifier t := by
  rw [List.eq_nil_iff_forall_not_mem]
  simp only [mem_issues_given_iff]
  constructor
  · intro h
    constructor
    · rintro f _ hf rfl
      exact h _ (.inl ⟨f, hf, rfl⟩)
    · intro f t hf
      exact Classical.byContradiction fun ht => h _ (.inr ⟨f, t, hf, ht, rfl⟩)
  · rintro ⟨hpaths, hshard⟩ _ (⟨f, hf, rfl⟩ | ⟨f, t, hf, ht, rfl⟩)
    · exact hpaths f [] hf rfl
    · exact ht (hshard f t hf)

theorem field_issues_sublist (s : Settings) :
    (s.issues.map SettingIssue.field).Sublist fieldNames := by
  rw [fieldNames_eq, issues, List.map_append, List.map_map, List.map_map]
  exact (List.filter_sublist.map _).append (List.filter_sublist.map _)

variable {d : Text}

theorem ofText_of_maps (hd : parse? d = some es) (htables : HasTables es) (h : Maps es) :
    ofText d = if (default.given es).issues = [] then .ok (default.given es)
      else .error (.invalid none (.unusable (default.given es).issues)) := by
  have hentries : default.ofEntries es = .ok (default.given es) :=
    (ofEntries_eq_ok_iff (keyed_of_parse? hd) htables).2 ⟨h, rfl⟩
  rw [ofText, parse, hd]
  simp only [hentries, check]
  split <;> rfl

theorem ofText_of_not_maps (hd : parse? d = some es) (htables : HasTables es) (h : ¬Maps es) :
    ∃ m, ofText d = .error (.invalid none (.mismatch d m)) := by
  rw [ofText, parse, hd]
  cases hentries : default.ofEntries es with
  | error m => exact ⟨m, by simp only [hentries]; rfl⟩
  | ok s => exact absurd ((ofEntries_eq_ok_iff (keyed_of_parse? hd) htables).1 hentries).1 h

theorem ofText_eq_ok_iff (hd : parse? d = some es) (htables : HasTables es) :
    ofText d = .ok s ↔ Maps es ∧ (default.given es).issues = [] ∧ s = default.given es := by
  by_cases h : Maps es
  · rw [ofText_of_maps hd htables h, and_iff_right h]
    split
    · next hnil =>
        rw [Except.ok.injEq, and_iff_right hnil, eq_comm]
    · next hissues => exact ⟨(fun h => by cases h), fun h => absurd h.1 hissues⟩
  · obtain ⟨m, hm⟩ := ofText_of_not_maps hd htables h
    simp [hm, h]

theorem ofText_eq_unusable_iff {l : List SettingIssue} (hd : parse? d = some es)
    (htables : HasTables es) : ofText d = .error (.invalid none (.unusable l)) ↔
      Maps es ∧ (default.given es).issues ≠ [] ∧ l = (default.given es).issues := by
  by_cases h : Maps es
  · rw [ofText_of_maps hd htables h, and_iff_right h]
    split
    · next hnil => exact ⟨(fun h => by cases h), fun h => absurd hnil h.1⟩
    · next hissues =>
        constructor
        · rintro ⟨⟩
          exact ⟨hissues, rfl⟩
        · rintro ⟨-, rfl⟩
          rfl
  · obtain ⟨m, hm⟩ := ofText_of_not_maps hd htables h
    simp [hm, h]

theorem HasTables.of_alike (h : HasTables es) (halike : Entries.Alike es es') : HasTables es' := by
  intro k hk n' hn'
  cases hn : Entries.get? es k with
  | none => rw [halike.get?_eq_none_iff.1 hn] at hn'; cases hn'
  | some n =>
      obtain ⟨span, form, entries, rfl⟩ := h k hk n hn
      cases halike.values k _ n' hn hn' with
      | table => exact ⟨_, _, _, rfl⟩

theorem Maps.of_alike (h : Maps es) (halike : Entries.Alike es es') (hes' : Entries.Keyed es') :
    Maps es' where
  tables e' he' := by
    obtain ⟨e, he, hkey⟩ := List.mem_map.1 ((halike.keys _).2 (List.mem_map_of_mem he'))
    exact hkey ▸ h.tables e he
  paths := RecordShape.fits_of_alike (halike.inner _) (hes'.inner _) h.paths
  shard := RecordShape.fits_of_alike (halike.inner _) (hes'.inner _) h.shard

theorem given_of_alike (halike : Entries.Alike es es') : s.given es = s.given es' := by
  rw [given, given, RecordShape.given_of_alike (halike.inner "paths"),
    RecordShape.given_of_alike (halike.inner "shard")]

/-- Settings are read from a document field by field: if it has nothing but texts for the fields, and
these are fit for them, each field gets its text or keeps its default. If some are not fit, these and
only these are told, in the order of the fields; a document with anything else in it is never answered
so. It does not matter how the document is laid out. -/
theorem document_gives_fields (hd : parse? d = some es) (htables : HasTables es) :
    ((∃ s, ofText d = .ok s) ↔ Maps es ∧ (∀ f t, pathText? es f = some t → t ≠ []) ∧
        ∀ f t, shardText? es f = some t → IsIdentifier t) ∧
      (∀ s, ofText d = .ok s → (∀ f, s.paths f = (pathText? es f).getD f.default) ∧
        ∀ f, s.shard f = (shardText? es f).getD f.default) ∧
      (Maps es → (∀ s, ofText d ≠ .ok s) → ∃ l, ofText d = .error (.invalid none (.unusable l)) ∧
        (l.map SettingIssue.field).Sublist fieldNames ∧ fieldNames.Nodup ∧
        ∀ i, i ∈ l ↔ (∃ f, pathText? es f = some [] ∧ i = .emptyPath f) ∨
          ∃ f t, shardText? es f = some t ∧ ¬IsIdentifier t ∧ i = .notAnIdentifier f t) ∧
      (∀ l, ofText d = .error (.invalid none (.unusable l)) → Maps es) ∧
      ∀ d' es', parse? d' = some es' → Entries.Alike es es' →
        (∀ s, ofText d = .ok s ↔ ofText d' = .ok s) ∧
          ∀ l, ofText d = .error (.invalid none (.unusable l)) ↔
            ofText d' = .error (.invalid none (.unusable l)) := by
  refine ⟨?_, ?_, ?_, ?_, ?_⟩
  · simp only [ofText_eq_ok_iff hd htables, issues_given_eq_nil_iff]
    constructor
    · rintro ⟨_, hmaps, hfit, -⟩
      exact ⟨hmaps, hfit⟩
    · rintro ⟨hmaps, hfit⟩
      exact ⟨_, hmaps, hfit, rfl⟩
  · intro s hs
    obtain ⟨-, -, rfl⟩ := (ofText_eq_ok_iff hd htables).1 hs
    exact ⟨fun _ => rfl, fun _ => rfl⟩
  · intro hmaps hfails
    have hissues : (default.given es).issues ≠ [] := fun h =>
      hfails _ ((ofText_eq_ok_iff hd htables).2 ⟨hmaps, h, rfl⟩)
    exact ⟨_, (ofText_eq_unusable_iff hd htables).2 ⟨hmaps, hissues, rfl⟩, field_issues_sublist _,
      nodup_fieldNames, fun _ => mem_issues_given_iff⟩
  · intro l hl
    exact ((ofText_eq_unusable_iff hd htables).1 hl).1
  · intro d' es' hd' halike
    have htables' := htables.of_alike halike
    have hmaps : Maps es ↔ Maps es' :=
      ⟨fun h => h.of_alike halike (keyed_of_parse? hd'),
        fun h => h.of_alike halike.symm (keyed_of_parse? hd)⟩
    have hgiven : default.given es = default.given es' := given_of_alike halike
    constructor
    · intro s
      rw [ofText_eq_ok_iff hd htables, ofText_eq_ok_iff hd' htables', hmaps, hgiven]
    · intro l
      rw [ofText_eq_unusable_iff hd htables, ofText_eq_unusable_iff hd' htables', hmaps, hgiven]

def unfitDocument : Text := "shard.binding='1'\npaths.routes=''"

def unfitEntries : Entries :=
  [(⟨"shard", 0, 5⟩, .table none .dotted [(⟨"binding", 6, 13⟩, .string ⟨14, 17⟩ "1")]),
    (⟨"paths", 18, 23⟩, .table none .dotted [(⟨"routes", 24, 30⟩, .string ⟨31, 33⟩ [])])]

theorem maps_unfit : Maps unfitEntries where
  tables := by decide
  paths := by
    rintro e he
    obtain rfl := List.mem_singleton.1 he
    exact ⟨⟨.routes, by decide, rfl⟩, _, rfl⟩
  shard := by
    rintro e he
    obtain rfl := List.mem_singleton.1 he
    exact ⟨⟨.binding, by decide, rfl⟩, _, rfl⟩

/-- An empty path and a name that begins with a digit, each written as a dotted key. -/
theorem document_gives_fields_unfit :
    parse? unfitDocument = some unfitEntries ∧ HasTables unfitEntries ∧
      ∃ l, ofText unfitDocument = .error (.invalid none (.unusable l)) ∧
        .emptyPath .routes ∈ l ∧ .notAnIdentifier .binding "1" ∈ l := by
  have hparse : parse? unfitDocument = some unfitEntries := by cbv
  have htables : HasTables unfitEntries := by
    intro k hk n hn
    simp only [List.mem_cons, List.not_mem_nil, or_false] at hk
    rcases hk with rfl | rfl <;> cases hn <;> exact ⟨_, _, _, rfl⟩
  have hpath : pathText? unfitEntries .routes = some [] := rfl
  have hshard : shardText? unfitEntries .binding = some ['1'] := rfl
  obtain ⟨hok, -, hissues, -⟩ := document_gives_fields hparse htables
  obtain ⟨l, hl, -, -, hmem⟩ := hissues maps_unfit fun s hs =>
    (hok.1 ⟨s, hs⟩).2.1 .routes [] hpath rfl
  have hdigit : ¬IsIdentifier ['1'] := fun h => absurd (isIdentifier_iff.2 h) (by decide)
  exact ⟨hparse, htables, l, hl, (hmem _).2 (.inl ⟨_, hpath, rfl⟩),
    (hmem _).2 (.inr ⟨_, _, hshard, hdigit, rfl⟩)⟩

end Settings

end Scaffold
