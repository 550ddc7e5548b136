import Scaffold.Proofs.Insertion.Entries
import Scaffold.Proofs.Path.Specifiers
import Scaffold.Proofs.Recipe.Marks

namespace Scaffold

open Text

namespace Layout

variable (l : Layout) (n : Name)

def entryDir : Text :=
  (Path.relative (Path.normalize (l.path .bundle).directory.components)
    (Path.normalize (l.path .clientDir).components)).flatMap (·.text ++ "/".toList)

def IsOutside : Prop :=
  ¬Path.normalize (l.path .clientDir).components ++ [.name n.kebab] <+:
    Path.normalize (l.path .bundle).directory.components

instance : Decidable (l.IsOutside n) := inferInstanceAs (Decidable (¬_))

def IsQuotable : Prop := ∀ c ∈ l.entryPath n, c ∉ '\'' :: '"' :: breaks

instance : Decidable (l.IsQuotable n) :=
  decidable_of_iff ((l.entryPath n).all (fun c => c ∉ '\'' :: '"' :: breaks) = true) (by
    simp [IsQuotable])

theorem slash_entryDir (h : l.entryDir ≠ []) : ∃ d, l.entryDir = d ++ ['/'] := by
  unfold entryDir at h ⊢
  obtain hnil | ⟨cs, c, hcs⟩ := List.eq_nil_or_concat (Path.relative
    (Path.normalize (l.path .bundle).directory.components)
    (Path.normalize (l.path .clientDir).components))
  · rw [hnil] at h
    exact absurd rfl h
  · rw [hcs, List.concat_eq_append, List.flatMap_append, List.flatMap_singleton]
    exact ⟨cs.flatMap (·.text ++ "/".toList) ++ c.text, by rw [List.append_assoc]; rfl⟩

theorem components_index : Path.normalize ((l.pageDir n).join ⟨"index.html"⟩).components =
    Path.normalize (l.path .clientDir).components ++ [.name n.kebab, .name "index.html"] := by
  have hindex : IsSegment "index.html" := by decide
  have hnames : (((l.pageDir n).join ⟨"index.html"⟩).components) =
      (l.path .clientDir).components ++ [n.kebab, "index.html".toList].map .name := by
    rw [Path.components_join hindex, pageDir, Path.components_join n.isSegment_kebab]
    simp
  rw [hnames, Path.normalize_append_names]
  rfl

variable {l n} {m : Name}

theorem normalize_join_entryPath (hstart : (l.path .bundle).isAbsolute = (l.path .clientDir).isAbsolute)
    (hbundle : (l.path .bundle).fileName?.isSome = true) (hdir : (l.path .bundle).directory.Dotless)
    (hclient : (l.path .clientDir).Dotless) :
    Path.normalize ((l.path .bundle).directory.join ⟨l.entryPath n⟩).components =
      Path.normalize ((l.pageDir n).join ⟨"index.html"⟩).components := by
  have hindex : IsSegment "index.html" := by decide
  have hsame : (l.path .bundle).directory.isAbsolute =
      ((l.pageDir n).join ⟨"index.html"⟩).isAbsolute := by
    rw [Path.isAbsolute_directory hbundle, Path.isAbsolute_join hindex, pageDir,
      Path.isAbsolute_join n.isSegment_kebab, hstart]
  have hpage : ((l.pageDir n).join ⟨"index.html"⟩).Dotless :=
    Path.dotless_join (Path.dotless_join hclient (Path.dotless_of_isSegment n.isSegment_kebab))
      (Path.dotless_of_isSegment hindex)
  exact Path.normalize_join_wayFrom hsame hdir hpage

/-- What a file calls a module goes up, then down, and leads to the module; and what a bundle config
calls a page leads to the page that is written. -/
theorem relative_names_lead_home :
    (∀ file target : Path, file.isAbsolute = target.isAbsolute → file.fileName?.isSome = true →
      file.directory.Dotless → target.dropExtension.Dotless →
      let specifier := Path.moduleSpecifier file target
      ("./".toList <+: specifier ∨ "../".toList <+: specifier) ∧ Path.IsDescent specifier ∧
        Path.normalize (file.directory.join ⟨specifier⟩).components =
          Path.normalize target.dropExtension.components) ∧
    ∀ (l : Layout) (n : Name) (k : PageKind),
      (l.path .bundle).isAbsolute = (l.path .clientDir).isAbsolute →
      (l.path .bundle).fileName?.isSome = true → (l.path .bundle).directory.Dotless →
      (l.path .clientDir).Dotless →
      ∃ r, Recipe.page l n k = .ok r ∧ ∃ e ∈ r.files, e.path = (l.pageDir n).join ⟨"index.html"⟩ ∧
        Path.normalize ((l.path .bundle).directory.join ⟨l.entryPath n⟩).components =
          Path.normalize e.path.components := by
  refine ⟨fun file target hstart hfile hdir htarget => ⟨Path.moduleSpecifier_begins file target,
    Path.isDescent_moduleSpecifier hstart hfile hdir htarget,
    Path.normalize_join_moduleSpecifier hstart hfile hdir htarget⟩, ?_⟩
  intro l n k hstart hbundle hdir hclient
  obtain ⟨r, hr, -, ⟨e, he, hpath⟩, -⟩ := Recipe.exists_page (l := l) (n := n) k
  refine ⟨r, hr, e, he, hpath, ?_⟩
  rw [hpath]
  exact normalize_join_entryPath hstart hbundle hdir hclient

theorem relative_names_lead_home_order :
    let specifier := Path.moduleSpecifier ⟨"app/src/server/index.ts"⟩ ⟨"./app/src/schemas.ts"⟩
    let l := Layout.default ⟨"app"⟩
    let n : Name := ⟨"order", Name.check_order⟩
    Path.IsDescent specifier ∧
      Path.normalize (Path.join ⟨"app/src/server"⟩ ⟨specifier⟩).components =
        Path.normalize (Path.components ⟨"app/src/schemas"⟩) ∧
      ∃ r, Recipe.page l n .static = .ok r ∧ ∃ e ∈ r.files,
        e.path = ⟨"app/src/client/order/index.html"⟩ ∧
        Path.normalize ((l.path .bundle).directory.join ⟨l.entryPath n⟩).components =
          Path.normalize e.path.components := by
  intro specifier l n
  obtain ⟨-, hdescent, hmodule⟩ := relative_names_lead_home.1 ⟨"app/src/server/index.ts"⟩
    ⟨"./app/src/schemas.ts"⟩ rfl rfl (by decide +kernel) (by decide +kernel)
  obtain ⟨r, hr, e, he, hpath, hpage⟩ := relative_names_lead_home.2 l n .static (by decide +kernel)
    (by decide +kernel) (by decide +kernel) (by decide +kernel)
  have hindex : (l.pageDir n).join ⟨"index.html"⟩ = ⟨"app/src/client/order/index.html"⟩ := by
    decide +kernel
  have hdir : Path.directory ⟨"app/src/server/index.ts"⟩ = ⟨"app/src/server"⟩ := by decide +kernel
  have htarget : Path.normalize (Path.dropExtension ⟨"./app/src/schemas.ts"⟩).components =
      Path.normalize (Path.components ⟨"app/src/schemas"⟩) := by decide +kernel
  rw [hdir, htarget] at hmodule
  exact ⟨hdescent, hmodule, r, hr, e, he, hpath.trans hindex, hpage⟩

theorem entryPath_eq (h : l.IsOutside n) :
    l.entryPath n = l.entryDir ++ n.kebab ++ "/index.html" := by
  have hway := Path.relative_append_of_not_prefix (by simp) h [.name "index.html"]
  rw [entryPath, Path.wayFrom, components_index, hway, List.append_cons, Path.slashed_concat,
    entryDir, List.flatMap_append, List.flatMap_singleton]
  simp [Component.text]

theorem entryPath_ends (h : l.entryPath n ≠ []) : '.' ∈ l.entryPath n ∧
    ∃ c, (l.entryPath n).getLast? = some c ∧ isBlank c = false ∧ c ≠ '\\' := by
  have hcases := Path.slashed_relative_cases (Path.normalize (l.path .bundle).directory.components)
    (Path.normalize (l.path .clientDir).components ++ [.name n.kebab]) (.name "index.html")
  rw [List.append_assoc, List.singleton_append, ← components_index] at hcases
  obtain ⟨d, hd, hsuffix⟩ := hcases.resolve_left h
  have hends : '.' ∈ d.text ∧ ∃ c, d.text.getLast? = some c ∧ isBlank c = false ∧ c ≠ '\\' := by
    simp only [List.mem_cons, List.not_mem_nil, or_false] at hd
    rcases hd with rfl | rfl
    · exact ⟨by decide, '.', rfl, by decide, by decide⟩
    · exact ⟨by decide, 'l', rfl, by decide, by decide⟩
  obtain ⟨hdot, c, hc, hvisible⟩ := hends
  refine ⟨hsuffix.subset hdot, c, ?_, hvisible⟩
  obtain ⟨u, hu⟩ := hsuffix
  change (Path.slashed _).getLast? = _
  rw [← hu, List.getLast?_append, hc, Option.some_or]

/-- One page's path is in another's where both begin with the page's name and one name ends with the
other. -/
theorem isInfix_entryPath_iff (hn : l.IsOutside n) (hm : l.IsOutside m) (hne : m.kebab ≠ n.kebab) :
    l.entryPath m <:+: l.entryPath n ↔ l.entryDir = [] ∧ m.kebab <:+ n.kebab := by
  rw [entryPath_eq hn, entryPath_eq hm]
  constructor
  · rintro ⟨a, b, hab⟩
    have hkebab : ∀ n : Name, '/' ∉ n.kebab := fun n => n.isSegment_kebab.slash
    have hslashes := congrArg (List.count '/') hab
    simp only [List.count_append, List.count_eq_zero_of_not_mem (hkebab _)] at hslashes
    have hb : '/' ∉ b := List.count_eq_zero.1 (by omega)
    have hindex : '/' ∉ "index.html".toList := by decide
    obtain ⟨hnames, -⟩ := append_cons_inj_last (c := '/') (p := a ++ l.entryDir ++ m.kebab)
      (q := l.entryDir ++ n.kebab) (a := "index.html" ++ b) (b := "index.html")
      (by rw [List.mem_append, not_or]; exact ⟨hindex, hb⟩) hindex (by simpa using hab)
    by_cases hdir : l.entryDir = []
    · refine ⟨hdir, a, by simpa [hdir] using hnames⟩
    · obtain ⟨d, hd⟩ := l.slash_entryDir hdir
      rw [hd] at hnames
      obtain ⟨-, hsame⟩ := append_cons_inj_last (c := '/') (p := a ++ d) (q := d) (hkebab m)
        (hkebab n) (by simpa using hnames)
      exact absurd hsame hne
  · rintro ⟨hdir, a, ha⟩
    rw [hdir, ← ha]
    exact ⟨a, [], by simp⟩

section Marks

variable (l n)

def entryKey : Text := "'" ++ n.kebab ++ "':"

def entryMarks : List Text := [entryKey n, "\"" ++ n.kebab ++ "\":", l.entryPath n]

def entry (call : Text × Text) : Text :=
  "'" ++ n.kebab ++ "': " ++ call.1 ++ "'" ++ l.entryPath n ++ "'" ++ call.2

def entryCalls : List (Text × Text) := [("", ""), ("resolve(__dirname, ", ")")]

def pageEntry : Wire where
  file := l.path .bundle
  insertion := ⟨.bundle, l.entryMarks n, [], l.entry n ("", "")⟩
  resolved := some (l.entry n ("resolve(__dirname, ", ")"))

def entryInsertion (t : Text) : Insertion where
  kind := .bundle
  markers := l.entryMarks n
  imports := []
  fragment := l.entry n (if Text.contains "resolve(" t then ("resolve(__dirname, ", ")") else ("", ""))

end Marks

variable {call : Text × Text} {k : Text}

theorem not_mem_kebab {c : Char} (hc : isPlain c = false) : c ∉ m.kebab := fun hmem => by
  have hplain := m.isPlain_kebab c hmem
  rw [hc] at hplain
  cases hplain

theorem not_mem_call {d : Char} (hd : d ∈ ['\'', '"', '.', '{', '}']) (hcall : call ∈ entryCalls) :
    d ∉ ": ".toList ++ call.1 ∧ d ∉ call.2 := by
  simp only [entryCalls, List.mem_cons, List.not_mem_nil, or_false] at hd hcall
  rcases hcall with rfl | rfl <;> rcases hd with rfl | rfl | rfl | rfl | rfl <;> decide

theorem isSign_key {q : Char} (hq : q = '\'' ∨ q = '"') :
    Mapping.IsSign (q :: n.kebab ++ [q, ':']) := by
  have hsolid : ∀ c ∈ q :: n.kebab ++ [q, ':'], isBlank c = false ∧ c ∉ breaks := by
    intro c hc
    simp only [List.cons_append, List.mem_cons, List.mem_append, List.not_mem_nil, or_false] at hc
    rcases hc with rfl | hc | rfl | rfl
    · rcases hq with rfl | rfl <;> decide
    · obtain ⟨hlow, hhigh, hbreak, -⟩ := toNat_of_isPlain (n.isPlain_kebab c hc)
      exact ⟨isBlank_of_visible hlow (by omega), hbreak⟩
    · rcases hq with rfl | rfl <;> decide
    · decide
  refine ⟨fun c hc => (hsolid c hc).2, ⟨':', by rw [List.getLast?_append]; rfl, by decide⟩,
    fun b hb h => ?_⟩
  have hvisible := (hsolid b (h.subset List.mem_cons_self)).1
  rw [hb] at hvisible
  cases hvisible

theorem isSign_path (h : l.IsQuotable n) (hne : l.entryPath n ≠ []) :
    Mapping.IsSign (l.entryPath n) := by
  obtain ⟨-, c, hc, hvisible, -⟩ := entryPath_ends hne
  refine ⟨fun c hc hbreak => h c hc (by simp [hbreak]), ⟨c, hc, hvisible⟩, fun b _ hb => ?_⟩
  exact h '\'' (hb.subset (by simp)) (by simp)

theorem isSign_of_mem_entryMarks (h : l.IsQuotable n) (hne : l.entryPath n ≠ [])
    (hk : k ∈ l.entryMarks n) : Mapping.IsSign k := by
  simp only [entryMarks, List.mem_cons, List.not_mem_nil, or_false] at hk
  rcases hk with rfl | rfl | rfl
  · exact isSign_key (.inl rfl)
  · exact isSign_key (.inr rfl)
  · exact isSign_path h hne

theorem entry_pieces (hn : l.IsQuotable n) (hcall : call ∈ entryCalls) :
    List.splitOn '\'' (l.entry n call) = [[], n.kebab, ": " ++ call.1, l.entryPath n, call.2] := by
  have hkebab : '\'' ∉ n.kebab := not_mem_kebab (by decide)
  have hpath : '\'' ∉ l.entryPath n := fun h => hn _ h (by simp)
  have hcalls := not_mem_call (d := '\'') (by simp) hcall
  have hentry : l.entry n call = [] ++ '\'' :: (n.kebab ++ '\'' :: ((": " ++ call.1) ++
      '\'' :: (l.entryPath n ++ '\'' :: call.2))) := by simp [entry]
  rw [hentry, List.splitOn_append_cons_self_of_not_mem (by simp),
    List.splitOn_append_cons_self_of_not_mem hkebab,
    List.splitOn_append_cons_self_of_not_mem hcalls.1,
    List.splitOn_append_cons_self_of_not_mem hpath, List.splitOn_eq_singleton hcalls.2]

theorem isInfix_key_entry (call : Text × Text) : entryKey n <:+: l.entry n call :=
  ⟨[], " ".toList ++ call.1 ++ "'" ++ l.entryPath n ++ "'" ++ call.2, by simp [entryKey, entry]⟩

/-- The key of a page is not in the entry of another. -/
theorem not_isInfix_key (hn : l.IsQuotable n) (hne : m.kebab ≠ n.kebab) (hcall : call ∈ entryCalls) :
    ¬entryKey m <:+: l.entry n call := by
  intro h
  have hquoted : '\'' :: (m.kebab ++ ['\'']) <:+: entryKey m := ⟨[], [':'], by simp [entryKey]⟩
  have hmem := mem_splitOn_of_isInfix (not_mem_kebab (by decide)) (hquoted.trans h)
  rw [entry_pieces hn hcall] at hmem
  simp only [List.mem_cons, List.not_mem_nil, or_false] at hmem
  rcases hmem with hmem | hmem | hmem | hmem | hmem
  · exact m.kebab_ne_nil hmem
  · exact hne hmem
  · exact not_mem_kebab (m := m) (c := ' ') (by decide) (by rw [hmem]; simp)
  · have hpath : l.entryPath n ≠ [] := hmem ▸ m.kebab_ne_nil
    exact not_mem_kebab (m := m) (c := '.') (by decide) (hmem ▸ (entryPath_ends hpath).1)
  · simp only [entryCalls, List.mem_cons, List.not_mem_nil, or_false] at hcall
    rcases hcall with rfl | rfl
    · exact m.kebab_ne_nil hmem
    · exact not_mem_kebab (m := m) (c := ')') (by decide) (by rw [hmem]; simp)

theorem isInfix_path_iff (hn : l.IsQuotable n) (hm : l.IsQuotable m) (hpath : l.entryPath m ≠ [])
    (hcall : call ∈ entryCalls) :
    l.entryPath m <:+: l.entry n call ↔ l.entryPath m <:+: l.entryPath n := by
  constructor
  · intro h
    have hquote : '\'' ∉ l.entryPath m := fun hmem => hm _ hmem (by simp)
    obtain ⟨p, hp, hin⟩ := exists_mem_splitOn h hquote
    have hdot := hin.subset (entryPath_ends hpath).1
    rw [entry_pieces hn hcall] at hp
    have hcalls := not_mem_call (d := '.') (by simp) hcall
    simp only [List.mem_cons, List.not_mem_nil, or_false] at hp
    rcases hp with rfl | rfl | rfl | rfl | rfl
    · cases hdot
    · exact absurd hdot (not_mem_kebab (by decide))
    · exact absurd hdot hcalls.1
    · exact hin
    · exact absurd hdot hcalls.2
  · intro h
    exact h.trans ⟨"'" ++ n.kebab ++ "': " ++ call.1 ++ "'", "'" ++ call.2, by simp [entry]⟩

/-- Of what a page's entry is found by, only the path can be in the entry of another page. -/
theorem exists_mark_iff (hn : l.IsQuotable n) (hm : l.IsQuotable m) (hne : m.kebab ≠ n.kebab)
    (hpath : l.entryPath m ≠ []) (hcall : call ∈ entryCalls) :
    (∃ k ∈ l.entryMarks m, k <:+: l.entry n call) ↔ l.entryPath m <:+: l.entryPath n := by
  rw [← isInfix_path_iff hn hm hpath hcall]
  refine ⟨?_, fun h => ⟨_, by simp [entryMarks], h⟩⟩
  rintro ⟨k, hk, hin⟩
  simp only [entryMarks, List.mem_cons, List.not_mem_nil, or_false] at hk
  rcases hk with rfl | rfl | rfl
  · exact absurd hin (not_isInfix_key hn hne hcall)
  · have hdouble : '"' ∈ l.entry n call := hin.subset (by simp)
    have hcalls := not_mem_call (d := '"') (by simp) hcall
    rw [List.mem_append, not_or] at hcalls
    have hquote : '"' ∉ l.entryPath n := fun h => hn _ h (by simp)
    have hkebab : '"' ∉ n.kebab := not_mem_kebab (by decide)
    simp [entry, hcalls, hquote, hkebab] at hdouble
  · exact hin

end Layout

end Scaffold
