import Scaffold.Proofs.Insertion.Slots
import Scaffold.Proofs.Recipe.Failures
import Scaffold.Proofs.Recipe.Paths

namespace Scaffold

open Text

namespace Layout

variable {l : Layout} {n : Name} {call : Text × Text}

theorem trimEnd_entry (hcall : call ∈ entryCalls) :
    Text.trimEnd (l.entry n call ++ "\n") = l.entry n call := by
  have hlast : ∃ c, ("'" ++ call.2).getLast? = some c ∧ isBlank c = false := by
    simp only [entryCalls, List.mem_cons, List.not_mem_nil, or_false] at hcall
    rcases hcall with rfl | rfl
    · exact ⟨'\'', rfl, by decide⟩
    · exact ⟨')', rfl, by decide⟩
  obtain ⟨c, hc, hvisible⟩ := hlast
  have hfeed : ∀ c ∈ "\n".toList, isBlank c = true := by simp; decide
  rw [Text.trimEnd, dropEndWhile_append_of_all hfeed, dropEndWhile_of_last]
  refine ⟨c, ?_, hvisible⟩
  rw [entry, List.append_assoc, List.getLast?_append, hc, Option.some_or]

theorem fill_entry {b : Bindings} (hkey : b .kebab = some n.kebab)
    (hpath : b .entryPath = some (l.entryPath n)) :
    Template.BundleEntry.plain.fill b = l.entry n ("", "") ++ "\n" ∧
      Template.BundleEntry.resolved.fill b = l.entry n ("resolve(__dirname, ", ")") ++ "\n" := by
  have hplain : Template.BundleEntry.plain.pieces =
      [.text "'", .slot .kebab, .text "': '", .slot .entryPath, .text "'", .text "\n"] := rfl
  have hresolved : Template.BundleEntry.resolved.pieces = [.text "'", .slot .kebab,
      .text "': resolve(__dirname, '", .slot .entryPath, .text "')", .text "\n"] := rfl
  rw [Template.fill, Template.fill, hplain, hresolved]
  simp only [List.flatMap_cons, List.flatMap_nil, Piece.fill, hkey, hpath, Option.getD_some]
  simp [entry]

theorem entryWire_eq (l : Layout) (n : Name) : l.entryWire n = .ok (l.pageEntry n) := by
  have hb := (l.binds_bindings n).set .entryPath (l.entryPath n)
  obtain ⟨hplain, hresolved⟩ := l.fill_entry (n := n)
    (b := (l.bindings n).set .entryPath (l.entryPath n)) rfl (Bindings.set_self _ _ _)
  rw [entryWire, fragment_eq (t := Template.BundleEntry.plain) hb (by decide),
    fragment_eq (t := Template.BundleEntry.resolved) hb (by decide), hplain, hresolved]
  change (Except.ok (Wire.mk _ _ _) : Except RunError Wire) = _
  rw [trimEnd_entry List.mem_cons_self, trimEnd_entry (List.mem_cons_of_mem _ List.mem_cons_self)]
  rfl

theorem styled_pageEntry {t : Tree} {c : Text} (h : t.readText (l.path .bundle) = .ok c) :
    (l.pageEntry n).styled t = l.entryInsertion n c := by
  rw [Wire.styled, pageEntry]
  simp only [h]
  rw [entryInsertion]
  split <;> rfl

theorem wires_of_page {p : PageKind} {r : Recipe} (h : (Product.page p).recipe l n = .ok r) :
    r.wires.head? = some (l.pageEntry n) ∧
      (p = .static → r.wires = [l.pageEntry n] ∧ r.guards = [l.pageDir n]) := by
  change Recipe.page l n p = .ok r at h
  rw [Recipe.page, entryWire_eq] at h
  obtain ⟨html, -, h⟩ := bind_eq_ok_iff.1 h
  obtain ⟨script, -, h⟩ := bind_eq_ok_iff.1 h
  obtain ⟨app, -, h⟩ := bind_eq_ok_iff.1 h
  obtain ⟨entry, hentry, h⟩ := bind_eq_ok_iff.1 h
  cases hentry
  cases hd : p.data? n.pascal with
  | none =>
      rw [hd] at h
      cases h
      exact ⟨rfl, fun _ => ⟨rfl, rfl⟩⟩
  | some d =>
      rw [hd] at h
      obtain ⟨more, -, h⟩ := bind_eq_ok_iff.1 h
      obtain ⟨wires, -, h⟩ := bind_eq_ok_iff.1 h
      cases h
      refine ⟨rfl, ?_⟩
      rintro rfl
      cases hd

end Layout

namespace Recipe

variable {l : Layout} {r : Recipe} {t u t' : Tree} {c : Text}

theorem IsSound.readText_of_emissions (hr : r.IsSound l) (hl : l.IsDotless) (ht : t.IsRooted)
    (h : r.emissions t = .ok () u) {p : Path} (hread : t.readText p = .ok c) :
    u.readText p = .ok c := by
  obtain ⟨hfree, hwrote⟩ := wrote_emissions h
  obtain ⟨s, hs, hslash, hfile⟩ := Tree.readText_eq_ok_iff.1 hread
  refine Tree.readText_eq_ok_iff.2 ⟨s, hwrote.grown.locate hs, hslash, ?_⟩
  exact hwrote.get?_of_has_eq_false
    (fun e he => ⟨hr.dotless_files hl e he, hr.has_eq_false hfree e he⟩) (ht _ _ hfile) hfile

theorem IsSound.head?_of_run {dry : Bool} {report : Report} {w : Wire} {o : Outcome}
    (hr : r.IsSound l) (hl : l.IsDotless) (ht : t.IsRooted) (hw : r.wires.head? = some w)
    (hread : t.readText w.file = .ok c) (ho : (w.styled t).outcome w.file (.ok c) = .ok o)
    (h : r.run dry t = .ok report t') : report.outcomes.head? = some o := by
  obtain ⟨_, u, hemit, hrest⟩ := Disk.bind_eq_ok_iff.1 h
  obtain ⟨done, v, hwires, hreport⟩ := Disk.bind_eq_ok_iff.1 hrest
  cases hreport
  obtain ⟨b, x, y, hb, hx, hturn, -⟩ := Disk.exists_turn_of_mapM (Disk.adaptExcept_eq_ok_iff.1 hwires)
    (k := 0) (a := w) (by rwa [← List.head?_eq_getElem?])
  cases hx
  have hemit := Disk.adaptExcept_eq_ok_iff.1 hemit
  have hkept : u.readText w.file = .ok c := by
    cases dry with
    | false => exact hr.readText_of_emissions hl ht hemit hread
    | true =>
        obtain ⟨_, x, hguards, -⟩ := Disk.bind_eq_ok_iff.1 hemit
        rw [emissions_dry (Emission.guards_eq_ok_iff.1 hguards).1] at hemit
        cases hemit
        exact hread
  rw [Wire.styled_congr (hread.trans hkept.symm), ← hkept] at ho
  have hfirst : b.1 = o := by
    cases dry with
    | false =>
        obtain ⟨happly, -⟩ := Wire.run_eq_ok_iff.1 hturn
        exact Except.ok.inj ((Insertion.apply_eq_ok_iff.1 happly).1.symm.trans ho)
    | true =>
        rw [Wire.run_dry_of_outcome (o := (o, Wire.manualStep? (w.styled u) o)) ho rfl] at hturn
        cases hturn
        rfl
  rw [List.head?_map, List.head?_eq_getElem?, hb, Option.map_some, hfirst]

end Recipe

namespace Layout

/-- What every run of a page tells first that finds the text `c` in the bundle config. A dry run of a
static page tells it wherever the page's directory is free. -/
structure Reports (l : Layout) (n : Name) (c : Text) (o : Outcome) : Prop where
  runs : ∀ raw p dry t report t', Name.parse raw = .ok n → l.IsDotless → t.IsRooted →
    t.readText (l.path .bundle) = .ok c →
    (Product.page p).generate l raw dry t = .ok report t' → report.outcomes.head? = some o
  dry : ∀ raw t, Name.parse raw = .ok n → t.readText (l.path .bundle) = .ok c →
    t.has (l.pageDir n) = false →
    ∃ report, (Product.page .static).generate l raw true t = .ok report t ∧ report.outcomes = [o]

variable {l : Layout} {n m : Name} {c u : Text} {o : Outcome}

theorem reports_of_outcome
    (h : (l.entryInsertion n c).outcome (l.path .bundle) (.ok c) = .ok o) : l.Reports n c o := by
  constructor
  · intro raw p dry t report t' hparse hl ht hread hrun
    obtain ⟨r, hrecipe, hsound⟩ := (Product.page p).exists_recipe l n
    rw [Product.generate_of_ok hparse hrecipe] at hrun
    refine hsound.head?_of_run hl ht (wires_of_page hrecipe).1 hread ?_ hrun
    rwa [styled_pageEntry hread]
  · intro raw t hparse hread hfree
    obtain ⟨r, hrecipe, -⟩ := (Product.page .static).exists_recipe l n
    obtain ⟨hwires, hguards⟩ := (wires_of_page hrecipe).2 rfl
    rw [Product.generate_of_ok hparse hrecipe]
    rw [← styled_pageEntry hread, ← hread] at h
    let first := (o, Wire.manualStep? ((l.pageEntry n).styled t) o)
    have hrun := Wire.run_dry_of_outcome (w := l.pageEntry n) (o := first) h rfl
    have hemit := Recipe.emissions_dry (r := r) (t := t) (by simpa [hguards] using hfree)
    have hmap : r.wires.mapM (Wire.run true) t = .ok [first] t := by
      rw [hwires, List.mapM_cons]
      exact Disk.bind_eq_ok_iff.2 ⟨first, t, hrun, rfl⟩
    refine ⟨⟨true, r.files, [o], [first].filterMap Prod.snd ++ r.followUps⟩, ?_, rfl⟩
    exact Disk.bind_eq_ok_iff.2 ⟨(), t, Disk.adaptExcept_eq_ok_iff.2 hemit,
      Disk.bind_eq_ok_iff.2 ⟨[first], t, Disk.adaptExcept_eq_ok_iff.2 hmap, rfl⟩⟩

theorem isPresent_entryInsertion_iff :
    (l.entryInsertion n c).isPresent u = true ↔ ∃ k ∈ l.entryMarks n, k <:+: u :=
  Insertion.isPresent_iff

theorem unbraced_entry {call : Text × Text} (hn : l.IsQuotable n) (hcall : call ∈ entryCalls) :
    '{' ∉ l.entry n call ∧ '}' ∉ l.entry n call := by
  have hnot : ∀ d ∈ ['{', '}'], d ∉ l.entry n call := by
    intro d hd
    have hfacts : isPlain d = false ∧ d ∈ breaks ∧ d ∉ "'".toList ∧
        d ∈ ['\'', '"', '.', '{', '}'] := by
      simp only [List.mem_cons, List.not_mem_nil, or_false] at hd
      rcases hd with rfl | rfl <;> decide
    obtain ⟨hplain, hbreak, hquote, hmem⟩ := hfacts
    have hpath : d ∉ l.entryPath n := fun h => hn d h (by simp [hbreak])
    obtain ⟨hcolon, hlast⟩ := not_mem_call hmem hcall
    have hentry : l.entry n call = "'" ++ n.kebab ++ "'" ++ (": " ++ call.1) ++ "'" ++
        l.entryPath n ++ "'" ++ call.2 := by simp [entry]
    rw [hentry]
    simp only [List.mem_append, not_or] at hcolon ⊢
    exact ⟨⟨⟨⟨⟨⟨⟨hquote, not_mem_kebab hplain⟩, hquote⟩, hcolon⟩, hquote⟩, hpath⟩, hquote⟩, hlast⟩
  exact ⟨hnot _ (by simp), hnot _ (by simp)⟩

theorem outline_entry {call : Text × Text} (hn : l.IsQuotable n) (hcall : call ∈ entryCalls) :
    Brace.IsBalanced (l.entry n call) ∧ (Brace.outline (l.entry n call) = "':'" ∨
      Brace.outline (l.entry n call) = "':resolve(__dirname,')") := by
  have hkey : Brace.Gives (.code false, 0) ('\'' :: n.kebab ++ ['\'']) ['\''] (.code false, 0) := by
    refine Brace.gives_quoted (fun c hc => ⟨?_, ?_⟩) fun hlast => ?_
    · exact ne_of_mem_of_not_mem hc (not_mem_kebab (by decide))
    · exact ne_of_mem_of_not_mem hc (not_mem_kebab (by decide))
    · exact not_mem_kebab (by decide) (List.mem_of_getLast? hlast)
  have hpath : Brace.Gives (.code false, 0) ('\'' :: l.entryPath n ++ ['\'']) ['\'']
      (.code false, 0) := by
    refine Brace.gives_quoted (fun c hc => ⟨?_, ?_⟩) fun hlast => ?_
    · exact ne_of_mem_of_not_mem hc fun h => hn _ h (by decide)
    · exact ne_of_mem_of_not_mem hc fun h => hn _ h (by decide)
    · obtain ⟨-, c, hc, -, hne⟩ := entryPath_ends fun hnil => by rw [hnil] at hlast; cases hlast
      exact hne (Option.some.inj (hc.symm.trans hlast))
  have hentry : l.entry n call = ('\'' :: n.kebab ++ ['\'']) ++ (": " ++ call.1) ++
      ('\'' :: l.entryPath n ++ ['\'']) ++ call.2 := by simp [entry]
  simp only [entryCalls, List.mem_cons, List.not_mem_nil, or_false] at hcall
  rw [hentry]
  rcases hcall with rfl | rfl
  · have hcolon : Brace.Gives (.code false, 0) (": ".toList ++ "".toList) ":" (.code false, 0) :=
      ⟨rfl, rfl⟩
    have hall := ((hkey.append hcolon).append hpath).append (.nil (s := (.code false, 0)))
    exact ⟨⟨false, hall.read_eq⟩, .inl hall.outline_append_pending⟩
  · have hcolon : Brace.Gives (.code false, 0) (": ".toList ++ "resolve(__dirname, ".toList)
        ":resolve(__dirname," (.code false, 0) := ⟨by decide +kernel, by decide +kernel⟩
    have hclose : Brace.Gives (.code false, 0) ")".toList ")".toList (.code false, 0) := ⟨rfl, rfl⟩
    have hall := ((hkey.append hcolon).append hpath).append hclose
    exact ⟨⟨false, hall.read_eq⟩, .inr hall.outline_append_pending⟩

theorem isSlot_entry {call : Text × Text} (hn : l.IsQuotable n) (hcall : call ∈ entryCalls) :
    Mapping.IsSlot (l.entry n call) := by
  obtain ⟨hbalanced, houtline⟩ := outline_entry hn hcall
  refine ⟨unbraced_entry hn hcall, hbalanced, ?_, ⟨'\'', ?_, by decide⟩, ?_⟩ <;>
    rcases houtline with h | h <;> rw [h] <;> decide +kernel

theorem exists_entry (hn : l.IsQuotable n) (hmapping : (Anchor.locate c .inputMapping).isSome = true)
    (habsent : ∀ k ∈ l.entryMarks n, ¬k <:+: c) : ∃ u,
      l.Reports n c (.applied (l.path .bundle) c u none) ∧
      (Anchor.locate u .inputMapping).isSome = true ∧ ∃ call ∈ entryCalls, l.entry n call <:+: u ∧
        ∀ k, Mapping.IsSign k → k <:+: u → k <:+: c ∨ k <:+: l.entry n call := by
  obtain ⟨call, hcall, hfragment⟩ :
      ∃ call ∈ entryCalls, (l.entryInsertion n c).fragment = l.entry n call := by
    refine ⟨_, ?_, rfl⟩
    split <;> simp [entryCalls]
  have habsent' : (l.entryInsertion n c).isPresent c = false := by
    rw [← Bool.not_eq_true, isPresent_entryInsertion_iff]
    rintro ⟨k, hk, hkc⟩
    exact habsent k hk hkc
  obtain ⟨u, hu, hagain, hin, hsigns⟩ := Insertion.exists_entered (i := l.entryInsertion n c) rfl rfl
    (by rw [hfragment]; rfl) (by rw [hfragment]; exact unbraced_entry hn hcall) hmapping habsent'
    (l.path .bundle)
  rw [hfragment] at hin hsigns
  exact ⟨u, reports_of_outcome hu, hagain, call, hcall, hin, hsigns⟩

theorem entryPath_ne_nil (h : ∀ k ∈ l.entryMarks n, ¬k <:+: c) : l.entryPath n ≠ [] := by
  intro hnil
  exact h [] (by simp [entryMarks, hnil]) (List.nil_infix)

end Layout

/-- Entries of two pages in a bundle config. The first page's entry goes into a mapping that has
nothing by which the two are found. Then the second page's is taken to be there, and is not, if its
path can be found in that of the first; if not, it goes in as well. Outside the pages' directories
this is so just for pages whose paths begin with their names and of whose names the first ends with
the second. -/
theorem entries_of_pages {a b : Text} {n m : Name} (ha : Name.parse a = .ok n)
    (hb : Name.parse b = .ok m) (hne : a ≠ b) {l : Layout} (hn : l.IsQuotable n)
    (hm : l.IsQuotable m) :
    (l.IsOutside n → l.IsOutside m →
      (l.entryPath m <:+: l.entryPath n ↔ l.entryDir = [] ∧ m.kebab <:+ n.kebab)) ∧
    ∀ c : Text, (Anchor.locate c .inputMapping).isSome = true →
      (∀ k ∈ l.entryMarks n ++ l.entryMarks m, ¬k <:+: c) →
      ∃ u, l.Reports n c (.applied (l.path .bundle) c u none) ∧ Layout.entryKey n <:+: u ∧
        (l.entryPath m <:+: l.entryPath n →
          l.Reports m u (.alreadyApplied (l.path .bundle)) ∧ ¬Layout.entryKey m <:+: u) ∧
        (¬l.entryPath m <:+: l.entryPath n →
          ∃ v, l.Reports m u (.applied (l.path .bundle) u v none) ∧ Layout.entryKey m <:+: v) := by
  have hkebab : m.kebab ≠ n.kebab := by
    rw [Name.kebab_of_parse ha, Name.kebab_of_parse hb]
    exact hne.symm
  refine ⟨fun houtside houtside' => Layout.isInfix_entryPath_iff houtside houtside' hkebab,
    fun c hmapping habsent => ?_⟩
  have habsent' : ∀ k ∈ l.entryMarks m, ¬k <:+: c :=
    fun k hk => habsent k (List.mem_append_right _ hk)
  have hpath := Layout.entryPath_ne_nil habsent'
  obtain ⟨u, hreports, hagain, call, hcall, hentry, hsigns⟩ := Layout.exists_entry hn hmapping
    fun k hk => habsent k (List.mem_append_left _ hk)
  have hfound : ∀ k ∈ l.entryMarks m, k <:+: u → k <:+: l.entry n call := fun k hk hku =>
    (hsigns k (Layout.isSign_of_mem_entryMarks hm hpath hk) hku).resolve_left (habsent' k hk)
  have hkey : Layout.entryKey m ∈ l.entryMarks m := List.mem_cons_self
  have hiff := Layout.exists_mark_iff hn hm hkebab hpath hcall
  refine ⟨u, hreports, (Layout.isInfix_key_entry call).trans hentry, fun hmasked => ⟨?_, fun h => ?_⟩,
    fun hapart => ?_⟩
  · obtain ⟨k, hk, hin⟩ := hiff.2 hmasked
    refine Layout.reports_of_outcome ?_
    rw [Insertion.outcome, Insertion.outcomeFor, Insertion.plan_of_isPresent]
    exact Layout.isPresent_entryInsertion_iff.2 ⟨k, hk, hin.trans hentry⟩
  · exact Layout.not_isInfix_key hn hkebab hcall (hfound _ hkey h)
  · obtain ⟨v, hreports', -, call', hcall', hentry', -⟩ := Layout.exists_entry hm hagain
      fun k hk hku => hapart (hiff.1 ⟨k, hk, hfound k hk hku⟩)
    exact ⟨v, hreports', (Layout.isInfix_key_entry call').trans hentry'⟩

namespace Layout

def nested : Layout where
  root := ⟨[]⟩
  settings := { Settings.default with
    paths := fun f => if f = .bundle then "src/client/vite.config.ts" else f.default }

def nestedDocument : Text := "[paths]\nvite_config = \"src/client/vite.config.ts\"\n"

def sampleConfig : Text := "input: \x7b\n  main: 'index-main.html',\n\x7d"

def sampleClient : Tree where
  home := []
  entries := [(["src"], .directory), (["src", "client"], .directory),
    (["src", "client", "vite.config.ts"], .file (.text sampleConfig))]

theorem parse_nested : Settings.parse nestedDocument = .ok nested.settings := by
  have hparse : ((Settings.parse nestedDocument).toOption.any fun s =>
      PathField.all.all (fun f => s.paths f == nested.settings.paths f) &&
        ShardField.all.all fun f => s.shard f == nested.settings.shard f) = true := by
    decide +kernel
  cases hs : Settings.parse nestedDocument with
  | error e => rw [hs] at hparse; cases hparse
  | ok s =>
      rw [hs] at hparse
      obtain ⟨hpaths, hshard⟩ := Bool.and_eq_true_iff.1 hparse
      have hsame : s.paths = nested.settings.paths ∧ s.shard = nested.settings.shard := by
        constructor <;> funext f
        · exact eq_of_beq (List.all_eq_true.1 hpaths f (by cases f <;> decide))
        · exact eq_of_beq (List.all_eq_true.1 hshard f (by cases f <;> decide))
      obtain ⟨paths, shard⟩ := s
      obtain ⟨rfl, rfl⟩ := hsame
      rfl

theorem check_feed : Name.check "news-feed" = .ok () ∧ Name.check "feed" = .ok () := by
  have hwords : "news-feed".toList ∉ reservedWords ∧ "feed".toList ∉ reservedWords := by
    unfold reservedWords
    simp (disch := with_reducible rfl) only [Text.toList_eq]
    decide +kernel
  rw [Name.check, Name.check, if_neg hwords.1, if_neg hwords.2]
  decide +kernel

def newsFeed : Name := ⟨"news-feed", check_feed.1⟩

def feed : Name := ⟨"feed", check_feed.2⟩

theorem absent_of_all {l : Layout} {n m : Name} {c : Text} (h : ((l.entryMarks n ++ l.entryMarks m).all
    fun k => !Text.contains k c) = true) : ∀ k ∈ l.entryMarks n ++ l.entryMarks m, ¬k <:+: c := by
  intro k hk hin
  have hnot := List.all_eq_true.1 h k hk
  rw [Text.contains_iff.2 hin] at hnot
  cases hnot

end Layout

theorem entries_of_order_and_stripe : ∃ n m u v, Name.parse "order" = .ok n ∧
    Name.parse "stripe" = .ok m ∧
    (Layout.default ⟨"app"⟩).Reports n Layout.sampleConfig
      (.applied ((Layout.default ⟨"app"⟩).path .bundle) Layout.sampleConfig u none) ∧
    (Layout.default ⟨"app"⟩).Reports m u
      (.applied ((Layout.default ⟨"app"⟩).path .bundle) u v none) ∧
    Layout.entryKey n <:+: u ∧ Layout.entryKey m <:+: v := by
  have hparse := Name.parse_eq Name.check_order
  have hparse' := Name.parse_eq Name.check_stripe
  obtain ⟨hpaths, hentries⟩ := entries_of_pages hparse hparse' (by decide)
    (l := .default ⟨"app"⟩) (by decide +kernel) (by decide +kernel)
  obtain ⟨u, hreports, hkey, -, hapart⟩ := hentries Layout.sampleConfig (by decide +kernel)
    (Layout.absent_of_all (by decide +kernel))
  have hdir : (Layout.default ⟨"app"⟩).entryDir ≠ [] := by decide +kernel
  obtain ⟨v, hreports', hkey'⟩ := hapart fun h =>
    hdir ((hpaths (by decide +kernel) (by decide +kernel)).1 h).1
  exact ⟨_, _, u, v, hparse, hparse', hreports, hreports', hkey, hkey'⟩

/-- The path `feed/index.html` is found at the end of the path `news-feed/index.html`, and the second
page gets no entry. -/
theorem entry_masked_by_longer_name : ∃ r₁ t₁ r₂ t₂ u,
    Settings.parse Layout.nestedDocument = .ok Layout.nested.settings ∧
    Name.parse "news-feed" = .ok Layout.newsFeed ∧ Name.parse "feed" = .ok Layout.feed ∧
    Layout.sampleClient.readText (Layout.nested.path .bundle) = .ok Layout.sampleConfig ∧
    (Anchor.locate Layout.sampleConfig .inputMapping).isSome = true ∧
    (∀ k ∈ Layout.nested.entryMarks Layout.newsFeed ++ Layout.nested.entryMarks Layout.feed,
      ¬k <:+: Layout.sampleConfig) ∧
    (Product.page .static).generate .nested "news-feed" false Layout.sampleClient = .ok r₁ t₁ ∧
    r₁.outcomes.map Outcome.isChange = [true] ∧
    (Product.page .static).generate .nested "feed" false t₁ = .ok r₂ t₂ ∧
    r₂.outcomes = [.alreadyApplied (Layout.nested.path .bundle)] ∧
    t₂.readText (Layout.nested.path .bundle) = .ok u ∧ ¬Layout.entryKey Layout.feed <:+: u := by
  have hparse : Name.parse "news-feed" = .ok Layout.newsFeed := Name.parse_eq Layout.check_feed.1
  have hparse' : Name.parse "feed" = .ok Layout.feed := Name.parse_eq Layout.check_feed.2
  have hruns : ((Recipe.page .nested Layout.newsFeed .static).toOption.any fun r =>
      (Recipe.page .nested Layout.feed .static).toOption.any fun r' =>
        (EStateM.run' (do
          let r₁ ← r.run false
          let r₂ ← r'.run false
          let u ← Disk.look fun t => .ok (t.readText (Layout.nested.path .bundle)).toOption
          return r₁.outcomes.map Outcome.isChange == [true] &&
            (r₂.outcomes == [.alreadyApplied (Layout.nested.path .bundle)] &&
              u.any fun u => !Text.contains (Layout.entryKey Layout.feed) u))
          Layout.sampleClient).any id) = true := by
    decide +kernel
  obtain ⟨r, hr, -⟩ := Recipe.exists_page .nested Layout.newsFeed .static
  obtain ⟨r', hr', -⟩ := Recipe.exists_page .nested Layout.feed .static
  rw [hr, hr'] at hruns
  obtain ⟨ok, hok, rfl⟩ := (Option.any_eq_true _ (EStateM.run' _ _)).1 hruns
  obtain ⟨_, hok⟩ := Disk.exists_ok_of_run hok
  obtain ⟨r₁, t₁, hrun, hok⟩ := Disk.bind_eq_ok_iff.1 hok
  obtain ⟨r₂, _, hrun', hok⟩ := Disk.bind_eq_ok_iff.1 hok
  obtain ⟨_, t₂, hlook, hok⟩ := Disk.bind_eq_ok_iff.1 hok
  obtain ⟨hread, rfl⟩ := Disk.look_eq_ok_iff.1 hlook
  cases hread
  injection hok with hok
  rw [Bool.and_eq_true, Bool.and_eq_true] at hok
  obtain ⟨hfirst, hsecond, hany⟩ := hok
  obtain ⟨u, hu, hmasked⟩ := (Option.any_eq_true _ _).1 hany
  have htext : t₂.readText (Layout.nested.path .bundle) = .ok u := by
    cases h : t₂.readText (Layout.nested.path .bundle) with
    | error e => rw [h] at hu; cases hu
    | ok c => rw [h] at hu; cases hu; rfl
  refine ⟨r₁, t₁, r₂, t₂, u, Layout.parse_nested, hparse, hparse', rfl, by decide +kernel,
    Layout.absent_of_all (by decide +kernel), ?_, eq_of_beq hfirst, ?_, eq_of_beq hsecond, htext,
    fun h => ?_⟩
  · rw [Product.generate_of_ok (p := .page .static) hparse hr, hrun]
  · rw [Product.generate_of_ok (p := .page .static) hparse' hr', hrun']
  · rw [Text.contains_iff.2 h] at hmasked
    cases hmasked

end Scaffold
