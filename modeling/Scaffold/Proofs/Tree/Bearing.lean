import Scaffold.Proofs.Tree.Ways

namespace Scaffold.Tree

variable {t t' u : Tree} {l : Location} {m : Text} {p : Path}

theorem Leads.append {ss : List Text} {last : Text} {r : Location}
    (h : Leads t l (ss ++ [last]) r) : ∃ above, Leads t l ss above ∧ Leads t above [last] r := by
  induction ss generalizing l with
  | nil => exact ⟨l, .nil l, h⟩
  | cons s ss ih =>
      cases h with
      | here h =>
          obtain ⟨above, hinit, hlast⟩ := ih h
          exact ⟨above, .here hinit, hlast⟩
      | up h =>
          obtain ⟨above, hinit, hlast⟩ := ih h
          exact ⟨above, .up hinit, hlast⟩
      | down hhere hup hbytes hdir h =>
          obtain ⟨above, hinit, hlast⟩ := ih h
          exact ⟨above, .down hhere hup hbytes hdir hinit, hlast⟩

theorem stat_of_leads {r : Location} (hp : p.IsSane) (h : Leads t (t.start p) p.names r)
    (hr : t.get? r = some .directory) : t.stat p = .ok .directory := by
  have hlands : ∃ s, Lands t p s ∧ t.get? s.location = some .directory := by
    rcases List.eq_nil_or_concat p.names with hnames | ⟨init, last, hnames⟩
    · exact ⟨_, .root hp hnames, rfl⟩
    · rw [List.concat_eq_append] at hnames
      rw [hnames] at h
      obtain ⟨above, hinit, hlast⟩ := h.append
      cases hlast with
      | here h =>
          cases h
          exact ⟨_, .here hp hnames hinit, hr⟩
      | up h =>
          cases h
          exact ⟨_, .up hp hnames hinit, hr⟩
      | down hhere hup hbytes hdir h =>
          cases h
          exact ⟨_, .name hp hnames hhere hup hbytes hinit, hdir⟩
  obtain ⟨s, hs, hdir⟩ := hlands
  exact stat_eq_ok_iff.2 ⟨s, locate_eq_ok_iff.2 hs, hdir, fun _ => rfl⟩

theorem has_of_leads {r : Location} (hp : p.IsSane) (h : Leads t (t.start p) p.names r)
    (hr : t.get? r = some .directory) : t.has p = true :=
  has_iff.2 ⟨_, stat_of_leads hp h hr⟩

theorem locate_of_stands {s : Spot} (hp : p.Dotless) (hnamed : s.named = true)
    (h : t'.locate p = .ok s) (hhome : t'.home = t.home) (hs : t.Stands s.location.dropLast) :
    t.locate p = .ok s := by
  have hstart : t'.start p = t.start p := by rw [start, start, hhome]
  have hlands := locate_eq_ok_iff.1 h
  refine locate_eq_ok_iff.2 ?_
  cases hlands with
  | root => cases hnamed
  | here => cases hnamed
  | up => cases hnamed
  | name hsane hnames hhere hup hbytes hleads =>
      have hinit := hp.names
      rw [hnames, List.mem_append, not_or] at hinit
      rw [List.dropLast_concat] at hs
      rw [hstart] at hleads
      exact .name hsane hnames hhere hup hbytes (hleads.of_stands hinit.1 hs)

/-- The file at a location has a text with `m` in it, and there is a way to the file. -/
structure Bears (t : Tree) (l : Location) (m : Text) : Prop where
  way : t.Stands l.dropLast
  text : ∃ c, t.get? l = some (.file (.text c)) ∧ m <:+: c

theorem bears_of_readText {c : Text} (ht : t.IsGrounded) (hp : p.Dotless)
    (hread : t.readText p = .ok c) (hm : m <:+: c) : ∃ s, t.locate p = .ok s ∧ s.slash = false ∧
      t.Bears s.location m := by
  obtain ⟨s, hs, hslash, hfile⟩ := readText_eq_ok_iff.1 hread
  refine ⟨s, hs, hslash, ?_, c, hfile, hm⟩
  cases locate_eq_ok_iff.1 hs with
  | root => cases hslash
  | here => cases hslash
  | up => cases hslash
  | name hsane hnames hhere hup hbytes h =>
      have hinit := hp.names
      rw [hnames, List.mem_append, not_or] at hinit
      rw [List.dropLast_concat]
      exact h.stands hinit.1 (ht.stands_start p)

theorem Bears.exists_readText {s : Spot} (h : t'.Bears s.location m) (ht : t.Extends t')
    (hs : t.locate p = .ok s) (hslash : s.slash = false) :
    ∃ c, t'.readText p = .ok c ∧ m <:+: c := by
  obtain ⟨c, hfile, hm⟩ := h.text
  exact ⟨c, readText_eq_ok_iff.2 ⟨s, ht.locate hs, hslash, hfile⟩, hm⟩

theorem Bears.put_of_ne {k : Location} {e : Entry} (h : t.Bears l m) (ht : t.Extends (t.put k e))
    (hk : l ≠ k) : (t.put k e).Bears l m := by
  obtain ⟨c, hfile, hm⟩ := h.text
  exact ⟨h.way.mono ht, c, by rwa [get?_put_of_ne t hk], hm⟩

theorem Bears.makeDirectory (h : t.Bears l m) (hmake : t.makeDirectory p = .ok t') :
    t'.Bears l m := by
  obtain ⟨s, -, -, hfree, rfl⟩ := of_makeDirectory hmake
  obtain ⟨c, hfile, -⟩ := h.text
  refine h.put_of_ne (.put_directory hfree) ?_
  rintro rfl
  rw [hfree] at hfile
  cases hfile

theorem Bears.ne_of_locate {s : Spot} (h : t.Bears l m) (hp : p.Dotless) (hnamed : s.named = true)
    (hslash : s.slash = false) (hu : t.Extends u) (hs : u.locate p = .ok s)
    (hread : ∀ c, t.readText p ≠ .ok c) : l ≠ s.location := by
  rintro rfl
  obtain ⟨c, hfile, -⟩ := h.text
  have hlocate := locate_of_stands hp hnamed hs hu.home h.way
  exact hread c (readText_eq_ok_iff.2 ⟨s, hlocate, hslash, hfile⟩)

theorem exists_leads_of_join {name : Text} {s : Spot} (hname : Text.IsSegment name)
    (h : t.locate (p.join ⟨name⟩) = .ok s) :
    (p.join ⟨name⟩).IsSane ∧ ∃ above, Leads t (t.start p) p.names above ∧
      s.location = above ++ [name] := by
  have hnames' := Path.names_join (p := p) hname
  have hstart : t.start (p.join ⟨name⟩) = t.start p := by
    rw [start, start, Path.isAbsolute_join hname]
  have hlast : ∀ {init : List Text} {last : Text}, (p.join ⟨name⟩).names = init ++ [last] →
      init = p.names ∧ last = name := by
    intro init last hnames
    rw [hnames'] at hnames
    obtain ⟨hinit, hlast⟩ := List.append_inj' hnames rfl
    exact ⟨hinit.symm, by simpa using hlast.symm⟩
  cases locate_eq_ok_iff.1 h with
  | root hsane hnames => simp [hnames'] at hnames
  | here hsane hnames => exact absurd (hlast hnames).2.symm hname.here
  | up hsane hnames => exact absurd (hlast hnames).2.symm hname.up
  | name hsane hnames hhere hup hbytes hleads =>
      obtain ⟨rfl, rfl⟩ := hlast hnames
      exact ⟨hsane, _, hstart ▸ hleads, rfl⟩

/-- Where nothing was, there was no directory with a file in it. -/
theorem Bears.ne_of_locate_join {name : Text} {s : Spot} (h : t.Bears l m)
    (hname : Text.IsSegment name) (hp : p.Dotless) (hne : p.text ≠ []) (hfree : ¬t.has p = true)
    (hu : t.Extends u) (hs : u.locate (p.join ⟨name⟩) = .ok s) : l ≠ s.location := by
  rintro rfl
  obtain ⟨hsane, above, hleads, hlocation⟩ := exists_leads_of_join hname hs
  have hway := h.way
  rw [hlocation, List.dropLast_concat] at hway
  rw [start, hu.home] at hleads
  exact hfree (has_of_leads (Path.isSane_of_join hname hne hsane) (hleads.of_stands hp.names hway)
    (hway above (List.prefix_refl _)))

theorem has_of_readText_join {name c : Text} (ht : t.IsGrounded) (hname : Text.IsSegment name)
    (hp : p.Dotless) (hne : p.text ≠ []) (hread : t.readText (p.join ⟨name⟩) = .ok c) :
    t.has p = true := by
  obtain ⟨s, hs, -⟩ := readText_eq_ok_iff.1 hread
  obtain ⟨hsane, above, hleads, -⟩ := exists_leads_of_join hname hs
  have habove := hleads.stands hp.names (ht.stands_start p)
  have hp := Path.isSane_of_join hname hne hsane
  exact has_of_leads hp hleads (habove above (List.prefix_refl _))

end Scaffold.Tree
