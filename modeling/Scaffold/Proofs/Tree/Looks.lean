import Scaffold.Proofs.Tree.Bearing

namespace Scaffold.Tree

variable {t u : Tree} {p : Path} {l r : Location} {ss : List Text}

def place (t : Tree) (p : Path) : Location := t.start p ++ p.names.filter (· ≠ ['.'])

/-- Whatever is there is in a directory, and so are all directories that it is in. -/
def IsRooted (t : Tree) : Prop := ∀ l e, t.get? l = some e → t.Stands l.dropLast

theorem isRooted_empty (home : Location) : (Tree.empty home).IsRooted := by
  intro l e hl
  by_cases hroot : l = []
  · rw [hroot]
    exact stands_nil _
  have hprefix : l <+: home := by
    rw [get?, if_neg hroot] at hl
    obtain ⟨old, hfind, -⟩ := Option.map_eq_some_iff.1 hl
    obtain ⟨n, -, rfl⟩ := List.mem_map.1 (List.mem_of_find?_eq_some hfind)
    have hfound := List.find?_some hfind
    rw [← show home.take (n + 1) = l from beq_iff_eq.1 hfound]
    exact List.take_prefix _ _
  exact fun k hk => isGrounded_empty home k (hk.trans ((List.dropLast_prefix l).trans hprefix))

theorem IsRooted.put_file (h : t.IsRooted) (hl : t.Stands l.dropLast)
    (hdir : t.get? l ≠ some .directory) (c : Contents) : (t.put l (.file c)).IsRooted := by
  intro k e hk
  have hput := Extends.put_file hdir c
  by_cases hkl : k = l
  · exact hkl ▸ hl.mono hput
  · rw [get?_put_of_ne t hkl] at hk
    exact (h k e hk).mono hput

theorem Leads.eq_append (h : Leads t l ss r) (hup : ['.', '.'] ∉ ss) :
    r = l ++ ss.filter (· ≠ ['.']) := by
  induction h with
  | nil => simp
  | here h ih => simpa using ih (fun hmem => hup (List.mem_cons_of_mem _ hmem))
  | up h ih => exact absurd List.mem_cons_self hup
  | down hhere hup' hbytes hdir h ih =>
      rw [ih fun hmem => hup (List.mem_cons_of_mem _ hmem)]
      simp [hhere]

theorem location_eq_place {s : Spot} (hp : p.Dotless) (h : t.locate p = .ok s)
    (hnamed : s.named = true) : s.location = t.place p := by
  cases locate_eq_ok_iff.1 h with
  | root => cases hnamed
  | here => cases hnamed
  | up => cases hnamed
  | name hsane hnames hhere hup hbytes hleads =>
      have hinit := hp.names
      rw [hnames, List.mem_append, not_or] at hinit
      rw [place, hnames, hleads.eq_append hinit.1]
      simp [hhere]

theorem Extends.place (h : t.Extends u) (p : Path) : u.place p = t.place p := by
  rw [Tree.place, Tree.place, start, start, h.home]

theorem Extends.walk_eq_error (h : t.Extends u) {e : FileError} (he : e ≠ .notFound)
    (hwalk : t.walk l ss = .error e) : u.walk l ss = .error e := by
  fun_induction walk t l ss with
  | case1 => cases hwalk
  | case2 l ss ih => rw [walk, if_pos rfl]; exact ih hwalk
  | case3 l ss hhere ih => rw [walk, if_neg hhere, if_pos rfl]; exact ih hwalk
  | case4 l s ss hhere hup hbytes => rw [walk, if_neg hhere, if_neg hup, if_pos hbytes]; exact hwalk
  | case5 => cases hwalk; exact absurd rfl he
  | case6 l s ss hhere hup hbytes c hfile =>
      obtain ⟨c', hc'⟩ := h.file _ _ hfile
      rw [walk, if_neg hhere, if_neg hup, if_neg hbytes, hc']
      exact hwalk
  | case7 l s ss hhere hup hbytes hdir ih =>
      rw [walk, if_neg hhere, if_neg hup, if_neg hbytes, h.directory _ hdir]
      exact ih hwalk

theorem locate_of_not_isSane (t u : Tree) (hp : ¬p.IsSane) : u.locate p = t.locate p := by
  unfold locate
  split
  · rfl
  split
  · rfl
  split
  · rfl
  next hnul hempty hbytes =>
    exact absurd ⟨hnul, by simpa using hempty, Nat.le_of_not_lt hbytes⟩ hp

theorem Extends.locate_eq_error (h : t.Extends u) {e : FileError} (he : e ≠ .notFound)
    (hlocate : t.locate p = .error e) : u.locate p = .error e := by
  by_cases hp : p.IsSane
  · have hstart : u.start p = t.start p := by rw [start, start, h.home]
    rw [locate_of_isSane hp] at hlocate ⊢
    rw [hstart]
    cases hlast : p.names.getLast? with
    | none =>
        rw [hlast] at hlocate
        cases hlocate
    | some last =>
        simp only [hlast] at hlocate ⊢
        cases hwalk : t.walk (t.start p) p.names.dropLast with
        | error e' =>
            rw [hwalk] at hlocate
            cases hlocate
            rw [h.walk_eq_error he hwalk]
            rfl
        | ok above =>
            rw [walk_eq_ok_iff.2 ((walk_eq_ok_iff.1 hwalk).mono h), ← hwalk]
            exact hlocate
  · rwa [locate_of_not_isSane t u hp]

/-- What is missing was missing before. -/
theorem Extends.notFound (h : t.Extends u) (hread : u.readText p = .error .notFound) :
    t.readText p = .error .notFound := by
  rw [readText, stat] at hread ⊢
  cases hlocate : t.locate p with
  | error e =>
      by_cases he : e = .notFound
      · rw [he]; rfl
      · rw [h.locate_eq_error he hlocate] at hread
        cases hread
        exact absurd rfl he
  | ok s =>
      rw [h.locate hlocate] at hread
      cases hentry : t.get? s.location with
      | none => simp only [bind, Except.bind, hentry]
      | some e =>
          cases e with
          | directory =>
              simp only [bind, Except.bind, h.directory _ hentry] at hread
              cases hread
          | file c =>
              obtain ⟨c', hc'⟩ := h.file _ _ hentry
              simp only [bind, Except.bind, hc'] at hread
              cases hslash : s.slash with
              | true => simp [hslash] at hread
              | false => cases c' <;> simp [hslash] at hread

/-- A file that holds a text in a tree was already there with it in the tree from which that one has
grown, if its place held the same. -/
theorem Extends.readText (h : t.Extends u) (ht : t.IsRooted) (hp : p.Dotless) {c : Text}
    (hsame : u.get? (t.place p) = some (.file (.text c)) →
      t.get? (t.place p) = some (.file (.text c))) (hread : u.readText p = .ok c) :
    t.readText p = .ok c := by
  obtain ⟨s, hs, hslash, hfile⟩ := readText_eq_ok_iff.1 hread
  have hnamed : s.named = true := by
    cases locate_eq_ok_iff.1 hs with
    | root => cases hslash
    | here => cases hslash
    | up => cases hslash
    | name => rfl
  have hplace := (location_eq_place hp hs hnamed).trans (h.place p)
  rw [hplace] at hfile
  have hfile' := hsame hfile
  have hway := ht _ _ hfile'
  rw [← hplace] at hway hfile'
  exact readText_eq_ok_iff.2 ⟨s, locate_of_stands hp hnamed hs h.home hway, hslash, hfile'⟩

end Scaffold.Tree
