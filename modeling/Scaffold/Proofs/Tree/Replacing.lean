import Scaffold.Proofs.Path.Modules
import Scaffold.Proofs.Tree.Bearing

namespace Scaffold

namespace Path

structure EndsIn (p : Path) (file : Text) : Prop where
  segment : Text.IsSegment file
  path : ∃ u dir, u ≠ [] ∧ Text.IsSegment dir ∧ p = ⟨u ++ '/' :: dir ++ '/' :: file⟩

end Path

namespace Tree

variable {t : Tree} {p q : Path} {file other : Text}

theorem named_of_locate {s : Spot} (h : t.locate p = .ok s) (hslash : s.slash = false) :
    s.named = true := by
  cases locate_eq_ok_iff.1 h with
  | root => cases hslash
  | here => cases hslash
  | up => cases hslash
  | name => rfl

theorem stat_directory (hp : p.EndsIn file) {s : Spot} (hs : t.locate p = .ok s) :
    t.stat p.directory = .ok .directory ∧ p.directory.text ≠ [] ∧
      s.location.getLast? = some file := by
  obtain ⟨hfile, u, dir, hu, hdir, rfl⟩ := hp
  rw [Path.directory_concat hu hdir hfile]
  rw [← Path.join_concat hdir hfile] at hs
  obtain ⟨hsane, above, hleads, hlocation⟩ := exists_leads_of_join hfile hs
  have hsane' := Path.isSane_of_join hfile (by simp) hsane
  refine ⟨stat_of_leads hsane' hleads ?_, by simp, by rw [hlocation, List.getLast?_concat]⟩
  rw [Path.names_append, Path.names_of_isSegment hdir] at hleads
  obtain ⟨init, -, hlast⟩ := hleads.append
  cases hlast with
  | here h => exact absurd rfl hdir.here
  | up h => exact absurd rfl hdir.up
  | down hhere hup hbytes hentry h =>
      cases h
      exact hentry

theorem exists_replace (hp : p.EndsIn file) {c : Text} (hread : t.readText p = .ok c) (new : Text) :
    ∃ t', t.replace p (.text new) = .ok t' ∧ t'.readText p = .ok new ∧
      ∀ q other d, q.EndsIn other → other ≠ file → t.readText q = .ok d → t'.readText q = .ok d := by
  obtain ⟨s, hs, hslash, hentry⟩ := readText_eq_ok_iff.1 hread
  have hnamed := named_of_locate hs hslash
  have hnot : t.get? s.location ≠ some .directory := by simp [hentry]
  obtain ⟨hstat, hne, hlast⟩ := stat_directory hp hs
  have hreplace : t.replace p (.text new) = .ok (t.put s.location (.file (.text new))) := by
    have hdirectory : (if p.directory.text.isEmpty then (⟨"."⟩ : Path) else p.directory) =
        p.directory := if_neg (by simpa using hne)
    rw [replace]
    simp only [hdirectory]
    refine bind_eq_ok_iff.2 ⟨_, hstat, bind_eq_ok_iff.2 ⟨s, hs, ?_⟩⟩
    simp [hnamed, hslash, hnot]
  refine ⟨_, hreplace, readText_replace hreplace, fun q other d hq hother hd => ?_⟩
  obtain ⟨s', hs', hslash', hentry'⟩ := readText_eq_ok_iff.1 hd
  have hapart : s'.location ≠ s.location := by
    intro heq
    rw [← heq, (stat_directory hq hs').2.2] at hlast
    exact hother (Option.some.inj hlast)
  exact readText_eq_ok_iff.2 ⟨s', (Extends.put_file hnot _).locate hs', hslash', by
    rwa [get?_put_of_ne t hapart]⟩

end Tree

end Scaffold
