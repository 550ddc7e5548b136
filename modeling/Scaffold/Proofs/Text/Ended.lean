import Scaffold.Proofs.Text.Parts
import Scaffold.Text.Line

namespace Scaffold.Text

def ended (t : Text) : List Text := (List.splitOn '\n' t).dropLast

def unlines (ls : List Text) : Text := ls.flatMap (· ++ ['\n'])

@[simp] theorem unlines_nil : unlines [] = [] := rfl

@[simp] theorem unlines_cons (l : Text) (ls : List Text) :
    unlines (l :: ls) = l ++ '\n' :: unlines ls := by simp [unlines]

theorem unlines_append (ls ms : List Text) : unlines (ls ++ ms) = unlines ls ++ unlines ms :=
  List.flatMap_append

theorem beginsLine_append {u v : Text} (hu : beginsLine u.getLast? = true)
    (hv : beginsLine v.getLast? = true) : beginsLine (u ++ v).getLast? = true := by
  rw [List.getLast?_append]
  cases hlast : v.getLast? with
  | none => exact hu
  | some c => rwa [hlast] at hv

theorem beginsLine_of_suffix {u v : Text} (h : v <:+ u) (hu : beginsLine u.getLast? = true) :
    beginsLine v.getLast? = true := by
  obtain ⟨w, rfl⟩ := h
  by_cases hv : v = []
  · rw [hv]
    rfl
  · rwa [List.getLast?_append_of_ne_nil w hv] at hu

theorem beginsLine_unlines (ls : List Text) : beginsLine (unlines ls).getLast? = true := by
  induction ls with
  | nil => rfl
  | cons l ls ih =>
      rw [unlines_cons, List.append_cons]
      exact beginsLine_append (by rw [List.getLast?_concat]; rfl) ih

theorem eq_concat_of_beginsLine {u : Text} (h : beginsLine u.getLast? = true) (hne : u ≠ []) :
    ∃ w, u = w ++ ['\n'] := by
  have hlast := List.getLast?_eq_some_getLast hne
  rw [hlast] at h
  have hc : u.getLast hne = '\n' := by simpa [beginsLine] using h
  exact ⟨u.dropLast, by rw [← hc, List.dropLast_concat_getLast]⟩

theorem splitOn_concat (u : Text) : List.splitOn '\n' (u ++ ['\n']) = List.splitOn '\n' u ++ [[]] :=
  List.splitOn_append_cons_self u []

theorem ended_concat (u : Text) : ended (u ++ ['\n']) = List.splitOn '\n' u := by
  rw [ended, splitOn_concat, List.dropLast_concat]

theorem splitOn_append_of_beginsLine {u : Text} (h : beginsLine u.getLast? = true) (v : Text) :
    List.splitOn '\n' (u ++ v) = ended u ++ List.splitOn '\n' v := by
  cases u with
  | nil => rfl
  | cons c u =>
      obtain ⟨w, hw⟩ := eq_concat_of_beginsLine h (List.cons_ne_nil c u)
      rw [hw, ended_concat, List.append_assoc, List.singleton_append, List.splitOn_append_cons_self]

theorem ended_append {u : Text} (h : beginsLine u.getLast? = true) (v : Text) :
    ended (u ++ v) = ended u ++ ended v := by
  rw [ended, splitOn_append_of_beginsLine h,
    List.dropLast_append_of_ne_nil (List.splitOn_ne_nil _ _)]
  rfl

theorem ended_unlines {ls : List Text} (h : ∀ l ∈ ls, '\n' ∉ l) : ended (unlines ls) = ls := by
  induction ls with
  | nil => rfl
  | cons l ls ih =>
      have hl : ended (l ++ ['\n']) = [l] := by
        rw [ended_concat, List.splitOn_eq_singleton (h l List.mem_cons_self)]
      have hrest := ih fun m hm => h m (List.mem_cons_of_mem l hm)
      have hline : beginsLine (l ++ ['\n']).getLast? = true := by
        rw [List.getLast?_concat]
        rfl
      rw [unlines_cons, List.append_cons, ended_append hline, hl, hrest, List.singleton_append]

end Scaffold.Text
