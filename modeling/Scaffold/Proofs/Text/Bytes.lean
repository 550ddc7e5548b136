import Scaffold.Text.Basic

namespace Scaffold.Text

theorem takeBytes_append {u : Text} {n : Nat} (h : bytes u ≤ n) (v : Text) :
    takeBytes n (u ++ v) = u ++ takeBytes (n - bytes u) v := by
  induction u generalizing n with
  | nil => simp
  | cons c u ih =>
      simp only [bytes_cons] at h
      have hc : c.utf8Size ≤ n := by omega
      simp [takeBytes, hc, ih (n := n - c.utf8Size) (by omega), Nat.sub_sub]

theorem dropBytes_append {u : Text} {n : Nat} (h : bytes u ≤ n) (v : Text) :
    dropBytes n (u ++ v) = dropBytes (n - bytes u) v := by
  induction u generalizing n with
  | nil => simp
  | cons c u ih =>
      simp only [bytes_cons] at h
      have hc : c.utf8Size ≤ n := by omega
      simp [dropBytes, hc, ih (n := n - c.utf8Size) (by omega), Nat.sub_sub]

@[simp] theorem takeBytes_zero (t : Text) : takeBytes 0 t = [] := takeBytes_bytes_append [] t

@[simp] theorem dropBytes_zero (t : Text) : dropBytes 0 t = t := dropBytes_bytes_append [] t

@[simp] theorem isBoundary_zero (t : Text) : isBoundary t 0 = true := isBoundary_bytes_append [] t

theorem bytes_takeBytes {t : Text} {n : Nat} (h : isBoundary t n = true) :
    bytes (takeBytes n t) = n := by
  simpa [isBoundary] using h

theorem isBoundary_iff {t : Text} {n : Nat} :
    isBoundary t n = true ↔ ∃ u v, t = u ++ v ∧ bytes u = n := by
  constructor
  · intro h
    exact ⟨takeBytes n t, dropBytes n t, by simp, bytes_takeBytes h⟩
  · rintro ⟨u, v, rfl, rfl⟩
    exact isBoundary_bytes_append u v

theorem bytes_eq_zero {t : Text} : bytes t = 0 ↔ t = [] := by
  cases t with
  | nil => simp
  | cons c t => have := c.utf8Size_pos; simp; omega

theorem isPrefix_of_bytes_le {t u v : Text} (hu : u <+: t) (hv : v <+: t)
    (h : bytes u ≤ bytes v) : u <+: v := by
  rcases List.prefix_or_prefix_of_prefix hu hv with huv | hvu
  · exact huv
  · obtain ⟨w, rfl⟩ := hvu
    have hw : w = [] := bytes_eq_zero.1 (by simp only [bytes_append] at h; omega)
    simp [hw]

theorem exists_of_boundary_le {u w : Text} {n : Nat} (h : isBoundary (u ++ w) n = true)
    (hn : n ≤ bytes u) : ∃ a b, u = a ++ b ∧ bytes a = n := by
  obtain ⟨a, c, hac, rfl⟩ := isBoundary_iff.1 h
  obtain ⟨b, rfl⟩ := isPrefix_of_bytes_le ⟨c, hac.symm⟩ (List.prefix_append u w) hn
  exact ⟨a, b, rfl, rfl⟩

theorem takeBytes_slice {t : Text} {i j : Nat} (hi : isBoundary t i = true) (h : i ≤ j) :
    takeBytes i t ++ slice t i j = takeBytes j t := by
  obtain ⟨u, v, rfl, rfl⟩ := isBoundary_iff.1 hi
  rw [takeBytes_bytes_append, slice, dropBytes_bytes_append, takeBytes_append h]

theorem slice_dropBytes {t : Text} {i j : Nat} (hi : isBoundary t i = true) (h : i ≤ j) :
    slice t i j ++ dropBytes j t = dropBytes i t := by
  obtain ⟨u, v, rfl, rfl⟩ := isBoundary_iff.1 hi
  rw [slice, dropBytes_bytes_append, dropBytes_append h, takeBytes_append_dropBytes]

theorem bytes_slice {t : Text} {i j : Nat} (hi : isBoundary t i = true) (hj : isBoundary t j = true)
    (h : i ≤ j) : bytes (slice t i j) = j - i := by
  have hb := congrArg bytes (takeBytes_slice hi h)
  rw [bytes_append, bytes_takeBytes hi, bytes_takeBytes hj] at hb
  omega

theorem slice_append (u m v : Text) : slice (u ++ m ++ v) (bytes u) (bytes (u ++ m)) = m := by
  rw [slice, List.append_assoc, dropBytes_bytes_append, bytes_append, Nat.add_sub_cancel_left,
    takeBytes_bytes_append]

/-- What stands before a boundary is not touched by a change after it. -/
theorem takeBytes_takeBytes_append {t : Text} {i j : Nat} (hi : isBoundary t i = true) (h : i ≤ j)
    (w : Text) : takeBytes i (takeBytes j t ++ w) = takeBytes i t := by
  have hu := takeBytes_bytes_append (takeBytes i t) (slice t i j ++ w)
  rwa [bytes_takeBytes hi, ← List.append_assoc, takeBytes_slice hi h] at hu

theorem dropBytes_takeBytes_append {t : Text} {j : Nat} (hj : isBoundary t j = true) (w : Text) :
    dropBytes j (takeBytes j t ++ w) = w := by
  have hw := dropBytes_bytes_append (takeBytes j t) w
  rwa [bytes_takeBytes hj] at hw

end Scaffold.Text
