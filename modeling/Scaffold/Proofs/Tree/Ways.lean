import Scaffold.Proofs.Text.Parts
import Scaffold.Proofs.Tree.Growth

namespace Scaffold

namespace Text

structure IsSegment (s : Text) : Prop where
  nonempty : s ≠ []
  slash : '/' ∉ s
  here : s ≠ ['.']
  up : s ≠ ['.', '.']

theorem isSegment_iff {s : Text} :
    IsSegment s ↔ s ≠ [] ∧ '/' ∉ s ∧ s ≠ ['.'] ∧ s ≠ ['.', '.'] := by
  constructor
  · intro h
    exact ⟨h.nonempty, h.slash, h.here, h.up⟩
  · rintro ⟨hne, hslash, hhere, hup⟩
    exact ⟨hne, hslash, hhere, hup⟩

instance (s : Text) : Decidable (IsSegment s) := decidable_of_iff _ isSegment_iff.symm

theorem isSegment_of_last {s : Text} (hslash : '/' ∉ s)
    (hlast : ∃ c, s.getLast? = some c ∧ c ≠ '.') : IsSegment s := by
  obtain ⟨c, hc, hne⟩ := hlast
  refine ⟨?_, hslash, ?_, ?_⟩
  all_goals
    rintro rfl
    simp at hc
  · exact hne hc.symm
  · exact hne hc.symm

end Text

namespace Path

variable {p q : Path} {name : Text}

/-- The path never leads back up. -/
def Dotless (p : Path) : Prop := Component.up ∉ p.components

instance (p : Path) : Decidable p.Dotless := inferInstanceAs (Decidable (_ ∉ _))

theorem splitOn_of_head_dot {t : Text} (h : (List.splitOn '/' t).head? = some ['.']) :
    ∃ u ps, t = '.' :: u ∧ List.splitOn '/' u = [] :: ps ∧ List.splitOn '/' t = ['.'] :: ps := by
  cases t with
  | nil => simp at h
  | cons c u =>
      by_cases hc : c = '/'
      · subst hc
        simp at h
      · obtain ⟨q, ps, hu, hsplit⟩ :=
          Text.splitOn_append_of_not_mem (List.not_mem_cons_of_ne_of_not_mem (Ne.symm hc)
            List.not_mem_nil) u
        rw [List.singleton_append] at hsplit
        rw [hsplit] at h
        obtain ⟨rfl, rfl⟩ : c = '.' ∧ q = [] := by simpa using h
        exact ⟨u, ps, rfl, hu, hsplit⟩

theorem mem_segments_iff {s : Text} (hne : s ≠ []) (hhere : s ≠ ['.']) :
    s ∈ p.segments ↔ s ∈ List.splitOn '/' p.text := by
  rw [segments, opening]
  split
  · next habs =>
      obtain ⟨u, hu⟩ := List.head?_eq_some_iff.1 (beq_iff_eq.1 habs)
      rw [hu]
      simp [hne]
  split
  · next hdot =>
      obtain ⟨u, ps, hu, hrest, hpieces⟩ := splitOn_of_head_dot hdot
      rw [hpieces, hu]
      simp [hrest, hne, hhere]
  · simp

theorem ofSegment?_eq_up {s : Text} : Component.ofSegment? s = some .up ↔ s = ['.', '.'] := by
  rw [Component.ofSegment?]
  split
  · next h => obtain rfl | rfl := h <;> simp
  split
  · next h => simp [h]
  · next h => simp [h]

theorem dotless_iff : p.Dotless ↔ ['.', '.'] ∉ List.splitOn '/' p.text := by
  rw [← mem_segments_iff (by decide) (by decide), Dotless, not_iff_not, components,
    List.mem_append, List.mem_filterMap]
  simp only [ofSegment?_eq_up, exists_eq_right, or_iff_right_iff_imp]
  intro h
  split at h
  · simp at h
  split at h
  · simp at h
  · simp at h

theorem Dotless.names (h : p.Dotless) : ['.', '.'] ∉ p.names :=
  fun hmem => dotless_iff.1 h (List.mem_of_mem_filter hmem)

theorem dotless_of_isSegment (h : Text.IsSegment name) : Dotless ⟨name⟩ := by
  rw [dotless_iff, List.splitOn_eq_singleton h.slash, List.mem_singleton]
  exact h.up.symm

theorem text_join (hq : ¬q.isAbsolute = true) :
    (p.text = [] ∧ (p.join q).text = q.text) ∨
      (∃ u, p.text = u ++ ['/'] ∧ (p.join q).text = u ++ '/' :: q.text) ∨
      (p.text ≠ [] ∧ (p.join q).text = p.text ++ '/' :: q.text) := by
  rw [join, if_neg hq]
  split
  · next h =>
      rcases h with h | h
      · have hp : p.text = [] := by simpa using h
        exact .inl ⟨hp, by rw [hp]; rfl⟩
      · obtain ⟨u, hu⟩ := List.getLast?_eq_some_iff.1 h
        exact .inr (.inl ⟨u, hu, by rw [hu]; simp⟩)
  · next h =>
      rw [not_or] at h
      exact .inr (.inr ⟨by simpa using h.1, by simp⟩)

theorem dotless_join (hp : p.Dotless) (hq : q.Dotless) : (p.join q).Dotless := by
  by_cases habs : q.isAbsolute = true
  · rwa [join, if_pos habs]
  rw [dotless_iff] at hp hq ⊢
  rcases text_join (p := p) habs with ⟨-, htext⟩ | ⟨u, hu, htext⟩ | ⟨-, htext⟩
  · rwa [htext]
  · rw [htext, List.splitOn_append_cons_self, List.mem_append, not_or]
    rw [hu, List.splitOn_append_cons_self, List.mem_append, not_or] at hp
    exact ⟨hp.1, hq⟩
  · rw [htext, List.splitOn_append_cons_self, List.mem_append, not_or]
    exact ⟨hp, hq⟩

theorem isAbsolute_of_isSegment (h : Text.IsSegment name) : ¬isAbsolute ⟨name⟩ = true := by
  intro habs
  exact h.slash (List.mem_of_mem_head? (beq_iff_eq.1 habs))

theorem names_append (u v : Text) :
    names ⟨u ++ '/' :: v⟩ = names ⟨u⟩ ++ names ⟨v⟩ := by
  rw [names, List.splitOn_append_cons_self, List.filter_append]
  rfl

theorem names_of_isSegment (h : Text.IsSegment name) : names ⟨name⟩ = [name] := by
  rw [names, List.splitOn_eq_singleton h.slash]
  simpa using h.nonempty

theorem names_join (h : Text.IsSegment name) : (p.join ⟨name⟩).names = p.names ++ [name] := by
  obtain ⟨hp, htext⟩ | ⟨u, hu, htext⟩ | ⟨-, htext⟩ := text_join (p := p) (isAbsolute_of_isSegment h)
  · have hnames : p.names = [] := by
      rw [names, hp]
      rfl
    rw [hnames, names, htext]
    exact names_of_isSegment h
  · have hnames : p.names = names ⟨u⟩ := by
      rw [names, hu, List.splitOn_append_cons_self, List.filter_append]
      simp [names]
    rw [hnames, ← names_of_isSegment h, ← names_append, names, htext]
    rfl
  · rw [← names_of_isSegment h]
    change _ = names ⟨p.text⟩ ++ _
    rw [← names_append, names, htext]
    rfl

theorem prefix_join (h : Text.IsSegment name) : p.text <+: (p.join ⟨name⟩).text := by
  rcases text_join (p := p) (isAbsolute_of_isSegment h) with ⟨hp, -⟩ | ⟨u, hu, htext⟩ | ⟨-, htext⟩
  · rw [hp]
    exact List.nil_prefix
  · exact ⟨name, by rw [hu, htext]; simp⟩
  · exact ⟨'/' :: name, by rw [htext]⟩

theorem join_ne_nil (h : Text.IsSegment name) : (p.join ⟨name⟩).text ≠ [] := by
  intro hnil
  have hnames := names_join (p := p) h
  rw [names, hnil] at hnames
  simp at hnames

theorem isAbsolute_join (h : Text.IsSegment name) :
    (p.join ⟨name⟩).isAbsolute = p.isAbsolute := by
  by_cases hp : p.text = []
  · have hseg := isAbsolute_of_isSegment h
    rcases text_join (p := p) hseg with ⟨-, htext⟩ | ⟨u, hu, -⟩ | ⟨hne, -⟩
    · rw [isAbsolute, isAbsolute, htext, hp]
      simpa [isAbsolute] using hseg
    · simp [hp] at hu
    · exact absurd hp hne
  · obtain ⟨v, hv⟩ := prefix_join (p := p) h
    rw [isAbsolute, isAbsolute, ← hv, List.head?_append_of_ne_nil _ hp]

theorem isSane_of_join (h : Text.IsSegment name) (hp : p.text ≠ []) (hs : (p.join ⟨name⟩).IsSane) :
    p.IsSane := by
  obtain ⟨v, hv⟩ := prefix_join (p := p) h
  refine ⟨fun hnul => hs.nul ?_, hp, ?_⟩
  · rw [← hv]
    exact List.mem_append_left v hnul
  · have hbytes := hs.bytes
    rw [← hv, Text.bytes_append] at hbytes
    omega

end Path

namespace Tree

variable {t t' : Tree} {l r : Location} {ss : List Text}

def Stands (t : Tree) (l : Location) : Prop := ∀ k, k <+: l → t.get? k = some .directory

/-- The working directory is there, as it is in an empty tree and in all that grow from it. -/
def IsGrounded (t : Tree) : Prop := t.Stands t.home

theorem Stands.mono (h : t.Stands l) (ht : t.Extends t') : t'.Stands l :=
  fun k hk => ht.directory k (h k hk)

theorem IsGrounded.mono (h : t.IsGrounded) (ht : t.Extends t') : t'.IsGrounded := by
  rw [IsGrounded, ht.home]
  exact Stands.mono h ht

theorem stands_nil (t : Tree) : t.Stands [] := by
  intro k hk
  rw [List.prefix_nil.1 hk]
  rfl

theorem isGrounded_empty (home : Location) : (Tree.empty home).IsGrounded := by
  intro k hk
  by_cases hroot : k = []
  · rw [get?, if_pos hroot]
  rw [get?, if_neg hroot]
  cases hfind : (Tree.empty home).entries.find? fun e => e.1 == k with
  | none =>
      have hlength : k.length - 1 < home.length := by
        have hle : k.length ≤ home.length := hk.length_le
        have hpos := List.length_pos_iff.2 hroot
        omega
      have hmem : (home.take (k.length - 1 + 1), Entry.directory) ∈ (Tree.empty home).entries :=
        List.mem_map.2 ⟨_, List.mem_range.2 hlength, rfl⟩
      have htake : home.take (k.length - 1 + 1) = k := by
        rw [Nat.sub_add_cancel (List.length_pos_iff.2 hroot)]
        exact (List.prefix_iff_eq_take.1 hk).symm
      exact absurd (beq_iff_eq.2 htake) (List.find?_eq_none.1 hfind _ hmem)
  | some e =>
      obtain ⟨n, -, rfl⟩ := List.mem_map.1 (List.mem_of_find?_eq_some hfind)
      rfl

theorem IsGrounded.stands_start (h : t.IsGrounded) (p : Path) : t.Stands (t.start p) := by
  rw [start]
  split
  · exact stands_nil t
  · exact h

theorem stands_concat {s : Text} (h : t.Stands l) (hdir : t.get? (l ++ [s]) = some .directory) :
    t.Stands (l ++ [s]) := by
  intro k hk
  rcases List.prefix_concat_iff.1 hk with rfl | hk
  · exact hdir
  · exact h k hk

theorem Leads.stands (h : Leads t l ss r) (hup : ['.', '.'] ∉ ss) (hl : t.Stands l) :
    t.Stands r := by
  induction h with
  | nil => exact hl
  | here h ih => exact ih (fun hmem => hup (List.mem_cons_of_mem _ hmem)) hl
  | up h ih => exact absurd List.mem_cons_self hup
  | down hhere hup' hbytes hdir h ih =>
      exact ih (fun hmem => hup (List.mem_cons_of_mem _ hmem)) (stands_concat hl hdir)

theorem Leads.isPrefix (h : Leads t l ss r) (hup : ['.', '.'] ∉ ss) : l <+: r := by
  induction h with
  | nil => exact List.prefix_refl _
  | here h ih => exact ih fun hmem => hup (List.mem_cons_of_mem _ hmem)
  | up h ih => exact absurd List.mem_cons_self hup
  | down hhere hup' hbytes hdir h ih =>
      exact (List.prefix_append _ _).trans (ih fun hmem => hup (List.mem_cons_of_mem _ hmem))

/-- A way that is there in one tree is there in every tree that has its directories. -/
theorem Leads.of_stands (h : Leads t' l ss r) (hup : ['.', '.'] ∉ ss) (hr : t.Stands r) :
    Leads t l ss r := by
  -- Without two dots every directory on the way is above the place where it ends.
  induction h with
  | nil => exact .nil _
  | here h ih => exact .here (ih (fun hmem => hup (List.mem_cons_of_mem _ hmem)) hr)
  | up h ih => exact absurd List.mem_cons_self hup
  | down hhere hup' hbytes hdir h ih =>
      have htail : ['.', '.'] ∉ _ := fun hmem => hup (List.mem_cons_of_mem _ hmem)
      exact .down hhere hup' hbytes (hr _ (h.isPrefix htail)) (ih htail hr)

end Tree

end Scaffold
