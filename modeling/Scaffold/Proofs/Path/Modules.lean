import Scaffold.Path.Relative
import Scaffold.Proofs.Tree.Ways

namespace Scaffold.Path

open Text

variable {u v s : Text}

theorem isAbsolute_append (hu : u ≠ []) (v : Text) :
    isAbsolute ⟨u ++ '/' :: v⟩ = isAbsolute ⟨u⟩ := by
  rw [isAbsolute, isAbsolute, List.head?_append_of_ne_nil u hu]

theorem opening_append (hu : u ≠ []) (v : Text) : opening ⟨u ++ '/' :: v⟩ = opening ⟨u⟩ := by
  have hpieces : (List.splitOn '/' (u ++ '/' :: v)).head? = (List.splitOn '/' u).head? := by
    rw [List.splitOn_append_cons_self, List.head?_append_of_ne_nil _ (List.splitOn_ne_nil _ _)]
  rw [opening, opening, isAbsolute_append hu, hpieces]

theorem opening_isPrefix (p : Path) : p.opening <+: p.text := by
  unfold opening
  split
  · next habs =>
      obtain ⟨u, hu⟩ := List.head?_eq_some_iff.1 (beq_iff_eq.1 habs)
      exact ⟨u, hu.symm⟩
  split
  · next hdot =>
      obtain ⟨u, -, hu, -⟩ := splitOn_of_head_dot hdot
      exact ⟨u, hu.symm⟩
  · exact List.nil_prefix

theorem opening_append_segments (p : Path) :
    p.opening ++ List.intercalate "/" p.segments = p.text := by
  obtain ⟨v, hv⟩ := opening_isPrefix p
  have hrest : p.text.drop p.opening.length = v := by
    rw [← hv]
    exact List.drop_left
  have hjoin : List.intercalate "/" (List.splitOn '/' v) = v := List.intercalate_splitOn '/'
  rw [segments, hrest, hjoin, hv]

theorem segments_append (hu : u ≠ []) (v : Text) :
    segments ⟨u ++ '/' :: v⟩ = segments ⟨u⟩ ++ List.splitOn '/' v := by
  have hlength : (opening ⟨u⟩).length ≤ u.length := (opening_isPrefix ⟨u⟩).length_le
  rw [segments, opening_append hu, List.drop_append_of_le_length hlength,
    List.splitOn_append_cons_self]
  rfl

theorem components_append (hu : u ≠ []) (v : Text) : components ⟨u ++ '/' :: v⟩ =
    components ⟨u⟩ ++ (List.splitOn '/' v).filterMap Component.ofSegment? := by
  rw [components, components, isAbsolute_append hu, opening_append hu, segments_append hu,
    List.filterMap_append, List.append_assoc]

theorem ofSegment?_of_isSegment (hs : IsSegment s) : Component.ofSegment? s = some (.name s) := by
  simp [Component.ofSegment?, hs.nonempty, hs.here, hs.up]

theorem dropVoidEnd_concat (hs : IsSegment s) (ss : List Text) :
    dropVoidEnd (ss ++ [s]) = ss ++ [s] := by
  have hvoid : isVoid s = false := by rw [isVoid, ofSegment?_of_isSegment hs]; rfl
  simp [dropVoidEnd, hvoid]

theorem opening_segment (hs : IsSegment s) : opening ⟨s⟩ = [] := by
  rw [opening, if_neg (isAbsolute_of_isSegment hs), if_neg]
  rw [List.splitOn_eq_singleton hs.slash]
  simpa using hs.here

theorem segments_segment (hs : IsSegment s) : segments ⟨s⟩ = [s] := by
  rw [segments, opening_segment hs]
  exact List.splitOn_eq_singleton hs.slash

theorem segments_concat (hu : u ≠ []) (hs : IsSegment s) :
    segments ⟨u ++ '/' :: s⟩ = segments ⟨u⟩ ++ [s] := by
  rw [segments_append hu, List.splitOn_eq_singleton hs.slash]

theorem components_concat (hu : u ≠ []) (hs : IsSegment s) :
    components ⟨u ++ '/' :: s⟩ = components ⟨u⟩ ++ [.name s] := by
  rw [components_append hu, List.splitOn_eq_singleton hs.slash]
  simp [ofSegment?_of_isSegment hs]

theorem directory_append {file : Text} (hu : u ≠ []) (hfile : IsSegment file)
    (hend : dropVoidEnd (segments ⟨u⟩) = segments ⟨u⟩) : directory ⟨u ++ '/' :: file⟩ = ⟨u⟩ := by
  have hwhole := opening_append_segments ⟨u⟩
  rw [directory, parent?, segments_concat hu hfile, dropVoidEnd_concat hfile, List.reverse_append]
  simp only [List.reverse_cons, List.reverse_nil, List.nil_append, List.singleton_append,
    List.reverse_reverse, Option.getD_some]
  rw [hend, opening_append hu, hwhole]

theorem directory_concat {file : Text} (hu : u ≠ []) (hs : IsSegment s) (hfile : IsSegment file) :
    directory ⟨u ++ '/' :: s ++ '/' :: file⟩ = ⟨u ++ '/' :: s⟩ := by
  have hend : dropVoidEnd (segments ⟨u ++ '/' :: s⟩) = segments ⟨u ++ '/' :: s⟩ := by
    rw [segments_concat hu hs, dropVoidEnd_concat hs]
  exact directory_append (by simp) hfile hend

theorem join_append {file : Text} (hu : u ≠ []) (hlast : u.getLast? ≠ some '/')
    (hfile : IsSegment file) : join ⟨u⟩ ⟨file⟩ = ⟨u ++ '/' :: file⟩ := by
  rw [join, if_neg (isAbsolute_of_isSegment hfile), if_neg (by simp [hu, hlast])]
  simp

theorem getLast?_concat (hs : IsSegment s) (u : Text) : (u ++ '/' :: s).getLast? ≠ some '/' := by
  intro hlast
  rw [List.append_cons, List.getLast?_append_of_ne_nil _ hs.nonempty] at hlast
  exact hs.slash (List.mem_of_getLast? hlast)

theorem join_concat (hs : IsSegment s) {file : Text} (hfile : IsSegment file) :
    join ⟨u ++ '/' :: s⟩ ⟨file⟩ = ⟨u ++ '/' :: s ++ '/' :: file⟩ :=
  join_append (by simp) (getLast?_concat hs u) hfile

theorem splitExtension?_append {stem extension : Text} (hstem : stem ≠ [])
    (hdot : '.' ∉ extension) :
    splitExtension? (stem ++ '.' :: extension) = some (stem, extension) := by
  have htake : (stem ++ '.' :: extension).reverse.takeWhile (· != '.') = extension.reverse := by
    rw [List.reverse_append, List.reverse_cons, List.append_assoc,
      List.takeWhile_append_of_pos (by simpa using fun c hc => ne_of_mem_of_not_mem hc hdot)]
    simp
  have hlength : (stem ++ '.' :: extension).length - extension.length - 1 = stem.length := by
    simp only [List.length_append, List.length_cons]
    omega
  rw [splitExtension?, htake, List.reverse_reverse, hlength]
  simp [hstem]

theorem isSegment_extended {stem : Text} (hstem : IsSegment stem) {extension : Text}
    (hslash : '/' ∉ extension) : IsSegment (stem ++ '.' :: extension) := by
  have hne := hstem.nonempty
  refine ⟨by simp, ?_, ?_, ?_⟩
  · rw [List.mem_append, List.mem_cons, not_or, not_or]
    exact ⟨hstem.slash, by decide, hslash⟩
  · intro h
    have hlength := congrArg List.length h
    have hpos := List.length_pos_iff.2 hne
    simp only [List.length_append, List.length_cons, List.length_nil] at hlength
    omega
  · intro h
    obtain ⟨c, rest, rfl⟩ := List.exists_cons_of_ne_nil hne
    obtain ⟨rfl, hrest⟩ := List.cons.inj h
    cases rest with
    | nil => exact hstem.here rfl
    | cons d rest =>
        have hlength : (d :: rest ++ '.' :: extension).length = 1 := congrArg List.length hrest
        simp only [List.length_append, List.length_cons] at hlength
        omega

theorem fileName?_concat {file : Text} (hu : u ≠ []) (hfile : IsSegment file) :
    fileName? ⟨u ++ '/' :: file⟩ = some file := by
  rw [fileName?, segments_concat hu hfile, dropVoidEnd_concat hfile, List.getLast?_concat]
  exact if_neg hfile.up

theorem dropExtension_concat {stem extension : Text} (hu : u ≠ []) (hstem : IsSegment stem)
    (hdot : '.' ∉ extension) (hslash : '/' ∉ extension) :
    dropExtension ⟨u ++ '/' :: (stem ++ '.' :: extension)⟩ = ⟨u ++ '/' :: stem⟩ := by
  have hdotted : IsSegment (stem ++ ['.']) := isSegment_extended hstem (by simp)
  have hsplit : splitExtension? (stem ++ ['.']) = some (stem, []) :=
    splitExtension?_append hstem.nonempty (by simp)
  have hwhole := opening_append_segments ⟨u ++ '/' :: stem⟩
  rw [segments_concat hu hstem, opening_append hu] at hwhole
  have htake : takeBytes (bytes (u ++ '/' :: (stem ++ '.' :: extension)) - bytes extension)
      (u ++ '/' :: (stem ++ '.' :: extension)) = u ++ '/' :: (stem ++ ['.']) := by
    have hwhole : u ++ '/' :: (stem ++ '.' :: extension) =
        u ++ '/' :: (stem ++ ['.']) ++ extension := by simp
    rw [hwhole, bytes_append, Nat.add_sub_cancel, takeBytes_bytes_append]
  rw [dropExtension, fileName?_concat hu (isSegment_extended hstem hslash), Option.bind_some,
    splitExtension?_append hstem.nonempty hdot]
  simp only [htake]
  rw [upToStem, fileName?_concat hu hdotted]
  simp only [hsplit, Option.map_some, Option.getD_some]
  rw [segments_concat hu hdotted, dropVoidEnd_concat hdotted, List.dropLast_concat,
    opening_append hu, hwhole]

theorem foldl_extend_names {cs : List Component} (hcs : ∀ c ∈ cs, ∃ s, c = .name s)
    (way : List Component) : cs.foldl extend way = way ++ cs := by
  induction cs generalizing way with
  | nil => simp
  | cons c cs ih =>
      obtain ⟨⟨s, rfl⟩, hrest⟩ := List.forall_mem_cons.1 hcs
      rw [List.foldl_cons, ih hrest]
      simp [extend]

theorem normalize_append_names (cs : List Component) (names : List Text) :
    normalize (cs ++ names.map .name) = normalize cs ++ names.map .name := by
  have hnames : ∀ c ∈ names.map Component.name, ∃ s, c = .name s := by
    intro c hc
    obtain ⟨s, -, rfl⟩ := List.mem_map.1 hc
    exact ⟨s, rfl⟩
  rw [normalize, List.foldl_append, foldl_extend_names hnames]
  rfl

theorem shared_append_append (k ds fs : List Component) :
    shared (k ++ ds) (k ++ fs) = k.length + shared ds fs := by
  induction k with
  | nil => simp
  | cons c k ih =>
      rw [List.cons_append, List.cons_append, shared, if_pos rfl, ih, List.length_cons]
      omega

theorem relative_append_append (k ds fs : List Component) :
    relative (k ++ ds) (k ++ fs) = relative ds fs := by
  rw [relative, relative, shared_append_append, List.length_append, ← List.drop_drop, List.drop_left,
    Nat.add_sub_add_left]

theorem relative_append {dir down : List Component} (h : down.head? ≠ some .root) :
    relative dir (dir ++ down) = down := by
  have hway := relative_append_append dir [] down
  have hshared : shared [] down = 0 := by cases down <;> rfl
  rw [List.append_nil, relative.eq_def [], hshared] at hway
  rw [hway]
  simp [h]

theorem relative_append_cons {a b : Component} (h : a ≠ b) (hb : b ≠ .root)
    (dir as bs : List Component) :
    relative (dir ++ a :: as) (dir ++ b :: bs) = List.replicate (as.length + 1) .up ++ b :: bs := by
  have hshared : shared (a :: as) (b :: bs) = 0 := if_neg h
  rw [relative_append_append, relative, hshared]
  simp [hb]

theorem moduleSpecifier_concat {dir file near stem extension : Text} (hu : u ≠ [])
    (hdir : IsSegment dir) (hfile : IsSegment file) (hnear : IsSegment near)
    (hvisible : near.head? ≠ some '.') (hstem : IsSegment stem) (hdot : '.' ∉ extension)
    (hslash : '/' ∉ extension) :
    moduleSpecifier ⟨u ++ '/' :: dir ++ '/' :: file⟩
        ⟨u ++ '/' :: dir ++ '/' :: near ++ '/' :: (stem ++ '.' :: extension)⟩ =
      "./" ++ near ++ '/' :: stem := by
  have hne : u ++ '/' :: dir ≠ [] := by simp
  have hne' : u ++ '/' :: dir ++ '/' :: near ≠ [] := by simp
  have hway : wayFrom ⟨u ++ '/' :: dir⟩ ⟨u ++ '/' :: dir ++ '/' :: near ++ '/' :: stem⟩ =
      near ++ '/' :: stem := by
    have hnames : components ⟨u ++ '/' :: dir ++ '/' :: near ++ '/' :: stem⟩ =
        components ⟨u ++ '/' :: dir⟩ ++ [near, stem].map .name := by
      rw [components_concat hne' hstem, components_concat hne hnear]
      simp
    rw [wayFrom, hnames, normalize_append_names, relative_append (by simp)]
    simp [slashed, Component.text]
  rw [moduleSpecifier, directory_concat hu hdir hfile, dropExtension_concat hne' hstem hdot hslash,
    hway]
  have hahead : List.isPrefixOf "../".toList (near ++ '/' :: stem) = false := by
    obtain ⟨c, near, rfl⟩ := List.exists_cons_of_ne_nil hnear.nonempty
    have hc : c ≠ '.' := by simpa using hvisible
    rw [← Bool.not_eq_true, List.isPrefixOf_iff_prefix]
    rintro ⟨w, hw⟩
    exact hc (List.cons.inj hw).1.symm
  rw [hahead]
  simp

theorem moduleSpecifier_across {dir sub file near stem extension : Text} (hu : u ≠ [])
    (hdir : IsSegment dir) (hsub : IsSegment sub) (hfile : IsSegment file) (hnear : IsSegment near)
    (hne : dir ≠ near) (hstem : IsSegment stem) (hdot : '.' ∉ extension) (hslash : '/' ∉ extension) :
    moduleSpecifier ⟨u ++ '/' :: dir ++ '/' :: sub ++ '/' :: file⟩
        ⟨u ++ '/' :: near ++ '/' :: (stem ++ '.' :: extension)⟩ =
      "../../" ++ near ++ '/' :: stem := by
  have hinner : ∀ s : Text, u ++ '/' :: s ≠ [] := by simp
  have hway : wayFrom ⟨u ++ '/' :: dir ++ '/' :: sub⟩ ⟨u ++ '/' :: near ++ '/' :: stem⟩ =
      "../../" ++ near ++ '/' :: stem := by
    have hnames : ∀ {s s' : Text}, IsSegment s → IsSegment s' →
        normalize (components ⟨u ++ '/' :: s ++ '/' :: s'⟩) =
          normalize (components ⟨u⟩) ++ [.name s, .name s'] := by
      intro s s' hs hs'
      rw [components_concat (hinner s) hs', components_concat hu hs, List.append_assoc]
      exact normalize_append_names _ [s, s']
    rw [wayFrom, hnames hdir hsub, hnames hnear hstem,
      relative_append_cons (by simpa using hne) (by simp)]
    simp [slashed, Component.text]
  rw [moduleSpecifier, directory_concat (hinner dir) hsub hfile,
    dropExtension_concat (hinner near) hstem hdot hslash, hway]
  rfl

end Scaffold.Path
