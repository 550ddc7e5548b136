import Scaffold.Proofs.Path.Specifiers

namespace Scaffold

open Text

namespace Path

def step (dir : List Component) : Component → List Component
  | .here => dir
  | .up => dir.dropLast
  | c => dir ++ [c]

def walk (dir way : List Component) : List Component := way.foldl step dir

/-- What a way comes to: a climb, and then a descent. -/
structure Course where
  climb : Nat
  descent : List Text
deriving DecidableEq, Repr

namespace Course

variable (c : Course) {k : Component} {ks : List Component} {dir : List Component} {s : Text}

def extend (c : Course) : Component → Course
  | .root | .here => c
  | .up => if c.descent = [] then { c with climb := c.climb + 1 }
      else { c with descent := c.descent.dropLast }
  | .name s => { c with descent := c.descent ++ [s] }

def follow (ks : List Component) : Course := ks.foldl extend c

def names : List Component := c.descent.map .name

def way : List Component := List.replicate c.climb .up ++ c.names

/-- Where the course leads from a directory. -/
def place (dir : List Component) : List Component := dir.take (dir.length - c.climb) ++ c.names

/-- The course after its steps up have taken back each other. -/
def folded : Course := { c with climb := c.climb % 2 }

theorem follow_cons (k : Component) (ks : List Component) :
    c.follow (k :: ks) = (c.extend k).follow ks := rfl

theorem names_concat (s : Text) : ({ c with descent := c.descent ++ [s] } : Course).names =
    c.names ++ [.name s] := List.map_append

theorem names_dropLast : ({ c with descent := c.descent.dropLast } : Course).names =
    c.names.dropLast := List.map_dropLast

variable {c}

theorem names_ne_nil (h : c.descent ≠ []) : c.names ≠ [] := by
  rw [names, Ne, List.map_eq_nil_iff]
  exact h

theorem dropLast_take (dir : List Component) (n : Nat) :
    (dir.take (dir.length - n)).dropLast = dir.take (dir.length - (n + 1)) := by
  rw [List.dropLast_eq_take, List.take_take, List.length_take]
  congr 1
  omega

theorem step_place (hk : k ≠ .root) : step (c.place dir) k = (c.extend k).place dir := by
  cases k with
  | root => exact absurd rfl hk
  | here => rfl
  | name s =>
      change c.place dir ++ [.name s] = _
      rw [extend, place, place, names_concat, List.append_assoc]
  | up =>
      rw [step, extend]
      split
      · next h =>
          have hnames : c.names = [] := by rw [names, h, List.map_nil]
          have hclimbed : ({ c with climb := c.climb + 1 } : Course).names = [] := hnames
          rw [place, place, hnames, hclimbed, List.append_nil, List.append_nil, dropLast_take]
      · next h => rw [place, List.dropLast_append_of_ne_nil (names_ne_nil h), place, names_dropLast]

theorem walk_place (hks : .root ∉ ks) : walk (c.place dir) ks = (c.follow ks).place dir := by
  induction ks generalizing c with
  | nil => rfl
  | cons k ks ih =>
      rw [List.mem_cons, not_or] at hks
      rw [walk, List.foldl_cons, step_place (Ne.symm hks.1), ← walk, ih hks.2, follow_cons]

theorem extend_folded (hk : k ≠ .root) : Path.extend c.folded.way k = (c.extend k).folded.way := by
  have hroot : ¬c.folded.way = [.root] := by
    intro h
    have hmem : .root ∈ c.folded.way := by rw [h]; exact List.mem_singleton_self _
    simp [way, names] at hmem
  cases k with
  | root => exact absurd rfl hk
  | here => rfl
  | name s => simp [Path.extend, Course.extend, way, names, folded]
  | up =>
      rw [Path.extend, Course.extend]
      by_cases h : c.descent = []
      · -- The steps up are all that there is, so the last of them is taken back.
        rw [if_pos h]
        have hways : ∀ n, ({ c with climb := n } : Course).folded.way = List.replicate (n % 2) .up := by
          intro n
          rw [way, names, folded, h, List.map_nil, List.append_nil]
        have hway := hways c.climb
        change c.folded.way = _ at hway
        rw [hways (c.climb + 1)]
        rcases Nat.mod_two_eq_zero_or_one c.climb with heven | hodd
        · rw [heven] at hway
          rw [if_pos (.inl hway), hway, Nat.add_mod, heven]
          rfl
        · rw [hodd] at hway
          rw [if_neg (by rw [hway]; decide), hway, Nat.add_mod, hodd]
          rfl
      · have hnames : c.folded.names ≠ [] := names_ne_nil h
        have hnil : ¬c.folded.way = [] := fun hnil => hnames (List.append_eq_nil_iff.1 hnil).2
        rw [if_neg (not_or.2 ⟨hnil, hroot⟩), if_neg h, way,
          List.dropLast_append_of_ne_nil hnames]
        exact congrArg _ (names_dropLast c.folded).symm

theorem foldl_extend_folded (hks : .root ∉ ks) :
    ks.foldl Path.extend c.folded.way = (c.follow ks).folded.way := by
  induction ks generalizing c with
  | nil => rfl
  | cons k ks ih =>
      rw [List.mem_cons, not_or] at hks
      rw [List.foldl_cons, extend_folded (Ne.symm hks.1), ih hks.2, follow_cons]

theorem climb_extend_le (c : Course) (k : Component) :
    (c.extend k).climb ≤ c.climb + [k].count .up := by
  cases k with
  | root | here | name s => exact Nat.le_add_right _ _
  | up =>
      rw [extend]
      split
      · exact le_rfl
      · exact Nat.le_add_right _ _

theorem climb_follow_le (c : Course) (ks : List Component) :
    (c.follow ks).climb ≤ c.climb + ks.count .up := by
  induction ks generalizing c with
  | nil => exact le_rfl
  | cons k ks ih =>
      have hstep := c.climb_extend_le k
      have hrest := ih (c.extend k)
      have hcount : (k :: ks).count .up = [k].count .up + ks.count .up := by
        rw [← List.singleton_append, List.count_append]
      rw [follow_cons, hcount]
      omega

theorem mem_descent_extend (h : s ∈ (c.extend k).descent) : s ∈ c.descent ∨ k = .name s := by
  cases k with
  | root | here => exact .inl h
  | name t =>
      rcases List.mem_append.1 h with h | h
      · exact .inl h
      · exact .inr (by rw [List.mem_singleton.1 h])
  | up =>
      rw [extend] at h
      split at h
      · exact .inl h
      · exact .inl ((List.dropLast_subset _ h))

theorem mem_descent_follow (h : s ∈ (c.follow ks).descent) : s ∈ c.descent ∨ .name s ∈ ks := by
  induction ks generalizing c with
  | nil => exact .inl h
  | cons k ks ih =>
      rcases ih h with h | h
      · rcases mem_descent_extend h with h | rfl
        · exact .inl h
        · exact .inr List.mem_cons_self
      · exact .inr (List.mem_cons_of_mem k h)

theorem place_inj {m n : Nat} {descent : List Text} (hn : n ≤ dir.length) :
    place ⟨m, descent⟩ dir = place ⟨n, descent⟩ dir ↔ min m dir.length = n := by
  rw [place, place, names, names, List.append_left_inj]
  constructor
  · intro h
    have hlength := congrArg List.length h
    rw [List.length_take, List.length_take] at hlength
    simp only at hlength
    omega
  · rintro rfl
    congr 1
    simp only
    omega

end Course

variable {dir u ds fs cs : List Component} {p file target : Path}

theorem walk_append (dir cs ds : List Component) : walk dir (cs ++ ds) = walk (walk dir cs) ds :=
  List.foldl_append

theorem walk_names (hcs : ∀ c ∈ cs, ∃ s, c = .name s) (dir : List Component) :
    walk dir cs = dir ++ cs := by
  induction cs generalizing dir with
  | nil => exact (List.append_nil dir).symm
  | cons c cs ih =>
      obtain ⟨⟨s, rfl⟩, hrest⟩ := List.forall_mem_cons.1 hcs
      change walk (dir ++ [.name s]) cs = _
      rw [ih hrest, List.append_assoc, List.singleton_append]

theorem walk_ups (dir : List Component) (n : Nat) :
    walk dir (List.replicate n .up) = dir.take (dir.length - n) := by
  induction n with
  | zero => exact (List.take_length (l := dir)).symm
  | succ n ih =>
      rw [List.replicate_succ', walk_append, ih]
      exact Course.dropLast_take dir n

theorem walk_back (u ds : List Component) : walk (u ++ ds) (List.replicate ds.length .up) = u := by
  rw [walk_ups, List.length_append, Nat.add_sub_cancel, List.take_left]

theorem walk_relative (hds : ∀ c ∈ ds, ∃ s, c = .name s) (hfs : ∀ c ∈ fs, ∃ s, c = .name s) :
    walk (u ++ ds) (relative ds fs) = u ++ fs := by
  have hroot : .root ∉ fs := by
    intro h
    obtain ⟨s, hs⟩ := hfs _ h
    cases hs
  obtain ⟨k, ds', fs', rfl, rfl, hway⟩ := exists_relative ds hroot
  rw [hway, ← List.append_assoc, walk_append, walk_back,
    walk_names fun c hc => hfs c (List.mem_append_right k hc), List.append_assoc]

theorem relative_of_shared (h : shared ds fs = 0) (hfs : .root ∉ fs) :
    relative ds fs = List.replicate ds.length .up ++ fs := by
  have hhead : fs.head? ≠ some .root := fun h => hfs (List.mem_of_mem_head? h)
  rw [relative, h, List.drop_zero, if_neg hhead, Nat.sub_zero]

namespace Course

theorem exists_of_mem_names {c : Course} {k : Component} (h : k ∈ c.names) : ∃ s, k = .name s := by
  obtain ⟨s, -, rfl⟩ := List.mem_map.1 h
  exact ⟨s, rfl⟩

theorem root_not_mem_names (c : Course) : .root ∉ c.names := by
  intro h
  obtain ⟨s, hs⟩ := exists_of_mem_names h
  cases hs

theorem walk_way (c : Course) (dir : List Component) : walk dir c.way = c.place dir := by
  rw [way, walk_append, walk_ups, walk_names fun _ => exists_of_mem_names, place]

theorem folded_way_of_mod {c : Course} {n : Nat} (h : c.climb % 2 = n) :
    c.folded.way = List.replicate n .up ++ c.names := by
  rw [way, ← h]
  rfl

theorem relative_of_even {c c' : Course} (h : (c.climb + c'.climb) % 2 = 0) :
    relative c.folded.way c'.folded.way = relative c.names c'.names := by
  have hsame : c.climb % 2 = c'.climb % 2 := by omega
  rw [folded_way_of_mod hsame, folded_way_of_mod rfl, relative_append_append]

theorem relative_of_odd {c c' : Course} (h : (c.climb + c'.climb) % 2 = 1) :
    relative c.folded.way c'.folded.way =
      List.replicate c.names.length .up ++ .up :: c'.names := by
  rcases Nat.mod_two_eq_zero_or_one c.climb with heven | hodd
  · have hodd' : c'.climb % 2 = 1 := by omega
    have hroot : .root ∉ Component.up :: c'.names := by
      rw [List.mem_cons, not_or]
      exact ⟨by simp, root_not_mem_names c'⟩
    rw [folded_way_of_mod heven, folded_way_of_mod hodd']
    refine relative_of_shared ?_ hroot
    change shared c.names (.up :: c'.names) = 0
    rw [names]
    cases c.descent with
    | nil => rfl
    | cons s ss => exact if_neg (by simp)
  · have heven' : c'.climb % 2 = 0 := by omega
    have hshared : shared (.up :: c.names) c'.names = 0 := by
      rw [names, names]
      cases c'.descent with
      | nil => rfl
      | cons s ss => exact if_neg (by simp)
    rw [folded_way_of_mod hodd, folded_way_of_mod heven']
    change relative (.up :: c.names) c'.names = _
    rw [relative_of_shared hshared (root_not_mem_names c'), List.length_cons, List.replicate_succ',
      List.append_assoc]
    rfl

/-- From where a course leads, the way to the other between the folded ones goes up once at most. -/
theorem walk_folded (c c' : Course) (dir : List Component) :
    walk (c.place dir) (relative c.folded.way c'.folded.way) =
      place ⟨c.climb + (c.climb + c'.climb) % 2, c'.descent⟩ dir := by
  rcases Nat.mod_two_eq_zero_or_one (c.climb + c'.climb) with heven | hodd
  · rw [relative_of_even heven, heven, place,
      walk_relative (fun _ => exists_of_mem_names) fun _ => exists_of_mem_names]
    rfl
  · -- Only one of the two climbs after folding, so the way goes up one directory too many.
    rw [relative_of_odd hodd, hodd, place, walk_append, walk_back]
    change walk (dir.take (dir.length - c.climb)).dropLast c'.names = _
    rw [walk_names fun _ => exists_of_mem_names, dropLast_take]
    rfl

end Course

def course (p : Path) : Course := Course.follow ⟨0, []⟩ p.components

theorem isStep_or_here (hp : ¬p.isAbsolute = true) {c : Component} (hc : c ∈ p.components) :
    c.IsStep ∨ c = .here := by
  have hstart : p.start = [] := if_neg hp
  rcases p.components_eq with h | ⟨h, -⟩
  · rw [h, hstart, List.nil_append] at hc
    exact .inl (isStep_of_mem_steps hc)
  · rw [h, List.mem_cons] at hc
    rcases hc with rfl | hc
    · exact .inr rfl
    · exact .inl (isStep_of_mem_steps hc)

theorem root_not_mem_components (hp : ¬p.isAbsolute = true) : .root ∉ p.components := by
  intro h
  rcases isStep_or_here hp h with h | h
  · cases h
  · cases h

theorem walk_components (hp : ¬p.isAbsolute = true) (dir : List Component) :
    walk dir p.components = p.course.place dir := by
  have hstart : Course.place ⟨0, []⟩ dir = dir := by
    rw [Course.place, Nat.sub_zero, List.take_length]
    exact List.append_nil dir
  have hwalk : walk (Course.place ⟨0, []⟩ dir) p.components = p.course.place dir :=
    Course.walk_place (root_not_mem_components hp)
  rwa [hstart] at hwalk

theorem normalize_eq_folded (hp : ¬p.isAbsolute = true) :
    normalize p.components = p.course.folded.way :=
  Course.foldl_extend_folded (c := ⟨0, []⟩) (root_not_mem_components hp)

theorem climb_le (p : Path) : p.course.climb ≤ p.components.count .up := by
  have h := Course.climb_follow_le ⟨0, []⟩ p.components
  rwa [Nat.zero_add] at h

theorem isStep_of_mem_normalize (hp : ¬p.isAbsolute = true) {c : Component}
    (hc : c ∈ normalize p.components) : c.IsStep := by
  rw [normalize_eq_folded hp, Course.way, List.mem_append] at hc
  rcases hc with hc | hc
  · rw [List.eq_of_mem_replicate hc]
    exact .up
  · obtain ⟨s, hs, rfl⟩ := List.mem_map.1 hc
    rcases Course.mem_descent_follow hs with hs | hs
    · cases hs
    · exact (isStep_or_here hp hs).resolve_right (by simp)

theorem walk_steps (hp : ¬p.isAbsolute = true) (dir : List Component) :
    walk dir p.components = walk dir p.steps := by
  have hstart : p.start = [] := if_neg hp
  rcases p.components_eq with h | ⟨h, -⟩
  · rw [h, hstart, List.nil_append]
  · rw [h]
    rfl

theorem walk_moduleSpecifier (htarget : ¬target.dropExtension.isAbsolute = true)
    (dir : List Component) : walk dir (components ⟨moduleSpecifier file target⟩) =
      walk dir (relative (normalize file.directory.components)
        (normalize target.dropExtension.components)) := by
  have hsteps : ∀ c ∈ relative (normalize file.directory.components)
      (normalize target.dropExtension.components), c.IsStep := fun c hc =>
    isStep_of_mem_relative (fun c hc => isStep_of_mem_normalize htarget hc) hc
  have hway : steps ⟨wayFrom file.directory target.dropExtension⟩ = relative
      (normalize file.directory.components) (normalize target.dropExtension.components) := by
    rw [wayFrom]
    exact steps_slashed hsteps
  have hrelative : ¬isAbsolute ⟨wayFrom file.directory target.dropExtension⟩ = true := by
    rw [wayFrom]
    exact isAbsolute_slashed hsteps
  rcases moduleSpecifier_cases file target with ⟨-, h⟩ | h
  · rw [h, walk_steps hrelative, hway]
  · have hhere : ¬isAbsolute ⟨"./" ++ wayFrom file.directory target.dropExtension⟩ = true :=
      Bool.false_ne_true
    rw [h, walk_steps hhere, steps_here, hway]

/-- A relative path leads to the same place when it is normalised just when it climbs one directory at
most. What a file calls a module leads to it, from any directory deep enough, just when the module is
as far up as the directory of the file or one directory further. -/
theorem normalize_keeps_place_iff (dir : Path) :
    (∀ p : Path, ¬p.isAbsolute = true → p.components.count .up ≤ dir.components.length →
      (walk dir.components (normalize p.components) = walk dir.components p.components ↔
        p.course.climb ≤ 1)) ∧
    ∀ file target : Path, ¬file.isAbsolute = true → file.fileName?.isSome = true →
      ¬target.isAbsolute = true → file.directory.components.count .up ≤ dir.components.length →
      target.dropExtension.components.count .up ≤ dir.components.length →
      (walk (walk dir.components file.directory.components)
          (components ⟨moduleSpecifier file target⟩) =
          walk dir.components target.dropExtension.components ↔
        target.dropExtension.course.climb = file.directory.course.climb ∨
          target.dropExtension.course.climb = file.directory.course.climb + 1) := by
  constructor
  · intro p hp hdeep
    have hclimb : p.course.climb ≤ dir.components.length := p.climb_le.trans hdeep
    rw [normalize_eq_folded hp, Course.walk_way, walk_components hp, Course.folded,
      Course.place_inj hclimb]
    omega
  · intro file target hfile hname htarget hdeep hdeep'
    have hdir : ¬file.directory.isAbsolute = true := by rwa [isAbsolute_directory hname]
    have hmodule : ¬target.dropExtension.isAbsolute = true := by rwa [isAbsolute_dropExtension]
    have hclimb := (climb_le _).trans hdeep
    have hclimb' := (climb_le _).trans hdeep'
    rw [walk_moduleSpecifier hmodule, walk_components hdir, walk_components hmodule,
      normalize_eq_folded hdir, normalize_eq_folded hmodule, Course.walk_folded,
      Course.place_inj hclimb']
    omega

theorem normalize_keeps_place_iff_sibling :
    let app : Path := ⟨"/home/me/app"⟩
    let lib : Path := ⟨"./../lib/old/../new"⟩
    let index : Path := ⟨"src/server/index.ts"⟩
    let schemas : Path := ⟨"../lib/schemas.ts"⟩
    walk app.components (normalize lib.components) = walk app.components lib.components ∧
      walk (walk app.components index.directory.components)
          (components ⟨moduleSpecifier index schemas⟩) =
        walk app.components schemas.dropExtension.components := by
  intro app lib index schemas
  obtain ⟨hnormal, hmodule⟩ := normalize_keeps_place_iff app
  constructor
  · exact (hnormal lib (by decide +kernel) (by decide +kernel)).2 (by decide +kernel)
  · exact (hmodule index schemas (by decide +kernel) (by decide +kernel) (by decide +kernel)
      (by decide +kernel) (by decide +kernel)).2 (by decide +kernel)

/-- Two directories up from the project is taken for the project itself. -/
theorem two_steps_up_are_lost :
    let app : Path := ⟨"/home/me/app"⟩
    let lib : Path := ⟨"../.."⟩
    ¬lib.isAbsolute = true ∧ app.isAbsolute = true ∧ app.Dotless ∧
      lib.components.count .up ≤ app.components.length ∧
      walk app.components (normalize lib.components) ≠ walk app.components lib.components ∧
      moduleSpecifier ⟨"src/server/index.ts"⟩ ⟨"../../lib/schemas.ts"⟩ = "../../lib/schemas" ∧
      walk (walk app.components (Path.directory ⟨"src/server/index.ts"⟩).components)
          (components ⟨"../../lib/schemas"⟩) ≠
        walk app.components (components ⟨"../../lib/schemas"⟩) := by
  decide +kernel

end Path

end Scaffold
