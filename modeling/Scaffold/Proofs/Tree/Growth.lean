import Scaffold.Tree.Basic

namespace Scaffold

namespace Path

def names (p : Path) : List Text := (List.splitOn '/' p.text).filter (!·.isEmpty)

structure IsSane (p : Path) : Prop where
  nul : '\x00' ∉ p.text
  nonempty : p.text ≠ []
  bytes : Text.bytes p.text ≤ Tree.maxPath

end Path

theorem bind_eq_ok_iff {ε α β : Type} {x : Except ε α} {f : α → Except ε β} {b : β} :
    x >>= f = .ok b ↔ ∃ a, x = .ok a ∧ f a = .ok b := by
  cases x with
  | error e => simp [bind, Except.bind]
  | ok a => simp [bind, Except.bind]

theorem mapError_eq_ok_iff {ε ε' α : Type} {x : Except ε α} {f : ε → ε'} {a : α} :
    x.mapError f = .ok a ↔ x = .ok a := by
  cases x with
  | error e => exact ⟨nofun, nofun⟩
  | ok b => constructor <;> rintro ⟨⟩ <;> rfl

namespace Tree

variable {t t' : Tree} {l k : Location} {e : Entry}

def lookup (l : Location) (entries : List (Location × Entry)) : Option Entry :=
  (entries.find? fun e => e.1 == l).map Prod.snd

theorem lookup_cons (l : Location) (a : Location × Entry) (entries : List (Location × Entry)) :
    lookup l (a :: entries) = if a.1 = l then some a.2 else lookup l entries := by
  by_cases h : a.1 = l
  · simp [lookup, h]
  · simp [lookup, h]

theorem lookup_map_of_ne (hk : k ≠ l) (entries : List (Location × Entry)) :
    lookup k (entries.map fun old => if old.1 = l then (l, e) else old) = lookup k entries := by
  induction entries with
  | nil => rfl
  | cons a entries ih =>
      rw [List.map_cons, lookup_cons, lookup_cons, ih]
      by_cases ha : a.1 = l
      · simp [ha, Ne.symm hk]
      · simp [ha]

theorem lookup_map_self {entries : List (Location × Entry)}
    (h : (entries.any fun old => old.1 == l) = true) :
    lookup l (entries.map fun old => if old.1 = l then (l, e) else old) = some e := by
  induction entries with
  | nil => cases h
  | cons a entries ih =>
      rw [List.map_cons, lookup_cons]
      by_cases ha : a.1 = l
      · simp [ha]
      · rw [if_neg ha, if_neg ha]
        exact ih (by simpa [ha] using h)

theorem lookup_append (k : Location) (entries : List (Location × Entry)) (a : Location × Entry) :
    lookup k (entries ++ [a]) = (lookup k entries).or (if a.1 = k then some a.2 else none) := by
  induction entries with
  | nil => simp [lookup]
  | cons b entries ih =>
      rw [List.cons_append, lookup_cons, lookup_cons, ih]
      split
      · rfl
      · rfl

theorem lookup_eq_none {entries : List (Location × Entry)}
    (h : ¬(entries.any fun old => old.1 == l) = true) : lookup l entries = none := by
  induction entries with
  | nil => rfl
  | cons a entries ih =>
      simp only [List.any_cons, Bool.or_eq_true, not_or, beq_iff_eq] at h
      rw [lookup_cons, if_neg h.1, ih h.2]

theorem get?_eq_lookup (t : Tree) (hl : l ≠ []) : t.get? l = lookup l t.entries := if_neg hl

theorem get?_put_self (t : Tree) (hl : l ≠ []) (e : Entry) : (t.put l e).get? l = some e := by
  rw [get?_eq_lookup _ hl, put]
  by_cases h : (t.entries.any fun old => old.1 == l) = true
  · rw [if_pos h, lookup_map_self h]
  · rw [if_neg h, lookup_append, lookup_eq_none h, Option.none_or, if_pos rfl]

theorem get?_put_of_ne (t : Tree) (hk : k ≠ l) (e : Entry) : (t.put l e).get? k = t.get? k := by
  by_cases hroot : k = []
  · rw [get?, get?, if_pos hroot, if_pos hroot]
  rw [get?_eq_lookup _ hroot, get?_eq_lookup _ hroot, put]
  split
  · exact lookup_map_of_ne hk _
  · rw [lookup_append, if_neg (Ne.symm hk), Option.or_none]

/-- Nothing is taken away, and what is a directory or a file stays one. -/
structure Extends (t t' : Tree) : Prop where
  home : t'.home = t.home
  directory : ∀ l, t.get? l = some .directory → t'.get? l = some .directory
  file : ∀ l c, t.get? l = some (.file c) → ∃ c', t'.get? l = some (.file c')

namespace Extends

theorem refl (t : Tree) : t.Extends t := ⟨rfl, fun _ h => h, fun _ c h => ⟨c, h⟩⟩

theorem trans {t₁ t₂ t₃ : Tree} (h : t₁.Extends t₂) (h' : t₂.Extends t₃) : t₁.Extends t₃ := by
  refine ⟨h'.home.trans h.home, fun l hl => h'.directory l (h.directory l hl), fun l c hl => ?_⟩
  obtain ⟨c', hc'⟩ := h.file l c hl
  exact h'.file l c' hc'

theorem put_file (hl : t.get? l ≠ some .directory) (c : Contents) :
    t.Extends (t.put l (.file c)) := by
  have hroot : l ≠ [] := by
    rintro rfl
    exact hl rfl
  refine ⟨rfl, fun k hk => ?_, fun k c' hk => ?_⟩
  · rwa [get?_put_of_ne t (by rintro rfl; exact hl hk)]
  · by_cases hkl : k = l
    · subst hkl
      exact ⟨c, get?_put_self t hroot _⟩
    · exact ⟨c', by rwa [get?_put_of_ne t hkl]⟩

theorem put_directory (hl : t.get? l = none) : t.Extends (t.put l .directory) := by
  have hkl : ∀ k e, t.get? k = some e → k ≠ l := by
    rintro k e hk rfl
    rw [hl] at hk
    cases hk
  refine ⟨rfl, fun k hk => ?_, fun k c hk => ⟨c, ?_⟩⟩
  · rwa [get?_put_of_ne t (hkl k _ hk)]
  · rwa [get?_put_of_ne t (hkl k _ hk)]

end Extends

inductive Leads (t : Tree) : Location → List Text → Location → Prop
  | nil (l : Location) : Leads t l [] l
  | here {l r : Location} {ss : List Text} (h : Leads t l ss r) : Leads t l (['.'] :: ss) r
  | up {l r : Location} {ss : List Text} (h : Leads t l.dropLast ss r) :
      Leads t l (['.', '.'] :: ss) r
  | down {l r : Location} {s : Text} {ss : List Text} (hhere : s ≠ ['.']) (hup : s ≠ ['.', '.'])
      (hbytes : ¬maxName < Text.bytes s) (hdir : t.get? (l ++ [s]) = some .directory)
      (h : Leads t (l ++ [s]) ss r) : Leads t l (s :: ss) r

theorem walk_eq_ok_iff {ss : List Text} {r : Location} :
    t.walk l ss = .ok r ↔ Leads t l ss r := by
  constructor
  · intro h
    fun_induction walk t l ss with
    | case1 l => cases h; exact .nil _
    | case2 l ss ih => exact .here (ih h)
    | case3 l ss hhere ih => exact .up (ih h)
    | case4 => cases h
    | case5 => cases h
    | case6 => cases h
    | case7 l s ss hhere hup hbytes hdir ih => exact .down hhere hup hbytes hdir (ih h)
  · intro h
    induction h with
    | nil => rfl
    | here h ih => rwa [walk, if_pos rfl]
    | up h ih => rwa [walk, if_neg (by decide), if_pos rfl]
    | down hhere hup hbytes hdir h ih =>
        rw [walk, if_neg hhere, if_neg hup, if_neg hbytes, hdir, ih]

theorem Leads.mono {ss : List Text} {r : Location} (h : Leads t l ss r) (ht : t.Extends t') :
    Leads t' l ss r := by
  induction h with
  | nil => exact .nil _
  | here h ih => exact .here ih
  | up h ih => exact .up ih
  | down hhere hup hbytes hdir h ih => exact .down hhere hup hbytes (ht.directory _ hdir) ih

def start (t : Tree) (p : Path) : Location := if p.isAbsolute then [] else t.home

inductive Lands (t : Tree) (p : Path) : Spot → Prop
  | root (hp : p.IsSane) (hnames : p.names = []) : Lands t p ⟨[], false, true⟩
  | here {init : List Text} {above : Location} (hp : p.IsSane) (hnames : p.names = init ++ [['.']])
      (h : Leads t (t.start p) init above) : Lands t p ⟨above, false, true⟩
  | up {init : List Text} {above : Location} (hp : p.IsSane)
      (hnames : p.names = init ++ [['.', '.']]) (h : Leads t (t.start p) init above) :
      Lands t p ⟨above.dropLast, false, true⟩
  | name {init : List Text} {last : Text} {above : Location} (hp : p.IsSane)
      (hnames : p.names = init ++ [last]) (hhere : last ≠ ['.']) (hup : last ≠ ['.', '.'])
      (hbytes : ¬maxName < Text.bytes last) (h : Leads t (t.start p) init above) :
      Lands t p ⟨above ++ [last], true, p.text.getLast? == some '/'⟩

theorem isSane_of_locate {p : Path} {s : Spot} (h : t.locate p = .ok s) : p.IsSane := by
  unfold locate at h
  split at h
  · cases h
  split at h
  · cases h
  split at h
  · cases h
  next hnul hempty hbytes =>
    exact ⟨hnul, by simpa using hempty, Nat.le_of_not_lt hbytes⟩

def spotIn (p : Path) (last : Text) (above : Location) : Except FileError Spot :=
  if last = ['.'] then .ok ⟨above, false, true⟩
  else if last = ['.', '.'] then .ok ⟨above.dropLast, false, true⟩
  else if maxName < Text.bytes last then .error .nameTooLong
  else .ok ⟨above ++ [last], true, p.text.getLast? == some '/'⟩

theorem locate_of_isSane {p : Path} (hp : p.IsSane) :
    t.locate p = match p.names.getLast? with
      | none => .ok ⟨[], false, true⟩
      | some last => t.walk (t.start p) p.names.dropLast >>= spotIn p last := by
  have hempty : ¬p.text.isEmpty = true := by simpa using hp.nonempty
  rw [locate, if_neg hp.nul, if_neg hempty, if_neg (Nat.not_lt.2 hp.bytes)]
  rfl

theorem locate_concat {p : Path} {init : List Text} {last : Text} (hp : p.IsSane)
    (hnames : p.names = init ++ [last]) :
    t.locate p = t.walk (t.start p) init >>= spotIn p last := by
  simp only [locate_of_isSane hp, hnames, List.getLast?_concat, List.dropLast_concat]

theorem locate_of_leads {p : Path} {init : List Text} {last : Text} {above : Location}
    (hp : p.IsSane) (hnames : p.names = init ++ [last]) (h : Leads t (t.start p) init above) :
    t.locate p = spotIn p last above := by
  rw [locate_concat hp hnames, walk_eq_ok_iff.2 h]
  rfl

theorem lands_of_spotIn {p : Path} {init : List Text} {last : Text} {above : Location} {s : Spot}
    (hp : p.IsSane) (hnames : p.names = init ++ [last]) (hleads : Leads t (t.start p) init above)
    (h : spotIn p last above = .ok s) : Lands t p s := by
  unfold spotIn at h
  split at h
  · next hlast =>
      cases h
      exact .here hp (hlast ▸ hnames) hleads
  split at h
  · next hlast =>
      cases h
      exact .up hp (hlast ▸ hnames) hleads
  split at h
  · cases h
  · next hhere hup hbytes =>
      cases h
      exact .name hp hnames hhere hup hbytes hleads

theorem locate_eq_ok_iff {p : Path} {s : Spot} : t.locate p = .ok s ↔ Lands t p s := by
  constructor
  · intro h
    have hp := isSane_of_locate h
    rcases List.eq_nil_or_concat p.names with hnames | ⟨init, last, hnames⟩
    · rw [locate_of_isSane hp, hnames] at h
      cases h
      exact .root hp hnames
    · rw [List.concat_eq_append] at hnames
      rw [locate_concat hp hnames] at h
      cases hwalk : t.walk (t.start p) init with
      | error e =>
          rw [hwalk] at h
          cases h
      | ok above =>
          rw [hwalk] at h
          exact lands_of_spotIn hp hnames (walk_eq_ok_iff.1 hwalk) h
  · intro h
    cases h with
    | root hp hnames => rw [locate_of_isSane hp, hnames]; rfl
    | here hp hnames h => exact locate_of_leads hp hnames h
    | up hp hnames h => exact locate_of_leads hp hnames h
    | name hp hnames hhere hup hbytes h =>
        rw [locate_of_leads hp hnames h, spotIn, if_neg hhere, if_neg hup, if_neg hbytes]

theorem Lands.mono {p : Path} {s : Spot} (h : Lands t p s) (ht : t.Extends t') : Lands t' p s := by
  have hstart : t'.start p = t.start p := by rw [start, start, ht.home]
  cases h with
  | root hp hnames => exact .root hp hnames
  | here hp hnames h => exact .here hp hnames (hstart ▸ h.mono ht)
  | up hp hnames h => exact .up hp hnames (hstart ▸ h.mono ht)
  | name hp hnames hhere hup hbytes h => exact .name hp hnames hhere hup hbytes (hstart ▸ h.mono ht)

theorem Extends.locate {p : Path} {s : Spot} (ht : t.Extends t') (h : t.locate p = .ok s) :
    t'.locate p = .ok s :=
  locate_eq_ok_iff.2 ((locate_eq_ok_iff.1 h).mono ht)

theorem stat_eq_ok_iff {p : Path} : t.stat p = .ok e ↔ ∃ s, t.locate p = .ok s ∧
    t.get? s.location = some e ∧ (s.slash = true → e = .directory) := by
  rw [stat, bind_eq_ok_iff]
  refine exists_congr fun s => and_congr_right fun _ => ?_
  cases t.get? s.location with
  | none => simp
  | some f =>
      cases f with
      | directory =>
          constructor
          · rintro ⟨⟩
            exact ⟨rfl, fun _ => rfl⟩
          · rintro ⟨⟨⟩, -⟩
            rfl
      | file c =>
          cases s.slash with
          | false => simp
          | true =>
              refine iff_of_false (fun h => nomatch h) ?_
              rintro ⟨⟨⟩, h⟩
              exact nomatch h rfl

theorem has_iff {p : Path} : t.has p = true ↔ ∃ e, t.stat p = .ok e := by
  rw [has]
  cases t.stat p <;> simp [Except.toOption]

theorem Extends.has {p : Path} (ht : t.Extends t') (h : t.has p = true) : t'.has p = true := by
  obtain ⟨e, he⟩ := has_iff.1 h
  obtain ⟨s, hs, hentry, hslash⟩ := stat_eq_ok_iff.1 he
  cases e with
  | directory =>
      exact has_iff.2 ⟨_, stat_eq_ok_iff.2
        ⟨s, ht.locate hs, ht.directory _ hentry, fun _ => rfl⟩⟩
  | file c =>
      obtain ⟨c', hc'⟩ := ht.file _ _ hentry
      exact has_iff.2 ⟨_, stat_eq_ok_iff.2
        ⟨s, ht.locate hs, hc', fun h => absurd (hslash h) (by simp)⟩⟩

theorem readText_eq_ok_iff {p : Path} {c : Text} : t.readText p = .ok c ↔ ∃ s,
    t.locate p = .ok s ∧ s.slash = false ∧ t.get? s.location = some (.file (.text c)) := by
  rw [readText, bind_eq_ok_iff]
  constructor
  · rintro ⟨e, he, h⟩
    obtain ⟨s, hs, hentry, hslash⟩ := stat_eq_ok_iff.1 he
    split at h
    · cases h
    · cases h
    · cases h
      refine ⟨s, hs, ?_, hentry⟩
      simpa using hslash
  · rintro ⟨s, hs, hslash, hentry⟩
    exact ⟨_, stat_eq_ok_iff.2 ⟨s, hs, hentry, by simp [hslash]⟩, rfl⟩

theorem of_write {p : Path} {c : Contents} (h : t.write p c = .ok t') : ∃ s,
    t.locate p = .ok s ∧ s.named = true ∧ s.slash = false ∧
      t.get? s.location ≠ some .directory ∧ t' = t.put s.location (.file c) := by
  obtain ⟨s, hs, h⟩ := bind_eq_ok_iff.1 h
  split at h
  · cases h
  split at h
  · cases h
  next hnamed hdir =>
    simp only [Bool.or_eq_true, Bool.not_eq_true', not_or, Bool.not_eq_false,
      Bool.not_eq_true] at hnamed
    cases h
    exact ⟨s, hs, hnamed.1, hnamed.2, hdir, rfl⟩

theorem of_replace {p : Path} {c : Contents} (h : t.replace p c = .ok t') : ∃ s,
    t.locate p = .ok s ∧ s.named = true ∧ s.slash = false ∧
      t.get? s.location ≠ some .directory ∧ t' = t.put s.location (.file c) := by
  obtain ⟨d, hd, h⟩ := bind_eq_ok_iff.1 h
  cases d with
  | file => cases h
  | directory =>
      obtain ⟨s, hs, h⟩ := bind_eq_ok_iff.1 h
      split at h
      · cases h
      split at h
      · cases h
      split at h
      · cases h
      next hnamed hslash hdir =>
        cases h
        exact ⟨s, hs, by simpa using hnamed, by simpa using hslash, hdir, rfl⟩

theorem of_makeDirectory {p : Path} (h : t.makeDirectory p = .ok t') : ∃ s,
    t.locate p = .ok s ∧ s.named = true ∧ t.get? s.location = none ∧
      t' = t.put s.location .directory := by
  obtain ⟨s, hs, h⟩ := bind_eq_ok_iff.1 h
  split at h
  · cases h
  next hfree =>
    cases h
    simp only [Bool.or_eq_true, Bool.not_eq_true', not_or, Bool.not_eq_false] at hfree
    exact ⟨s, hs, hfree.1, by simpa using hfree.2, rfl⟩

theorem location_ne_nil {p : Path} {s : Spot} (h : t.locate p = .ok s) (hnamed : s.named = true) :
    s.location ≠ [] := by
  cases locate_eq_ok_iff.1 h with
  | root => cases hnamed
  | here => cases hnamed
  | up => cases hnamed
  | name => simp

theorem readText_put {p : Path} {s : Spot} (h : t.locate p = .ok s) (hnamed : s.named = true)
    (hslash : s.slash = false) (hdir : t.get? s.location ≠ some .directory) (c : Text) :
    (t.put s.location (.file (.text c))).readText p = .ok c :=
  readText_eq_ok_iff.2 ⟨s, (Extends.put_file hdir _).locate h, hslash,
    get?_put_self t (location_ne_nil h hnamed) _⟩

theorem readText_replace {p : Path} {c : Text} (h : t.replace p (.text c) = .ok t') :
    t'.readText p = .ok c := by
  obtain ⟨s, hs, hnamed, hslash, hdir, rfl⟩ := of_replace h
  exact readText_put hs hnamed hslash hdir c

theorem readText_write {p : Path} {c : Text} (h : t.write p (.text c) = .ok t') :
    t'.readText p = .ok c := by
  obtain ⟨s, hs, hnamed, hslash, hdir, rfl⟩ := of_write h
  exact readText_put hs hnamed hslash hdir c

theorem has_of_readText {p : Path} {c : Text} (h : t.readText p = .ok c) : t.has p = true := by
  obtain ⟨e, he, -⟩ := bind_eq_ok_iff.1 h
  exact has_iff.2 ⟨e, he⟩

end Tree

end Scaffold
