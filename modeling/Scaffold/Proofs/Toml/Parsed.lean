import Scaffold.Proofs.Toml.Values
import Scaffold.Toml.Document

namespace Scaffold.Toml

def Statement.Keyed : Statement → Prop
  | .assign _ v => v.Keyed
  | .header _ => True

open Reader

theorem yields_statement? : statement?.Yields fun s => ∀ a ∈ s, a.Keyed := by
  refine yields_bind _ fun c => ?_
  split
  · exact yields_pure (by simp)
  · exact yields_bind _ fun h => yields_pure (by simp [Statement.Keyed])
  · split
    · exact yields_pure (by simp)
    · exact (yields_keyValue (yields_value maxDepth)).bind fun entry hentry =>
        yields_pure (by simpa [Statement.Keyed] using hentry)

theorem yields_statements : statements.Yields fun l => ∀ s ∈ l, s.Keyed := by
  refine yields_bind _ fun _ => ?_
  refine (Yields.many (P := fun s => ∀ a ∈ s, a.Keyed) ?_).bind fun lines hlines => ?_
  · refine yields_bind _ fun t => ?_
    split
    · exact yields_pure (by simp)
    refine yields_bind _ fun _ => yields_statement?.bind fun s hs => yields_bind _ fun _ =>
      yields_bind _ fun _ => yields_bind _ fun ended => ?_
    have hline : (pure (some s) : Reader (Option (Option Statement))).Yields
        fun o => ∀ s ∈ o, ∀ a ∈ s, a.Keyed := yields_pure (by simpa using hs)
    split
    · exact hline
    refine yields_bind _ fun t => ?_
    split
    · exact hline
    · exact yields_bind _ fun _ => hline
  · refine yields_pure fun s hs => ?_
    obtain ⟨line, hline, rfl⟩ := List.mem_filterMap.1 hs
    exact hlines _ hline s rfl

namespace Draft

/-- All that is in a draft is keyed. While a table is being filled it is away from its place, and
nothing else is there. -/
structure Keyed (d : Draft) : Prop where
  root : Entries.Keyed d.root
  entries : Entries.Keyed d.entries
  free : ∀ h, d.header? = some h → h.isArray = false →
    ∃ inner, Entries.at? h.path d.root = some inner ∧ h.last.text ∉ Entries.keys inner

variable {d d' : Draft} {root es : Entries} {h : Header} {s : Statement}

theorem Keyed.close? (hd : d.Keyed) (hclose : d.close? = some es) : Entries.Keyed es := by
  rw [Draft.close?] at hclose
  cases hheader : d.header? with
  | none =>
      rw [hheader] at hclose
      cases hclose
      exact hd.entries
  | some h =>
      rw [hheader] at hclose
      obtain ⟨⟨_, es⟩, halter, rfl⟩ := Option.map_eq_some_iff.1 hclose
      obtain ⟨form, inner, inner', hat, hput, -, hkeyed⟩ := Entries.of_alter? halter
      obtain ⟨hinner, hinner'⟩ := hkeyed hd.root
      have htable : (Node.table (some h.span) .header d.entries).Keyed :=
        Entries.keyed_table_iff.2 hd.entries
      apply hinner'
      split at hput
      · next hsingle =>
          obtain ⟨inner₂, hat₂, hfree⟩ := hd.free h hheader (by simpa using hsingle)
          rw [hat] at hat₂
          cases hat₂
          cases hput
          exact hinner.append htable hfree
      split at hput
      · next hnone =>
          cases hput
          exact hinner.append (.array (by simpa using htable)) (Entries.get?_eq_none_iff.1 hnone)
      · next span tables hget =>
          cases hput
          refine hinner.replace (.array fun n hn => ?_)
          rcases List.mem_append.1 hn with hn | hn
          · exact Node.keyed_array_iff.1 (hinner.get? hget) n hn
          · rwa [List.mem_singleton.1 hn]
      · cases hput

theorem keyed_open? (hroot : Entries.Keyed root) (hopen : open? root h = some d) : d.Keyed := by
  obtain ⟨⟨entries, root'⟩, halter, heq⟩ := Option.bind_eq_some_iff.1 hopen
  cases heq
  obtain ⟨form, inner, inner', -, htake, hat, hkeyed⟩ := Entries.of_alter? halter
  obtain ⟨hinner, hinner'⟩ := hkeyed hroot
  split at htake
  · next hnone =>
      cases htake
      refine ⟨hinner' hinner, Entries.keyed_nil, ?_⟩
      rintro _ ⟨⟩ -
      exact ⟨_, hat, Entries.get?_eq_none_iff.1 hnone⟩
  · next hmany =>
      cases htake
      refine ⟨hinner' hinner, Entries.keyed_nil, ?_⟩
      rintro _ ⟨⟩ hsingle
      rw [hmany] at hsingle
      cases hsingle
  · next hget _ =>
      cases htake
      refine ⟨hinner' hinner.erase, Entries.keyed_table_iff.1 (hinner.get? hget), ?_⟩
      rintro _ ⟨⟩ -
      exact ⟨_, hat, Entries.not_mem_keys_erase⟩
  · cases htake

/-- A statement more keeps a draft keyed. -/
theorem Keyed.add? (hd : d.Keyed) (hs : s.Keyed) (hadd : d.add? s = some d') : d'.Keyed := by
  cases s with
  | assign keys v =>
      obtain ⟨entries, hassign, heq⟩ := Option.bind_eq_some_iff.1 hadd
      cases heq
      exact ⟨hd.root, hd.entries.assign? hs hassign, hd.free⟩
  | header h =>
      obtain ⟨es, hclose, hopen⟩ := Option.bind_eq_some_iff.1 hadd
      exact keyed_open? (hd.close? hclose) hopen

theorem Keyed.foldlM_add? {lines : List Statement} (hd : d.Keyed) (hlines : ∀ s ∈ lines, s.Keyed)
    (h : lines.foldlM Draft.add? d = some d') : d'.Keyed := by
  induction lines generalizing d with
  | nil => cases h; exact hd
  | cons s lines ih =>
      rw [List.foldlM_cons] at h
      obtain ⟨d₁, hadd, hrest⟩ := Option.bind_eq_some_iff.1 h
      exact ih (hd.add? (hlines s (by simp)) hadd) (fun s hs => hlines s (by simp [hs])) hrest

end Draft

theorem keyed_of_parse? {t : Text} {es : Entries} (h : parse? t = some es) : Entries.Keyed es := by
  obtain ⟨⟨lines, last⟩, hlines, h⟩ := Option.bind_eq_some_iff.1 h
  simp only [Option.bind_eq_bind] at h
  split at h
  · cases h
  obtain ⟨d, hfold, hclose⟩ := Option.bind_eq_some_iff.1 h
  have hempty : Draft.Keyed ⟨[], none, []⟩ := by
    refine ⟨Entries.keyed_nil, Entries.keyed_nil, ?_⟩
    rintro _ ⟨⟩
  exact (hempty.foldlM_add? (yields_statements _ _ _ hlines) hfold).close? hclose

end Scaffold.Toml
