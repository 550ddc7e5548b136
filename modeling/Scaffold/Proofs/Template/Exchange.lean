import Scaffold.Proofs.Import.Added
import Scaffold.Proofs.Template.Declared
import Scaffold.Proofs.Template.Routes

namespace Scaffold

namespace Text

/-- Leads of all that a module exports. What it exports without a name is its `default`. -/
def moduleLeads : List Text :=
  ["export async function ", "export function ", "export const ", "export type ", "export "]

theorem mem_splitOn_unlines {ls : List Text} {l : Text} (hl : l ∈ ls) (hline : '\n' ∉ l) :
    l ∈ List.splitOn '\n' (unlines ls) := by
  induction ls with
  | nil => cases hl
  | cons k ls ih =>
      rw [unlines_cons, List.splitOn_append_cons_self]
      rcases List.mem_cons.1 hl with rfl | hl
      · rw [List.splitOn_eq_singleton hline]
        exact List.mem_append_left _ (List.mem_singleton_self l)
      · exact List.mem_append_right _ (ih hl)

theorem splitOn_unlines {ls : List Text} (h : ∀ l ∈ ls, '\n' ∉ l) :
    List.splitOn '\n' (unlines ls) = ls ++ [[]] := by
  induction ls with
  | nil => rfl
  | cons l ls ih =>
      obtain ⟨hl, hls⟩ := List.forall_mem_cons.1 h
      rw [unlines_cons, List.splitOn_append_cons_self_of_not_mem hl, ih hls, List.cons_append]

structure Registration where
  route : Text
  handler : Text
deriving DecidableEq, Repr

def registerLeads : List Text := ["app.get(", "app.post("]

def registration? (line : Text) : Option Registration :=
  match List.splitOn '\'' line with
  | [lead, route, rest] =>
    let handler := (rest.drop 2).takeWhile isNamePart
    if registerLeads.contains lead ∧ rest = ", " ++ handler ++ ");" then some ⟨route, handler⟩
    else none
  | _ => none

def registrations (t : Text) : List Registration := (List.splitOn '\n' t).filterMap registration?

end Text

inductive ImportRequest.IsStated (i : ImportRequest) : Text → Prop
  | list : i.IsStated (i.line '\'')
  | default {name : Text} (hname : name ≠ []) (hparts : ∀ c ∈ name, Text.isNamePart c = true)
      (hnames : i.names = ["default".toList]) :
      i.IsStated ("import " ++ name ++ " from '" ++ i.source ++ "';")

namespace Symbol

variable {v v' : Slot → Text} {f g : List Symbol}

theorem fillAll_congr_of (h : ∀ s, slot s ∈ f → v s = v' s) : fillAll v f = fillAll v' f := by
  induction f with
  | nil => rfl
  | cons a f ih =>
      have hrest := ih fun s hs => h s (List.mem_cons_of_mem a hs)
      cases a with
      | char c => rw [fillAll_char, fillAll_char, hrest]
      | slot s => rw [fillAll_slot, fillAll_slot, hrest, h s List.mem_cons_self]

theorem isNamePart_of_mem_fillAll (hv : IsNamed v) (h : ∀ a ∈ f, isNamePart a = true) {c : Char}
    (hc : c ∈ fillAll v f) : Text.isNamePart c = true := by
  rcases mem_fillAll hc with hc | ⟨s, hs, hc⟩
  · exact h _ hc
  · exact hv.parts s (h _ hs) c hc

structure Request where
  source : List Symbol
  names : List (List Symbol)
  typeOnly : Bool
deriving DecidableEq

namespace Request

variable (q : Request)

def fill (v : Slot → Text) : ImportRequest :=
  ⟨fillAll v q.source, q.names.map (fillAll v), q.typeOnly⟩

def line : List Symbol :=
  ofText ("import " ++ if q.typeOnly then "type " else "") ++ ofText "\x7b " ++
    List.intercalate (ofText ", ") q.names ++ ofText " \x7d from '" ++ q.source ++ ofText "';"

end Request

def request? (f : List Symbol) : Option Request :=
  match List.splitOn (char '\'') f with
  | [clause, source, _] =>
    let list := (clause.dropWhile (· ≠ char '{')).tail.takeWhile (· ≠ char '}')
    let names := if char '{' ∈ clause then List.splitOn (char ',') (list.filter (· ≠ char ' '))
      else [ofText "default"]
    some ⟨source, names, (ofText "import type ").isPrefixOf f⟩
  | _ => none

theorem fillAll_intercalate (sep : Text) (fs : List (List Symbol)) :
    fillAll v (List.intercalate (ofText sep) fs) = List.intercalate sep (fs.map (fillAll v)) := by
  induction fs with
  | nil => rfl
  | cons f fs ih =>
      cases fs with
      | nil => simp
      | cons g gs =>
          rw [List.intercalate_cons_cons, fillAll_append, fillAll_append, fillAll_ofText, ih,
            List.map_cons, List.map_cons, List.map_cons, List.intercalate_cons_cons]

theorem fillAll_line (v : Slot → Text) (q : Request) : fillAll v q.line = (q.fill v).line '\'' := by
  rw [Request.line, ImportRequest.line_eq, ImportRequest.clause, Request.fill]
  simp only [fillAll_append, fillAll_ofText, fillAll_intercalate]
  simp

/-- The symbols tell what the line exports. -/
def IsOpen (f : List Symbol) : Prop :=
  Text.moduleLeads.all (isLegible · f) = true ∧ char '\n' ∉ f ∧ slots f ⊆ [.pascal]

instance (f : List Symbol) : Decidable (IsOpen f) := inferInstanceAs (Decidable (_ ∧ _ ∧ _))

def export? (f : List Symbol) : Option (List Symbol) :=
  if IsOpen f then Text.moduleLeads.findSome? fun lead => nameAfter? lead f else none

theorem of_export? (h : export? f = some g) :
    IsOpen f ∧ (Text.moduleLeads.findSome? fun lead => nameAfter? lead f) = some g := by
  rw [export?] at h
  split at h
  · next hf => exact ⟨hf, h⟩
  · cases h

theorem not_mem_fillAll_of_isOpen (hv : IsNamed v) (h : IsOpen f) : '\n' ∉ fillAll v f := by
  intro hmem
  rcases mem_fillAll hmem with hmem | ⟨s, hs, hmem⟩
  · exact h.2.1 hmem
  · have hpascal : s = .pascal := List.mem_singleton.1 (h.2.2 (List.mem_filterMap.2 ⟨_, hs, rfl⟩))
    rw [hpascal] at hmem
    exact absurd (hv.parts .pascal rfl _ hmem) (by decide)

def registration? (f : List Symbol) : Option (List Symbol × List Symbol) :=
  match List.splitOn (char '\'') f with
  | [lead, route, rest] =>
    let handler := (rest.drop 2).takeWhile isNamePart
    if lead ∈ Text.registerLeads.map ofText ∧ rest = ofText ", " ++ handler ++ ofText ");" then
      some (route, handler)
    else none
  | _ => none

def TellsRoute (f : List Symbol) : Prop :=
  (List.splitOn (char '\'') f).length = 3 → (registration? f).isSome = true

instance (f : List Symbol) : Decidable (TellsRoute f) := inferInstanceAs (Decidable (_ → _))

theorem registration?_fillAll (hv : IsNamed v) (hquote : ∀ s, slot s ∈ f → '\'' ∉ v s)
    (h : TellsRoute f) : Text.registration? (fillAll v f) =
      (registration? f).map fun x => ⟨fillAll v x.1, fillAll v x.2⟩ := by
  rw [TellsRoute, registration?] at h
  rw [Text.registration?, registration?, splitOn_fillAll hquote]
  generalize List.splitOn (char '\'') f = ps at h
  match ps, h with
  | [], _ | [_], _ | [_, _], _ | _ :: _ :: _ :: _ :: _, _ => rfl
  | [lead, route, rest], h =>
      simp only [List.length_cons, List.length_nil, Nat.zero_add, Nat.reduceAdd, forall_const] at h
      simp only [List.map_cons, List.map_nil]
      split at h
      · next hreads =>
          obtain ⟨hlead, hrest⟩ := hreads
          generalize hhandler : (rest.drop 2).takeWhile isNamePart = handler at hlead hrest
          have hparts : ∀ a ∈ handler, isNamePart a = true := fun a ha =>
            List.mem_takeWhile_imp (hhandler ▸ ha)
          have hfilled : fillAll v rest = ", ".toList ++ fillAll v handler ++ ");".toList := by
            rw [hrest, fillAll_append, fillAll_append, fillAll_ofText, fillAll_ofText]
          have hname : ((fillAll v rest).drop 2).takeWhile Text.isNamePart = fillAll v handler := by
            rw [hfilled]
            change (fillAll v handler ++ ");".toList).takeWhile Text.isNamePart = _
            rw [List.takeWhile_append_of_pos fun c hc => isNamePart_of_mem_fillAll hv hparts hc]
            exact List.append_nil _
          have hlead' : Text.registerLeads.contains (fillAll v lead) = true := by
            obtain ⟨t, ht, rfl⟩ := List.mem_map.1 hlead
            rw [fillAll_ofText]
            exact List.contains_iff_mem.2 ht
          rw [hname, if_pos ⟨hlead', hfilled⟩, if_pos ⟨hlead, hrest⟩]
          rfl
      · cases h

def namesAfter (lead : Text) (f : List Symbol) : List (List Symbol) :=
  f.tails.filterMap (nameAfter? lead)

def quotedAfter (lead : Text) (f : List Symbol) : List (List Symbol) :=
  f.tails.filterMap fun g =>
    if (ofText lead).isPrefixOf g then some ((g.drop lead.length).takeWhile (· ≠ char '\'')) else none

end Symbol

namespace Template

variable (t : Template)

def filledLines (v : Slot → Text) : List Text := t.lines.map fun line => Symbol.fillAll v line.symbols

def exports : List (List Symbol) := t.lines.filterMap fun line => Symbol.export? line.symbols

def registrations : List (List Symbol × List Symbol) :=
  t.lines.filterMap fun line => Symbol.registration? line.symbols

def calls : List (List Symbol) :=
  t.lines.flatMap fun line => Symbol.namesAfter "shardFor(c)." line.symbols

def fetches : List (List Symbol) :=
  t.lines.flatMap fun line => Symbol.quotedAfter "fetch('" line.symbols

variable {t} {v : Slot → Text} {b : Bindings}

theorem fillAll_symbols (line : Line) (b : Bindings) :
    Symbol.fillAll (fun s => (b s).getD []) line.symbols = line.flatMap (Piece.fill b) := by
  rw [Line.symbols, Symbol.fillAll, List.flatMap_assoc]
  congr 1
  funext p
  cases p with
  | text u => exact Symbol.fillAll_ofText u
  | slot s => exact List.append_nil _

theorem fill_eq_filledLines (t : Template) (b : Bindings) :
    t.fill b = Text.unlines (t.filledLines fun s => (b s).getD []) := by
  rw [fill_eq_unlines, filledLines]
  congr 2
  funext line
  exact (fillAll_symbols line b).symm

/-- What a template exports is exported by the text that comes of it. -/
theorem declared_of_exports {f : List Symbol} (hv : Symbol.IsNamed v) (hf : f ∈ t.exports) :
    Symbol.fillAll v f ∈ Text.declared Text.moduleLeads (Text.unlines (t.filledLines v)) := by
  obtain ⟨line, hline, hexport⟩ := List.mem_filterMap.1 hf
  obtain ⟨hopen, hname⟩ := Symbol.of_export? hexport
  have hmem : Symbol.fillAll v line.symbols ∈ t.filledLines v := List.mem_map.2 ⟨line, hline, rfl⟩
  refine List.mem_filterMap.2 ⟨_, Text.mem_splitOn_unlines hmem
    (Symbol.not_mem_fillAll_of_isOpen hv hopen), ?_⟩
  rw [Symbol.findSome?_fillAll hv hopen.1, hname, Option.map_some]

variable (t) in
def TellsRoutes : Prop :=
  ∀ line ∈ t.lines, Symbol.TellsRoute line.symbols ∧ .char '\n' ∉ line.symbols ∧
    Symbol.slots line.symbols ⊆ [.kebab, .pascal]

instance (t : Template) : Decidable t.TellsRoutes := inferInstanceAs (Decidable (∀ _ ∈ _, _))

theorem registrations_eq (hv : Symbol.IsNamed v)
    (hplain : ∀ s ∈ [Slot.kebab, .pascal], '\'' ∉ v s ∧ '\n' ∉ v s) (h : t.TellsRoutes) :
    Text.registrations (Text.unlines (t.filledLines v)) =
      t.registrations.map fun x => ⟨Symbol.fillAll v x.1, Symbol.fillAll v x.2⟩ := by
  have hslots : ∀ line ∈ t.lines, ∀ s, Symbol.slot s ∈ line.symbols → '\'' ∉ v s ∧ '\n' ∉ v s :=
    fun line hline s hs => hplain s ((h line hline).2.2 (List.mem_filterMap.2 ⟨_, hs, rfl⟩))
  have hlines : ∀ l ∈ t.filledLines v, '\n' ∉ l := by
    intro l hl hmem
    obtain ⟨line, hline, rfl⟩ := List.mem_map.1 hl
    rcases Symbol.mem_fillAll hmem with hmem | ⟨s, hs, hmem⟩
    · exact (h line hline).2.1 hmem
    · exact (hslots line hline s hs).2 hmem
  have hend : [([] : Text)].filterMap Text.registration? = [] := rfl
  rw [Text.registrations, Text.splitOn_unlines hlines, List.filterMap_append, hend, List.append_nil,
    filledLines, List.filterMap_map, registrations, List.map_filterMap]
  refine List.filterMap_congr fun line hline => ?_
  exact Symbol.registration?_fillAll hv (fun s hs => (hslots line hline s hs).1) (h line hline).1

end Template

end Scaffold
