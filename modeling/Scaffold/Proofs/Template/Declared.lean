import Scaffold.Proofs.Template.Symbols

namespace Scaffold

namespace Text

def isNamePart (c : Char) : Bool := c.isAlphanum || c == '_' || c == '$' || c == '#'

def nameAfter? (lead line : Text) : Option Text :=
  let name := (line.drop lead.length).takeWhile isNamePart
  if lead.isPrefixOf line && !name.isEmpty then some name else none

def declared (leads : List Text) (t : Text) : List Text :=
  (List.splitOn '\n' t).filterMap fun line => leads.findSome? fun lead => nameAfter? lead line

def exportLeads : List Text := ["export const ", "export type "]

def memberLeads : List Text := ["  async ", "  static readonly ", "  "]

def tableLeads : List Text := ["      `CREATE TABLE IF NOT EXISTS "]

end Text

def Slot.isNaming : Slot → Bool
  | pascal | snake | screaming => true
  | _ => false

namespace Symbol

variable {v : Slot → Text} {f line : List Symbol} {lead : Text} {leads : List Text}

def isNamePart : Symbol → Bool
  | char c => Text.isNamePart c
  | slot s => s.isNaming

def isSlot : Symbol → Bool
  | char _ => false
  | slot _ => true

def nameAfter? (lead : Text) (line : List Symbol) : Option (List Symbol) :=
  let name := (line.drop lead.length).takeWhile isNamePart
  if (ofText lead).isPrefixOf line && !name.isEmpty then some name else none

def declared (leads : List Text) (f : List Symbol) : List (List Symbol) :=
  (List.splitOn (char '\n') f).filterMap fun line =>
    leads.findSome? fun lead => nameAfter? lead line

/-- The symbols tell whether the lead is there, and then where the name ends. -/
def isLegible (lead : Text) (line : List Symbol) : Bool :=
  strays (ofText lead) line || (ofText lead).isPrefixOf line &&
    !((line.drop lead.length).dropWhile isNamePart).head?.any isSlot

structure IsNamed (v : Slot → Text) : Prop where
  nonempty : ∀ s, s.isNaming = true → v s ≠ []
  parts : ∀ s, s.isNaming = true → ∀ c ∈ v s, Text.isNamePart c = true

theorem takeWhile_fillAll (hv : IsNamed v)
    (h : (f.dropWhile isNamePart).head?.any isSlot = false) :
    (fillAll v f).takeWhile Text.isNamePart = fillAll v (f.takeWhile isNamePart) := by
  induction f with
  | nil => rfl
  | cons a f ih =>
      by_cases ha : isNamePart a = true
      · rw [List.dropWhile_cons_of_pos ha] at h
        rw [List.takeWhile_cons_of_pos ha]
        cases a with
        | char c =>
            have hc : Text.isNamePart c = true := ha
            rw [fillAll_char, List.takeWhile_cons_of_pos hc, ih h, fillAll_char]
        | slot s =>
            rw [fillAll_slot, List.takeWhile_append_of_pos (hv.parts s ha), ih h, fillAll_slot]
      · rw [List.dropWhile_cons_of_neg ha] at h
        rw [List.takeWhile_cons_of_neg ha]
        cases a with
        | char c =>
            have hc : ¬Text.isNamePart c = true := ha
            rw [fillAll_char, List.takeWhile_cons_of_neg hc, fillAll_nil]
        | slot s => cases h

theorem fillAll_eq_nil_iff (hv : IsNamed v) (h : ∀ a ∈ f, isNamePart a = true) :
    fillAll v f = [] ↔ f = [] := by
  cases f with
  | nil => simp
  | cons a f =>
      refine iff_of_false ?_ (List.cons_ne_nil a f)
      cases a with
      | char c => exact List.cons_ne_nil _ _
      | slot s => exact List.append_ne_nil_of_left_ne_nil (hv.nonempty s (h _ List.mem_cons_self)) _

theorem nameAfter?_fillAll (hv : IsNamed v) (h : isLegible lead line = true) :
    Text.nameAfter? lead (fillAll v line) = (nameAfter? lead line).map (fillAll v) := by
  have hlead : fillAll v (ofText lead) = lead := fillAll_ofText lead
  rw [isLegible, Bool.or_eq_true, Bool.and_eq_true] at h
  rcases h with h | ⟨hbegins, hend⟩
  · have hstray : ¬lead.isPrefixOf (fillAll v line) = true := by
      rw [List.isPrefixOf_iff_prefix, ← hlead]
      exact not_isPrefix_of_strays h
    have hstray' : ¬(ofText lead).isPrefixOf line = true := by
      rw [List.isPrefixOf_iff_prefix]
      rintro ⟨rest, rfl⟩
      rw [fillAll_append, hlead, List.isPrefixOf_iff_prefix] at hstray
      exact hstray (List.prefix_append _ _)
    simp [Text.nameAfter?, nameAfter?, hstray, hstray']
  · obtain ⟨rest, rfl⟩ := List.isPrefixOf_iff_prefix.1 hbegins
    have hdrop : (ofText lead ++ rest).drop lead.length = rest :=
      List.drop_left' (List.length_map _)
    rw [hdrop, Bool.not_eq_true'] at hend
    have hname := takeWhile_fillAll hv hend
    have hempty := fillAll_eq_nil_iff hv fun a (ha : a ∈ rest.takeWhile isNamePart) =>
      List.mem_takeWhile_imp ha
    have hthere : lead.isPrefixOf (lead ++ fillAll v rest) = true :=
      List.isPrefixOf_iff_prefix.2 (List.prefix_append _ _)
    rw [Text.nameAfter?, nameAfter?, fillAll_append, hlead, hdrop, List.drop_left, hname, hthere,
      hbegins]
    by_cases hnil : rest.takeWhile isNamePart = []
    · simp [hnil]
    · have hfilled := mt hempty.1 hnil
      simp [hnil, hfilled]

theorem findSome?_fillAll (hv : IsNamed v) (h : leads.all (isLegible · line) = true) :
    (leads.findSome? fun lead => Text.nameAfter? lead (fillAll v line)) =
      (leads.findSome? fun lead => nameAfter? lead line).map (fillAll v) := by
  induction leads with
  | nil => rfl
  | cons lead leads ih =>
      rw [List.all_cons, Bool.and_eq_true] at h
      rw [List.findSome?_cons, List.findSome?_cons, nameAfter?_fillAll hv h.1, ih h.2]
      cases nameAfter? lead line with
      | none => rfl
      | some name => rfl

theorem declared_fillAll (hv : IsNamed v) (hlines : ∀ s, slot s ∈ f → '\n' ∉ v s)
    (h : (List.splitOn (char '\n') f).all (fun line => leads.all (isLegible · line)) = true) :
    Text.declared leads (fillAll v f) = (declared leads f).map (fillAll v) := by
  rw [Text.declared, declared, splitOn_fillAll hlines]
  generalize List.splitOn (char '\n') f = lines at h
  induction lines with
  | nil => rfl
  | cons line lines ih =>
      rw [List.all_cons, Bool.and_eq_true] at h
      rw [List.map_cons, List.filterMap_cons, List.filterMap_cons, findSome?_fillAll hv h.1, ih h.2]
      cases leads.findSome? fun lead => nameAfter? lead line with
      | none => rfl
      | some name => rfl

end Symbol

namespace Template

variable (t : Template) (leads : List Text)

def IsLegible : Prop :=
  (List.splitOn (Symbol.char '\n') t.symbols).all
    (fun line => leads.all (Symbol.isLegible · line)) = true

instance : Decidable (t.IsLegible leads) := inferInstanceAs (Decidable (_ = true))

def declared : List (List Symbol) := Symbol.declared leads t.symbols

end Template

end Scaffold
