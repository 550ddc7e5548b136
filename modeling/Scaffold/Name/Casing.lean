import Scaffold.Text.Search

namespace Scaffold

inductive NameError where
  | empty
  | blank (raw : Text)
  | shape (raw : Text)
  | doubleHyphen (raw : Text)
  | edgeHyphen (raw : Text)
  | reserved (raw : Text)
  | noSegments (raw : Text)
  | segment (raw segment : Text)
  | shadowsImport (raw pascal : Text)
deriving DecidableEq, Repr

def NameError.message : NameError → Text
  | empty => "name cannot be empty"
  | blank raw => "name '" ++ raw ++ "' cannot contain whitespace"
  | shape raw =>
    "name '" ++ raw ++ "' must start with a lowercase letter and contain only lowercase " ++
      "letters, digits and hyphens"
  | doubleHyphen raw => "name '" ++ raw ++ "' cannot contain consecutive hyphens"
  | edgeHyphen raw => "name '" ++ raw ++ "' cannot start or end with a hyphen"
  | reserved raw => "name '" ++ raw ++ "' is a reserved word"
  | noSegments raw => "name '" ++ raw ++ "' has no segments between its hyphens"
  | segment raw bad =>
    "segment '" ++ bad ++ "' of '" ++ raw ++ "' may only contain lowercase letters and digits"
  | shadowsImport raw pascal =>
    "name '" ++ raw ++ "' would generate '" ++ pascal ++
      "', which shadows an import in generated code"

namespace Casing

def isLowerOrDigit (c : Char) : Bool := c.isLower || c.isDigit

def segments (t : Text) : List Text := (List.splitOn '-' t).filter (!·.isEmpty)

def capitalize : Text → Text
  | [] => []
  | c :: t => c.toUpper :: t

/-- `user-profile` becomes `UserProfile`. Empty segments do not count, so that this and the other
forms are defined for every text. -/
def pascal (t : Text) : Text := (segments t).flatMap capitalize

def camel (t : Text) : Text :=
  match segments t with
  | [] => []
  | s :: ss => s ++ ss.flatMap capitalize

def snake (t : Text) : Text := t.map fun c => if c = '-' then '_' else c

def screaming (t : Text) : Text := t.map fun c => if c = '-' then '_' else c.toUpper

def title (t : Text) : Text := List.intercalate " " ((segments t).map capitalize)

def checkSegments (t : Text) : Except NameError Unit :=
  if segments t = [] then .error (.noSegments t)
  else
    match (segments t).find? (!·.all isLowerOrDigit) with
    | some bad => .error (.segment t bad)
    | none => .ok ()

def pascalCase (t : Text) : Except NameError Text := (checkSegments t).map fun _ => pascal t

def camelCase (t : Text) : Except NameError Text := (checkSegments t).map fun _ => camel t

end Casing

end Scaffold
