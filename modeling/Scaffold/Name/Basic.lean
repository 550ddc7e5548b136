import Scaffold.Name.Casing
import Scaffold.Text.Blank

namespace Scaffold

def reservedWords : List Text :=
  List.flatMap (List.splitOn ' ') [
    "abstract any api app arguments as async await boolean break case catch class const",
    "constructor continue debugger declare default delete do else enum eval export extends",
    "false finally for from function get if implements import in index instanceof interface let",
    "module namespace never new null number object of package private protected prototype",
    "public readonly require return set static string super switch symbol this throw true try",
    "type typeof undefined unknown var void while with yield"]

def importedNames : List Text := ["Context", "DurableObject", "Hono"]

namespace Name

def isShaped : Text → Bool
  | [] => false
  | c :: t => c.isLower && t.all fun c => Casing.isLowerOrDigit c || c == '-'

def check (raw : Text) : Except NameError Unit :=
  if raw.isEmpty then .error .empty
  else if raw.any isBlank then .error (.blank raw)
  else if !isShaped raw then .error (.shape raw)
  else if Text.contains "--" raw then .error (.doubleHyphen raw)
  else if raw.head? == some '-' || raw.getLast? == some '-' then .error (.edgeHyphen raw)
  else if raw ∈ reservedWords then .error (.reserved raw)
  else do
    let pascal ← Casing.pascalCase raw
    let _ ← Casing.camelCase raw
    if pascal ∈ importedNames then .error (.shadowsImport raw pascal) else .ok ()

end Name

structure Name where
  kebab : Text
  accepted : Name.check kebab = .ok ()
deriving DecidableEq

namespace Name

def parse (raw : Text) : Except NameError Name :=
  match h : check raw with
  | .error e => .error e
  | .ok () => .ok ⟨raw, h⟩

variable (n : Name)

def pascal : Text := Casing.pascal n.kebab

def camel : Text := Casing.camel n.kebab

def screaming : Text := Casing.screaming n.kebab

def snake : Text := Casing.snake n.kebab

def title : Text := Casing.title n.kebab

end Name

end Scaffold
