import Scaffold.Cli.Run

namespace Scaffold

def Location.along (l : Location) : List Text → List Location
  | [] => []
  | s :: ss =>
    if s = ['.'] ∨ s.isEmpty then along l ss
    else if s = ['.', '.'] then along l.dropLast ss
    else (l ++ [s]) :: along (l ++ [s]) ss

def Tree.along (t : Tree) (p : Path) : List Location :=
  Location.along (if p.isAbsolute then [] else t.home) (List.splitOn '/' p.text)

def Recipe.paths (r : Recipe) : List Path :=
  r.guards ++ r.files.map Emission.path ++ r.wires.map Wire.file

namespace Cli.Invocation

variable (i : Invocation) (t : Tree)

def settingsPath : Path := i.config.getD ((i.root.getD t.homePath).join Layout.fileName)

def paths : List Path :=
  match Name.parse i.name, i.layout t with
  | .ok n, .ok l =>
    match i.product.recipe l n with
    | .ok r => r.paths
    | .error _ => []
  | _, _ => []

end Cli.Invocation

end Scaffold
