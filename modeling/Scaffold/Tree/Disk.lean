import Scaffold.Tree.Basic

namespace Scaffold

/-- An action on a tree. One that fails leaves the tree as far as it got. -/
abbrev Disk (ε α : Type) := EStateM ε Tree α

namespace Disk

variable {ε α : Type}

def look (f : Tree → Except ε α) : Disk ε α := fun t =>
  match f t with
  | .ok a => .ok a t
  | .error e => .error e t

/-- A change of the tree that happens as a whole or not at all. -/
def change (f : Tree → Except ε Tree) : Disk ε Unit := fun t =>
  match f t with
  | .ok t => .ok () t
  | .error e => .error e t

/-- Makes a directory and first those above it that are missing; `n` bounds how many there are. -/
def makeDirectoriesUpTo : Nat → Path → Disk FileError Unit
  | 0, _ => throw .notFound
  | n + 1, p => fun t =>
    if p.text.isEmpty then .ok () t
    else
      match t.makeDirectory p with
      | .ok t => .ok () t
      | .error .notFound =>
        match p.parent? with
        | none => .error .notFound t
        | some above =>
          match makeDirectoriesUpTo n above t with
          | .error e t => .error e t
          | .ok () t =>
            match t.makeDirectory p with
            | .ok t => .ok () t
            | .error e => if t.isDirectory p then .ok () t else .error e t
      | .error e => if t.isDirectory p then .ok () t else .error e t

def makeDirectories (p : Path) : Disk FileError Unit := makeDirectoriesUpTo (p.text.length + 1) p

def makeRoom (p : Path) : Disk FileError Unit := makeDirectories p.directory

end Disk

end Scaffold
