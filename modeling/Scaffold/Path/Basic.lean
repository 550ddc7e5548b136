import Scaffold.Text.Search

namespace Scaffold

/-- A path as it was typed. Slashes separate segments; a segment that is empty or a single dot names
nothing, save a dot with which a path begins. -/
structure Path where
  text : Text
deriving DecidableEq, Repr

inductive Component where
  | root | here | up
  | name (n : Text)
deriving DecidableEq, Repr

namespace Component

def text : Component → Text
  | root => "/"
  | here => "."
  | up => ".."
  | name n => n

def ofSegment? (segment : Text) : Option Component :=
  if segment = [] ∨ segment = ['.'] then none
  else if segment = ['.', '.'] then some up
  else some (name segment)

end Component

namespace Path

variable (p : Path)

def isAbsolute : Bool := p.text.head? == some '/'

/-- The slash or the dot with which a path begins, where it is a component of its own. -/
def opening : Text :=
  if p.isAbsolute then "/"
  else if (List.splitOn '/' p.text).head? = some ['.'] then "."
  else []

def segments : List Text := List.splitOn '/' (p.text.drop p.opening.length)

def components : List Component :=
  (if p.isAbsolute then [.root] else if p.opening.isEmpty then [] else [.here]) ++
    p.segments.filterMap Component.ofSegment?

def isVoid (segment : Text) : Bool := (Component.ofSegment? segment).isNone

def dropVoidEnd (segments : List Text) : List Text := (segments.reverse.dropWhile isVoid).reverse

def parent? : Option Path :=
  match (dropVoidEnd p.segments).reverse with
  | [] => if p.opening = ['.'] then some ⟨[]⟩ else none
  | _ :: before => some ⟨p.opening ++ List.intercalate "/" (dropVoidEnd before.reverse)⟩

def directory : Path := p.parent?.getD ⟨[]⟩

def join (p q : Path) : Path :=
  if q.isAbsolute then q
  else if p.text.isEmpty ∨ p.text.getLast? = some '/' then ⟨p.text ++ q.text⟩
  else ⟨p.text ++ "/" ++ q.text⟩

/-- The two sides of the last dot of a file name, unless the name begins with that dot. -/
def splitExtension? (name : Text) : Option (Text × Text) :=
  let extension := (name.reverse.takeWhile (· != '.')).reverse
  let stem := name.take (name.length - extension.length - 1)
  if stem.isEmpty then none else some (stem, extension)

def fileName? : Option Text :=
  match (dropVoidEnd p.segments).getLast? with
  | none => none
  | some last => if last = ['.', '.'] then none else some last

def upToStem : Path :=
  match p.fileName? with
  | none => p
  | some name =>
    let stem := ((splitExtension? name).map Prod.fst).getD name
    ⟨p.opening ++ List.intercalate "/" ((dropVoidEnd p.segments).dropLast ++ [stem])⟩

/-- The path without the extension of its file name. The extension goes before the dot does, so
that a name which is all dots without it leads to a directory and keeps them. -/
def dropExtension : Path :=
  match p.fileName?.bind splitExtension? with
  | none => p.upToStem
  | some (_, extension) =>
    upToStem ⟨Text.takeBytes (Text.bytes p.text - Text.bytes extension) p.text⟩

def afterComponents : Nat → List Text → List Text
  | _, [] => []
  | n, s :: ss =>
    if isVoid s then afterComponents n ss
    else match n with
      | 0 => s :: ss
      | n + 1 => afterComponents n ss

def below (root : Path) : Path :=
  let n := root.components.length
  if !root.components.isPrefixOf p.components then p
  else if n = 0 then ⟨p.opening ++ List.intercalate "/" (dropVoidEnd p.segments)⟩
  else
    let n := if p.opening.isEmpty then n else n - 1
    ⟨List.intercalate "/" (dropVoidEnd (afterComponents n p.segments))⟩

end Path

end Scaffold
