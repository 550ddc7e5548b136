import Scaffold.Path.Basic

namespace Scaffold

inductive Contents where
  | text (t : Text)
  | binary (bytes : List UInt8)
deriving DecidableEq, Repr

def Contents.ofBytes (bytes : List UInt8) : Contents :=
  match String.fromUTF8? ⟨bytes.toArray⟩ with
  | some s => .text s.toList
  | none => .binary bytes

inductive Entry where
  | directory
  | file (c : Contents)
deriving DecidableEq, Repr

abbrev Location := List Text

inductive FileError where
  | notFound | busy | alreadyExists | notDirectory | isDirectory | nameTooLong | nulInPath | notText
deriving DecidableEq, Repr

def FileError.message : FileError → Text
  | notFound => "No such file or directory (os error 2)"
  | busy => "Device or resource busy (os error 16)"
  | alreadyExists => "File exists (os error 17)"
  | notDirectory => "Not a directory (os error 20)"
  | isDirectory => "Is a directory (os error 21)"
  | nameTooLong => "File name too long (os error 36)"
  | nulInPath => "file name contained an unexpected NUL byte"
  | notText => "stream did not contain valid UTF-8"

/-- A tree gives an entry to the locations that exist, each of which is the list of names that leads
to it from the root. Relative paths are followed from `home`. -/
structure Tree where
  home : Location
  entries : List (Location × Entry)
deriving DecidableEq, Repr

namespace Tree

def empty (home : Location) : Tree :=
  ⟨home, (List.range home.length).map fun n => (home.take (n + 1), .directory)⟩

variable (t : Tree)

def homePath : Path := ⟨"/" ++ List.intercalate "/" t.home⟩

def get? (l : Location) : Option Entry :=
  if l = [] then some .directory else (t.entries.find? fun e => e.1 == l).map Prod.snd

def put (l : Location) (e : Entry) : Tree :=
  { t with
    entries :=
      if t.entries.any fun old => old.1 == l then
        t.entries.map fun old => if old.1 = l then (l, e) else old
      else t.entries ++ [(l, e)] }

def erase (l : Location) : Tree :=
  { t with entries := t.entries.filter fun e => !l.isPrefixOf e.1 }

def maxName : Nat := 255

def maxPath : Nat := 4095

/-- The directory that segments lead to. Two dots lead back up, and the root is above itself. -/
def walk (t : Tree) : Location → List Text → Except FileError Location
  | l, [] => .ok l
  | l, s :: ss =>
    if s = ['.'] then walk t l ss
    else if s = ['.', '.'] then walk t l.dropLast ss
    else if maxName < Text.bytes s then .error .nameTooLong
    else
      match t.get? (l ++ [s]) with
      | none => .error .notFound
      | some (.file _) => .error .notDirectory
      | some .directory => walk t (l ++ [s]) ss

/-- Where a path leads in an existing directory. `named` tells that it ends in a name and not in
dots, and `slash` that a slash follows, so that only a directory will do. -/
structure Spot where
  location : Location
  named : Bool
  slash : Bool
deriving DecidableEq, Repr

/-- Follows a path up to its last segment, which need not exist. -/
def locate (p : Path) : Except FileError Spot :=
  if '\x00' ∈ p.text then .error .nulInPath
  else if p.text.isEmpty then .error .notFound
  else if maxPath < Text.bytes p.text then .error .nameTooLong
  else do
    let segments := (List.splitOn '/' p.text).filter (!·.isEmpty)
    let start := if p.isAbsolute then [] else t.home
    match segments.getLast? with
    | none => .ok ⟨[], false, true⟩
    | some last =>
      let above ← t.walk start segments.dropLast
      if last = ['.'] then .ok ⟨above, false, true⟩
      else if last = ['.', '.'] then .ok ⟨above.dropLast, false, true⟩
      else if maxName < Text.bytes last then .error .nameTooLong
      else .ok ⟨above ++ [last], true, p.text.getLast? == some '/'⟩

def stat (p : Path) : Except FileError Entry := do
  let s ← t.locate p
  match t.get? s.location with
  | none => .error .notFound
  | some (.file c) => if s.slash then .error .notDirectory else .ok (.file c)
  | some .directory => .ok .directory

def has (p : Path) : Bool := (t.stat p).toOption.isSome

def isFile (p : Path) : Bool :=
  match t.stat p with
  | .ok (.file _) => true
  | _ => false

def isDirectory (p : Path) : Bool :=
  match t.stat p with
  | .ok .directory => true
  | _ => false

def readText (p : Path) : Except FileError Text := do
  match ← t.stat p with
  | .directory => .error .isDirectory
  | .file (.binary _) => .error .notText
  | .file (.text contents) => .ok contents

def write (p : Path) (c : Contents) : Except FileError Tree := do
  let s ← t.locate p
  if !s.named || s.slash then .error .isDirectory
  else if t.get? s.location = some .directory then .error .isDirectory
  else .ok (t.put s.location (.file c))

def makeDirectory (p : Path) : Except FileError Tree := do
  let s ← t.locate p
  if !s.named || (t.get? s.location).isSome then .error .alreadyExists
  else .ok (t.put s.location .directory)

/-- Puts a file in place at once: it is written under another name in the same directory and then
renamed, so that the old contents stay if anything fails. -/
def replace (p : Path) (c : Contents) : Except FileError Tree := do
  let directory : Path := if p.directory.text.isEmpty then ⟨"."⟩ else p.directory
  match ← t.stat directory with
  | .file _ => .error .notDirectory
  | .directory =>
    let s ← t.locate p
    if !s.named then .error .busy
    else if s.slash then .error .notDirectory
    else if t.get? s.location = some .directory then .error .isDirectory
    else .ok (t.put s.location (.file c))

def remove (p : Path) : Tree :=
  match t.locate p with
  | .ok s => t.erase s.location
  | .error _ => t

end Tree

end Scaffold
