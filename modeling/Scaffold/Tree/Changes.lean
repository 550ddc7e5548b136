import Scaffold.Tree.Basic

namespace Scaffold.Tree

def isEmptyDirectory (t : Tree) (l : Location) : Bool :=
  t.get? l == some .directory && !t.entries.any fun e => e.1 != l && l.isPrefixOf e.1

/-- Files and empty directories below the working directory. The name of a directory ends in a
slash. -/
def listing (t : Tree) : List (Text × Contents) :=
  t.entries.filterMap fun (l, e) =>
    if !t.home.isPrefixOf l || l == t.home then none
    else
      let name := List.intercalate "/" (l.drop t.home.length)
      match e with
      | .file c => some (name, c)
      | .directory => if t.isEmptyDirectory l then some (name ++ "/", .text []) else none

def changes (before after : Tree) : List (Text × Option Contents) :=
  let old := before.listing
  let new := after.listing
  (new.filter fun e => !old.contains e).map (fun (n, c) => (n, some c)) ++
    (old.filter fun e => !new.any fun f => f.1 == e.1).map fun (n, _) => (n, none)

end Scaffold.Tree
