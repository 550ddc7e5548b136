import Scaffold.Diff.Compare
import Scaffold.Diff.Slide

namespace Scaffold.Diff

variable {α : Type}

inductive Part (α : Type) where
  | same (items : List α)
  | change (old new : List α)
deriving DecidableEq, Repr

namespace Part

def isSame : Part α → Bool
  | same _ => true
  | change _ _ => false

def addRun (r : Run α) (parts : List (Part α)) : List (Part α) :=
  match r.mark, parts with
  | .kept, same items :: rest => same (r.items ++ items) :: rest
  | .kept, parts => same r.items :: parts
  | .deleted, change old new :: rest => change (r.items ++ old) new :: rest
  | .deleted, parts => change r.items [] :: parts
  | .inserted, change old new :: rest => change old (r.items ++ new) :: rest
  | .inserted, parts => change [] r.items :: parts

def ofScript (s : Script α) : List (Part α) := s.foldr addRun []

def trimFirst (n : Nat) : List (Part α) → List (Part α)
  | same items :: rest => same (items.drop (items.length - n)) :: rest
  | parts => parts

def trimLast (n : Nat) : List (Part α) → List (Part α)
  | [] => []
  | [same items] => [same (items.take n)]
  | p :: ps => p :: trimLast n ps

end Part

abbrev Hunk (α : Type) := List (Part α)

namespace Hunk

/-- Cuts parts into hunks where more than twice `n` items are kept; `hunk` has begun already. -/
def split (n : Nat) (hunk : Hunk α) : List (Part α) → List (Hunk α)
  | [] => if hunk.all Part.isSame then [] else [hunk]
  | .same items :: rest =>
    if 2 * n < items.length then
      (hunk ++ [.same (items.take n)]) :: split n [.same (items.drop (items.length - n))] rest
    else split n (hunk ++ [.same items]) rest
  | p :: rest => split n (hunk ++ [p]) rest

def ofParts (n : Nat) (parts : List (Part α)) : List (Hunk α) :=
  split n [] (Part.trimLast n (Part.trimFirst n parts))

end Hunk

def hunks [DecidableEq α] (n : Nat) (old new : List α) : List (Hunk α) :=
  Hunk.ofParts n (Part.ofScript (compare old new).settled)

end Scaffold.Diff
