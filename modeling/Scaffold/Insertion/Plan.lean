import Scaffold.Edit.Basic
import Scaffold.Import.Plan
import Scaffold.Insertion.Basic
import Scaffold.Insertion.Mapping

namespace Scaffold

inductive Plan where
  | present (reason : Text)
  | unanchored (anchor : Anchor)
  | edits (edits : List Edit) (anchor : Anchor) (missed : Option Anchor)
deriving DecidableEq, Repr

namespace Insertion

variable (i : Insertion)

def place? (t : Text) : Option (Anchor × Cut) :=
  let located (a : Anchor) := (a.locate t).map fun k => (a, k)
  (i.kind.anchors.findSome? located).or (i.kind.fallback?.bind located)

def appended (t : Text) : Text :=
  let lead : Text :=
    if t.isEmpty || List.isSuffixOf "\n\n".toList t then "" else if Text.endsLine t then "\n"
    else "\n\n"
  lead ++ i.block

def fragmentEdits (k : Cut) : List Edit :=
  match i.kind with
  | .bundle => Mapping.edits k i.fragment
  | .shard => [.insert k.before ("\n" ++ i.block)]
  | _ =>
    if k.after.isEmpty then [.insert k.before (i.appended k.before)]
    else [.insert k.before (i.block ++ "\n")]

def presentReason : Text :=
  i.kind.label ++ " already contains " ++ (i.markers.head?.getD "fragment")

def plan (t : Text) : Plan :=
  if i.isPresent t then .present i.presentReason
  else
    match i.place? t with
    | none => .unanchored i.kind.mainAnchor
    | some (anchor, k) =>
      let missed := if anchor ∈ i.kind.anchors then none else some i.kind.mainAnchor
      .edits (i.imports.filterMap (·.plan? t) ++ i.fragmentEdits k) anchor missed

end Insertion

end Scaffold
