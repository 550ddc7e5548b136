import Scaffold.Diff.Script

namespace Scaffold.Diff

variable {α : Type} [DecidableEq α]

/-- An insertion that slides over the kept items which come next to it: while its first item is the
next kept one, that item goes to its end. Also tells how many items were passed. -/
def slide : List α → List α → List α × Nat
  | i :: is, k :: kept =>
    if i = k then
      let (inserted, n) := slide (is ++ [i]) kept
      (inserted, n + 1)
    else (i :: is, 0)
  | inserted, _ => (inserted, 0)

/-- A place in a script: a run, what stands before it with the nearest run first, and what stands
after it. -/
structure Focus (α : Type) where
  before : List (Run α)
  run : Run α
  after : List (Run α)

def Run.reverse (r : Run α) : Run α := { r with items := r.items.reverse }

def keepNearest (items : List α) : List (Run α) → List (Run α)
  | ⟨.kept, more⟩ :: before => ⟨.kept, more ++ items⟩ :: before
  | before => Script.only .kept items ++ before

namespace Focus

def flip (f : Focus α) : Focus α :=
  ⟨f.after.map Run.reverse, f.run.reverse, f.before.map Run.reverse⟩

/-- A run goes down as far as it can. Kept items that an insertion passes join those before it, a
run with its mark joins it, and other changes are passed. Kept items stop a deletion. -/
def sink : List (Run α) → Run α → List (Run α) → Focus α
  | before, run, [] => ⟨before, run, []⟩
  | before, run, next :: after =>
    match next.mark, run.mark with
    | .kept, .inserted =>
      let (items, n) := slide run.items next.items
      let before := keepNearest (next.items.take n) before
      let run := ⟨.inserted, items⟩
      if n = next.items.length then sink before run after
      else ⟨before, run, ⟨.kept, next.items.drop n⟩ :: after⟩
    | .kept, _ => ⟨before, run, next :: after⟩
    | _, _ =>
      if next.mark = run.mark then sink before ⟨run.mark, run.items ++ next.items⟩ after
      else sink (next :: before) run after

def settle (f : Focus α) : Focus α :=
  let m := f.flip
  let up := (sink m.before m.run m.after).flip
  sink up.before up.run up.after

end Focus

namespace Script

def settleFrom (mark : Mark) : Nat → List (Run α) → Script α → Script α
  | 0, done, s => done.reverse ++ s
  | n + 1, done, s =>
    let skipped := s.takeWhile fun r => r.mark ≠ mark
    match s.dropWhile fun r => r.mark ≠ mark with
    | [] => done.reverse ++ s
    | run :: after =>
      let f := Focus.settle ⟨skipped.reverse ++ done, run, after⟩
      settleFrom mark n (f.run :: f.before) f.after

def settleAll (mark : Mark) (s : Script α) : Script α :=
  settleFrom mark (s.countP fun r => r.mark = mark) [] s

def settled (s : Script α) : Script α := (s.settleAll .deleted).settleAll .inserted

end Script

end Scaffold.Diff
