import Scaffold.Diff.Printed
import Scaffold.Recipe.Basic

namespace Scaffold.Cli

structure View where
  colour : Bool
  diff : Bool
  root : Path
deriving DecidableEq, Repr

namespace View

variable (v : View)

def paint (s : Style) (t : Text) : Text := s.paint v.colour t

def shown (p : Path) : Text := (p.below v.root).text

def signLine (s : Style) (sign t : Text) : Text := v.paint s sign ++ " " ++ t ++ "\n"

def changes (file : Path) (old new : Text) : Text :=
  if v.diff then
    "\n" ++ v.paint .dimmed ("--- " ++ v.shown file ++ " (original)") ++ "\n" ++
      v.paint .dimmed ("+++ " ++ v.shown file ++ " (patched)") ++ "\n" ++
      Diff.print v.colour old new ++ "\n"
  else []

def created (dry : Bool) (file : Path) : Text :=
  v.signLine .green "✓" ((if dry then "Would create " else "Created ") ++ v.shown file)

def outcome (dry : Bool) : Outcome → Text
  | .applied file old new warning =>
    v.signLine .green "✓" ((if dry then "Would patch " else "Patched ") ++ v.shown file) ++
      (match warning with
        | none => []
        | some w => "  " ++ v.signLine .yellow "⚠" w.message) ++
      v.changes file old new
  | .created file new => v.created dry file ++ v.changes file [] new
  | .alreadyApplied file => v.signLine .yellow "⊙" ("Already applied to " ++ v.shown file)
  | .skipped _ w _ => v.signLine .yellow "⚠" w.message

def sum (s : Style) (n : Nat) (what : Text) : Text :=
  "  " ++ v.paint s (Text.decimal n) ++ " " ++ what ++ "\n"

def sums (r : Report) : Text :=
  let isPresent : Outcome → Bool
    | .alreadyApplied _ => true
    | _ => false
  let isSkipped : Outcome → Bool
    | .skipped _ _ _ => true
    | _ => false
  "\n" ++ v.paint .bold "Summary:" ++ "\n" ++
    v.sum .green r.files.length "files created" ++
    v.sum .green (r.outcomes.countP Outcome.isChange) "patched" ++
    v.sum .yellow (r.outcomes.countP isPresent) "already applied" ++
    v.sum .cyan (r.outcomes.countP isSkipped) "need manual changes"

def detail (line : Text) : Text := "       " ++ v.paint .dimmed line ++ "\n"

def step (number : Nat) (t : Text) : Text :=
  match Text.lines t with
  | [] => []
  | first :: more =>
    "  " ++ Text.decimal number ++ ". " ++ first ++ "\n" ++ more.flatMap v.detail

def steps (ts : List Text) : Text :=
  if ts.isEmpty then []
  else
    "\n" ++ v.paint .bold "Next steps:" ++ "\n" ++
      (ts.zipIdx 1).flatMap fun s => v.step s.2 s.1

def report (r : Report) : Text :=
  r.files.flatMap (fun e => v.created r.dryRun e.path) ++
    r.outcomes.flatMap (v.outcome r.dryRun) ++ v.sums r ++ v.steps r.nextSteps

end View

end Scaffold.Cli
