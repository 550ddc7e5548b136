import Scaffold.Cli.Level
import Scaffold.Project.Layout
import Scaffold.Recipe.Product

namespace Scaffold.Cli

structure Invocation where
  product : Product
  name : Text
  root : Option Path
  config : Option Path
  overrides : Overrides
  dryRun : Bool
  diff : Bool
deriving DecidableEq, Repr

namespace Invocation

def productOf (c : Command) (l : Level) : Except Stop Product :=
  match c with
  | .table => .ok .table
  | .webhook => .ok .webhook
  | .page =>
    match (l.value? .kind).bind PageKind.ofLabel? with
    | some k => .ok (.page k)
    | none => .error (.usage (.missingFlag .kind))

def ofLevels (c : Command) (before after : Level) : Except Stop Invocation := do
  let path (f : Flag) : Option Path := ((after.value? f).or (before.value? f)).map Path.mk
  let has (f : Flag) : Bool := before.has f || after.has f
  match after.name with
  | none => .error (.usage .missingName)
  | some name =>
    return {
      product := ← productOf c after
      name
      root := path .root
      config := path .config
      overrides := ⟨path .routes, path .schemas, path .shard⟩
      dryRun := has .dryRun
      diff := has .diff }

def helpOn : List Text → Stop
  | [] => .help
  | [t] => if t = "help".toList || (Command.ofLabel? t).isSome then .help
    else .usage (.unknownCommand t)
  | _ :: t :: _ => .usage (.unknownCommand t)

/-- Reads the arguments up to the command, and leaves what follows to the level of the command. The
fault of a flag that stands right before the command is told last. -/
def read : Level → List Text → Except Stop Invocation
  | l, [] => do
    let _ ← l.settle
    .error (.usage .missingCommand)
  | l, t :: ts =>
    match Argument.ofText t with
    | .separator => .error (.usage .missingCommand)
    | .long name value => do read (← l.readLong name value) ts
    | .short letters => do read (← l.readShort letters) ts
    | .plain t =>
      if l.isAwaiting then do read (← l.readPlain t) ts
      else if t = "help".toList then .error (helpOn ts)
      else
        match Command.ofLabel? t with
        | none => .error (.usage (.unknownCommand t))
        | some c => do
          let after ← (Level.start c.flags).read ts
          let before ← l.settle
          ofLevels c before after

def ofArguments (ts : List Text) : Except Stop Invocation :=
  read (.start (Flag.common ++ [.version])) ts

end Invocation

end Scaffold.Cli
