import Scaffold.Cli.Argument

namespace Scaffold.Cli

inductive UsageError where
  | unknownFlag (written : Text)
  | missingValue (f : Flag)
  | surplusValue (f : Flag) (value : Text)
  | badValue (f : Flag) (value : Text)
  | repeated (f : Flag)
  | missingFlag (f : Flag)
  | surplusArgument (t : Text)
  | missingName
  | unknownCommand (t : Text)
  | missingCommand
deriving DecidableEq, Repr

namespace UsageError

def message : UsageError → Text
  | unknownFlag t => "unknown option '" ++ t ++ "'"
  | missingValue f => "option '--" ++ f.long ++ "' needs a value"
  | surplusValue f value => "option '--" ++ f.long ++ "' takes no value, but has '" ++ value ++ "'"
  | badValue f value => "option '--" ++ f.long ++ "' cannot be '" ++ value ++ "'"
  | repeated f => "option '--" ++ f.long ++ "' is given twice"
  | missingFlag f => "option '--" ++ f.long ++ "' is missing"
  | surplusArgument t => "there is no use for '" ++ t ++ "'"
  | missingName => "a name is missing"
  | unknownCommand t => "unknown command '" ++ t ++ "'"
  | missingCommand => "a command is missing"

end UsageError

inductive Stop where
  | help
  | version
  | usage (e : UsageError)
deriving DecidableEq, Repr

structure Level where
  flags : List Flag
  given : List (Flag × Text)
  /-- The last flag, with its value once that is read. -/
  pending : Option (Flag × Option Text)
  name : Option Text
deriving DecidableEq, Repr

namespace Level

def start (flags : List Flag) : Level := ⟨flags, [], none, none⟩

variable (l : Level)

def value? (f : Flag) : Option Text := (l.given.find? fun g => g.1 = f).map Prod.snd

def has (f : Flag) : Bool := (l.value? f).isSome

def add (f : Flag) (value : Text) : Except Stop Level :=
  if l.has f then .error (.usage (.repeated f))
  else if !f.accepts value then .error (.usage (.badValue f value))
  else .ok { l with given := l.given ++ [(f, value)] }

def settle : Except Stop Level :=
  match l.pending with
  | none => .ok l
  | some (f, none) => .error (.usage (.missingValue f))
  | some (f, some value) => { l with pending := none }.add f value

def record (f : Flag) (value : Text) : Except Stop Level := do
  let l ← l.settle
  match f with
  | .help => .error .help
  | .version => .error .version
  | f => l.add f value

/-- Leaves the value of a flag to the next argument. Only when that is read is the flag recorded, so
that its fault is told then and not sooner. -/
def await (f : Flag) : Except Stop Level := do
  let l ← l.settle
  .ok { l with pending := some (f, none) }

def isAwaiting : Bool := l.pending.any fun p => p.2.isNone

def readLong (name : Text) (value : Option Text) : Except Stop Level :=
  match l.flags.find? fun f => f.long = name, value with
  | none, _ => .error (.usage (.unknownFlag ("--" ++ name)))
  | some f, value =>
    match f.takesValue, value with
    | true, some v => l.record f v
    | true, none => l.await f
    | false, some v => .error (.usage (.surplusValue f v))
    | false, none => l.record f []

/-- Reads letters up to one that takes a value, which is what follows it with or without an equals
sign, or else the next argument. -/
def readShort : Level → Text → Except Stop Level
  | l, [] => .ok l
  | l, c :: rest =>
    match l.flags.find? fun f => f.short? = some c with
    | none => .error (.usage (.unknownFlag ['-', c]))
    | some f =>
      if f.takesValue then
        match rest with
        | [] => l.await f
        | '=' :: v => l.record f v
        | v => l.record f v
      else do readShort (← l.record f []) rest

def readName (t : Text) : Except Stop Level := do
  let l ← l.settle
  if l.name.isNone then .ok { l with name := some t } else .error (.usage (.surplusArgument t))

def readPlain (t : Text) : Except Stop Level :=
  match l.pending with
  | some (f, none) => .ok { l with pending := some (f, some t) }
  | _ => l.readName t

def readNames : Level → List Text → Except Stop Level
  | l, [] => l.settle
  | l, t :: ts => do readNames (← l.readName t) ts

def read : Level → List Text → Except Stop Level
  | l, [] => l.settle
  | l, t :: ts =>
    match Argument.ofText t with
    | .separator => l.readNames ts
    | .long name value => do read (← l.readLong name value) ts
    | .short letters => do read (← l.readShort letters) ts
    | .plain t => do read (← l.readPlain t) ts

end Level

end Scaffold.Cli
