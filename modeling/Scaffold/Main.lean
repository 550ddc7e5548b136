import Scaffold.Cli.Reach

namespace Scaffold.Program

def nameOf (l : Location) : String := String.ofList ("/" ++ List.intercalate "/" l)

def entryAt (l : Location) : IO (Option Entry) := do
  let found ← (some <$> IO.FS.realPath (nameOf l)).catchExceptions fun _ => pure none
  match found with
  | none => return none
  | some p =>
    if ← p.isDir then return some .directory
    else return some (.file (.ofBytes (← IO.FS.readBinFile p).toList))

def fetch (t : Tree) (p : Path) : IO Tree :=
  (t.along p).foldlM (fun t l => do
    if (t.get? l).isSome then return t
    else
      match ← entryAt l with
      | none => return t
      | some e => return t.put l e) t

/-- Puts a file in place at once, by way of another name. -/
def putFile (name : String) (c : Contents) : IO Unit := do
  let other := name ++ ".part"
  match c with
  | .text t => IO.FS.writeFile other (String.ofList t)
  | .binary bytes => IO.FS.writeBinFile other ⟨bytes.toArray⟩
  IO.FS.rename other name

def store (before after : Tree) : IO Unit :=
  after.entries.forM fun (l, e) => do
    unless before.get? l == some e do
      match e with
      | .directory => IO.FS.createDirAll (nameOf l)
      | .file c => putFile (nameOf l) c

def wantsColour : IO Bool := do
  let forced ← IO.getEnv "CLICOLOR_FORCE"
  let forbidden ← IO.getEnv "NO_COLOR"
  let allowed ← IO.getEnv "CLICOLOR"
  if forced.any (· != "0") then return true
  else if forbidden.isSome || allowed == some "0" then return false
  else (← IO.getStdout).isTty

def home : IO Location := do
  return (List.splitOn '/' (← IO.currentDir).toString).filter (!·.isEmpty)

end Scaffold.Program

open Scaffold in
/-- What a run can reach of the disk is read into a tree, the run is worked out on the tree, and
what it changed there is written back to the disk. -/
def main (arguments : List String) : IO UInt32 := do
  let arguments := arguments.map String.toList
  let mut before := Tree.empty (← Program.home)
  if let .ok i := Cli.Invocation.ofArguments arguments then
    before ← Program.fetch before (i.settingsPath before)
    before ← (i.paths before).foldlM Program.fetch before
  let (r, after) := Cli.run (← Program.wantsColour) arguments before
  Program.store before after
  IO.print (String.ofList r.output)
  IO.eprint (String.ofList r.errors)
  return r.status.toUInt32
