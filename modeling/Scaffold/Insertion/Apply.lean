import Scaffold.Insertion.Plan
import Scaffold.Tree.Disk

namespace Scaffold

inductive Warning where
  | missingFile (kind : FileKind) (file : Path)
  | noAnchor (anchor : Anchor) (file : Path)
  | appended (anchor : Anchor) (file : Path)
deriving DecidableEq, Repr

def Warning.message : Warning → Text
  | missingFile kind file => kind.label ++ " not found at " ++ file.text ++ "; skipped"
  | noAnchor anchor file =>
    "no " ++ anchor.label ++ " found in " ++ file.text ++ "; left untouched"
  | appended anchor file =>
    "no " ++ anchor.label ++ " found in " ++ file.text ++ "; appended at end of file"

inductive PatchError where
  | io (path : Path) (cause : FileError)
  | edit (path : Path) (cause : EditError)
  | write (path : Path) (cause : FileError)
deriving DecidableEq, Repr

namespace PatchError

def writeFailure (cause : FileError) : Text := "file I/O error: " ++ cause.message

def message : PatchError → Text
  | io path cause => "I/O error on " ++ path.text ++ ": " ++ cause.message
  | edit path cause => "failed to patch " ++ path.text ++ ": " ++ cause.message
  | write path cause => "failed to patch " ++ path.text ++ ": " ++ writeFailure cause

def causes : PatchError → List Text
  | io _ cause => [cause.message]
  | edit _ cause => [cause.message]
  | write _ cause => [writeFailure cause, cause.message]

end PatchError

inductive Outcome where
  | applied (file : Path) (before after : Text) (warning : Option Warning)
  | created (file : Path) (after : Text)
  | alreadyApplied (file : Path)
  | skipped (file : Path) (warning : Warning) (fragment : Text)
deriving DecidableEq, Repr

namespace Outcome

def file : Outcome → Path
  | applied file _ _ _ | created file _ | alreadyApplied file | skipped file _ _ => file

def warning? : Outcome → Option Warning
  | applied _ _ _ w => w
  | skipped _ w _ => some w
  | _ => none

def isChange : Outcome → Bool
  | applied _ _ _ _ | created _ _ => true
  | _ => false

def message : Outcome → Text
  | applied file _ _ _ => "Patched " ++ file.text
  | created file _ => "Created " ++ file.text
  | alreadyApplied file => "Already applied to " ++ file.text
  | skipped _ w _ => "Skipped: " ++ w.message

def write : Outcome → Disk PatchError Unit
  | applied file _ after _ => Disk.change fun t =>
    (t.replace file (.text after)).mapError (PatchError.write file)
  | created file after => do
    EStateM.adaptExcept (PatchError.io file.directory) (Disk.makeRoom file)
    Disk.change fun t => (t.replace file (.text after)).mapError (PatchError.write file)
  | _ => pure ()

end Outcome

namespace Insertion

variable (i : Insertion) (file : Path)

def outcomeFor (t : Text) (creates : Bool) : Except PatchError Outcome :=
  match i.plan t with
  | .present _ => .ok (.alreadyApplied file)
  | .unanchored anchor => .ok (.skipped file (.noAnchor anchor file) i.fragment)
  | .edits edits _ missed =>
    match splice t edits with
    | .error e => .error (.edit file e)
    | .ok after =>
      .ok (if creates then .created file after
        else .applied file t after (missed.map fun a => .appended a file))

/-- What comes of the insertion, by what a look at the file gives. A file without a place for it is
left alone and told as a warning, never as an error. -/
def outcome : Except FileError Text → Except PatchError Outcome
  | .ok t => i.outcomeFor file t false
  | .error .notFound =>
    match i.kind.whenMissing with
    | .leave => .ok (.skipped file (.missingFile i.kind file) i.fragment)
    | .create opening => i.outcomeFor file opening true
  | .error e => .error (.io file e)

def apply (dry : Bool) : Disk PatchError Outcome := do
  let o ← Disk.look fun t => i.outcome file (t.readText file)
  unless dry do o.write
  return o

end Insertion

end Scaffold
