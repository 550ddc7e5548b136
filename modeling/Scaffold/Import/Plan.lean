import Scaffold.Anchor.Basic
import Scaffold.Edit.Basic
import Scaffold.Import.Statement

namespace Scaffold.ImportRequest

variable (r : ImportRequest)

/-- Whether the names may join a statement: values cannot join an import of types. -/
def mayJoin (f : Import.Found) : Bool := r.typeOnly || !f.isType

def missing (entries : List Text) : List Text :=
  r.names.filter fun name => !entries.any fun e => Import.binding e == name

def entry (f : Import.Found) (name : Text) : Text :=
  if r.typeOnly && !f.isType then "type " ++ name else name

def join? (t : Text) (f : Import.Found) : Option Edit :=
  let old := Import.entries f.list
  let new := (r.missing old).map (r.entry f)
  if new.isEmpty then none
  else some (.replace (Cut.ofRest t f.tail).before f.list (Import.renderList f.list (old ++ new)))

def quoteStyle (t : Text) : Char :=
  ((Anchor.locate t .firstImport).bind fun k => k.before.reverse.find? Shape.isQuote).getD '\''

def addStatement (t : Text) : Edit :=
  let statement := r.statement (quoteStyle t)
  match Anchor.locate t .firstImport with
  | some k => .insert k.before ((if Text.endsLine k.before then "" else "\n") ++ statement)
  | none =>
    .insert [] (statement ++ if t.isEmpty || t.head? == some '\n' then "" else "\n")

/-- The edit that meets a request. Missing names join the list of a statement that the text has for
the module, and where there is none a new statement goes after the first import. -/
def plan? (t : Text) : Option Edit :=
  match (Import.statements r.source t).find? r.mayJoin with
  | some f => r.join? t f
  | none => some (r.addStatement t)

end Scaffold.ImportRequest
