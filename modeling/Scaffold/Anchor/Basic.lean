import Scaffold.Anchor.Brace

namespace Scaffold

inductive Anchor where
  | inputMapping | catchAllRoute | defaultExport | classEnd | textEnd | firstImport
deriving DecidableEq, Repr

namespace Anchor

def label : Anchor → Text
  | inputMapping => "input mapping literal"
  | catchAllRoute => "catch-all route"
  | defaultExport => "default export"
  | classEnd => "class closing brace"
  | textEnd => "end of file"
  | firstImport => "first import"

/-- Where the first class declaration is closed: at the beginning of the brace's line if nothing
stands there before it, or else at the brace. -/
def locateClassEnd (t : Text) : Option Cut := do
  let declaration ← Text.firstLine? (fun r => (Shape.classDeclaration r).isSome) t
  let header ← Shape.classDeclaration declaration.after
  let rest ← Brace.closing? (header.dropWhile (· != '{'))
  let brace := Cut.ofRest t rest
  some (if brace.startsLine then brace.lineStart else brace)

/-- The place of an anchor in a text. Of several, the first counts, but for routes and default
exports the last. -/
def locate (t : Text) : Anchor → Option Cut
  | inputMapping => do
    let opening ← Text.firstCut?
      (fun prev r => !prev.any isWord && (Shape.inputMapping r).isSome) none t
    (Shape.inputMapping opening.after).map (Cut.ofRest t)
  | catchAllRoute => Text.lastLine? (fun r => (Shape.catchAllRoute r).isSome) t
  | defaultExport => Text.lastLine? (fun r => (Shape.defaultExport r).isSome) t
  | classEnd => locateClassEnd t
  | textEnd => some ⟨t, []⟩
  | firstImport => do
    let statement ← Text.firstLine? (fun r => (Shape.importStatement r).isSome) t
    (Shape.importStatement statement.after).map (Cut.ofRest t)

end Anchor

end Scaffold
