import Scaffold.Main
import Scaffold.Template.Catalog
import Scaffold.Tree.Changes
import Scaffold.Proofs.Insertion.Keeping
import Scaffold.Proofs.Recipe.Rerun
import Scaffold.Proofs.Anchor.ClassBody
import Scaffold.Proofs.Edit.Insertions
import Scaffold.Proofs.Insertion.Series
import Scaffold.Proofs.Insertion.Members
import Scaffold.Proofs.Template.Nesting
import Scaffold.Proofs.Recipe.Wires
import Scaffold.Proofs.Recipe.Members
import Scaffold.Proofs.Recipe.Account
import Scaffold.Proofs.Recipe.Preview
import Scaffold.Proofs.Text.Ended
import Scaffold.Proofs.Anchor.LastLine
import Scaffold.Proofs.Anchor.Fallback
import Scaffold.Proofs.Anchor.Seams
import Scaffold.Proofs.Import.Added
import Scaffold.Proofs.Path.Modules
import Scaffold.Proofs.Insertion.Routes
import Scaffold.Proofs.Recipe.Routes
import Scaffold.Proofs.Recipe.Failures
import Scaffold.Proofs.Recipe.Settled
import Scaffold.Proofs.Template.Symbols
import Scaffold.Proofs.Template.Declared
import Scaffold.Proofs.Name.Parts
import Scaffold.Proofs.Recipe.Apart
import Scaffold.Proofs.Anchor.FirstLine
import Scaffold.Proofs.Import.Changes
import Scaffold.Proofs.Insertion.Imports
import Scaffold.Proofs.Name.Fused
import Scaffold.Proofs.Recipe.Tables
import Scaffold.Proofs.Insertion.Fitting
import Scaffold.Proofs.Import.Again
import Scaffold.Proofs.Recipe.Entries
import Scaffold.Proofs.Insertion.Commas
import Scaffold.Proofs.Import.Values
import Scaffold.Proofs.Import.Commented
import Scaffold.Proofs.Import.Grown
import Scaffold.Proofs.Import.Unlisted
import Scaffold.Proofs.Recipe.Schemas
import Scaffold.Proofs.Anchor.Header
import Scaffold.Proofs.Insertion.Commented
import Scaffold.Proofs.Insertion.Slots
import Scaffold.Proofs.Name.Grammar
import Scaffold.Proofs.Path.Course
import Scaffold.Proofs.Recipe.Agreement
import Scaffold.Proofs.Recipe.Placed
import Scaffold.Proofs.Template.Source
import Scaffold.Proofs.Anchor.Returning
import Scaffold.Proofs.Project.Fields
