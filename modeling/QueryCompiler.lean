import QueryCompiler.Proofs.Constant.Exact
import QueryCompiler.Proofs.Constant.Wire
import QueryCompiler.Proofs.Document.Parser.Types
import QueryCompiler.Proofs.Nullability.Inverse
import QueryCompiler.Proofs.Registry.Independence
import QueryCompiler.Proofs.Registry.Order
import QueryCompiler.Proofs.Registry.Sources
import QueryCompiler.Proofs.Schema.Applicability
import QueryCompiler.Proofs.Schema.TypeReferences
import QueryCompiler.Proofs.SelectionSet.GeneratedNames
import QueryCompiler.Proofs.SelectionSet.Grouping
import QueryCompiler.Proofs.SelectionSet.Guards
import QueryCompiler.Proofs.SelectionSet.Reordered
import QueryCompiler.Proofs.SelectionSet.Sorted
import QueryCompiler.Proofs.SelectionSet.Typename
import QueryCompiler.Proofs.Soundness
import QueryCompiler.Proofs.Text.Line
import QueryCompiler.Report
import QueryCompiler.Session
