import QueryTuning.Error
import QueryTuning.Expr.Walk
import QueryTuning.Pipeline.Trace
import QueryTuning.Policy.Json
import QueryTuning.Query.Json
import QueryTuning.Schema.Layout
import QueryTuning.Version
import QueryTuning.Proofs.Pipeline.Iteration
import QueryTuning.Proofs.Query.RoundTrip
import QueryTuning.Proofs.Query.Tuned
import QueryTuning.Proofs.Rule.Exact
import QueryTuning.Proofs.Rule.Repeated
import QueryTuning.Proofs.Rule.InTurn
import QueryTuning.Proofs.Pipeline.NormalForm
import QueryTuning.Proofs.Expr.Spelling
import QueryTuning.Proofs.Query.Spelling
import QueryTuning.Proofs.Query.Dependence
import QueryTuning.Proofs.Pipeline.Trace
import QueryTuning.Proofs.Query.Nesting
import QueryTuning.Proofs.Expr.Census
import QueryTuning.Proofs.Substitutes.Approximate
import QueryTuning.Proofs.Substitutes.Numbered
import QueryTuning.Proofs.Query.Approximate
import QueryTuning.Proofs.Json.Yields
import QueryTuning.Proofs.Query.Reread
import QueryTuning.Proofs.Json.Parts
import QueryTuning.Proofs.Json.Rearranged
import QueryTuning.Proofs.Schema.Declared
import QueryTuning.Proofs.Schema.Layout
import QueryTuning.Proofs.Schema.FromLayout
import QueryTuning.Proofs.Text.Lines
import QueryTuning.Proofs.Text.Pieces
import QueryTuning.Proofs.Text.Utf8
import QueryTuning.Proofs.Tree.Drawing
import QueryTuning.Proofs.Literal.Text
import QueryTuning.Proofs.Expr.Drawing
import QueryTuning.Proofs.Expr.Lines
import QueryTuning.Proofs.Expr.Text
import QueryTuning.Proofs.Expr.Place
import QueryTuning.Proofs.Query.Text
import QueryTuning.Proofs.Query.Place
import QueryTuning.Proofs.Query.Explain
import QueryTuning.Proofs.Policy.Settings
import QueryTuning.Proofs.Schema.RoundTrip
