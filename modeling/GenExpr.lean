import GenExpr.Kind.Custom
import GenExpr.Options.Document
import GenExpr.Session.Iteration
import GenExpr.Proofs.Action
import GenExpr.Proofs.Comparison
import GenExpr.Proofs.Entries
import GenExpr.Proofs.Binary64.Finite
import GenExpr.Proofs.Binary64.Rounding
import GenExpr.Proofs.Binary64.Nearness
import GenExpr.Proofs.Decimal.Shortest
import GenExpr.Proofs.Decimal.Numeral
import GenExpr.Proofs.Decimal.Bounds
import GenExpr.Proofs.Decimal.Layout
import GenExpr.Proofs.Decimal.Text
import GenExpr.Proofs.Expression.Depth
import GenExpr.Proofs.Expression.General
import GenExpr.Proofs.Expression.Parse
import GenExpr.Proofs.Expression.Nesting
import GenExpr.Proofs.Expression.Rendering
import GenExpr.Proofs.Expression.Extent
import GenExpr.Proofs.Expression.Repetition
import GenExpr.Proofs.Expression.Viable
import GenExpr.Proofs.Json.RoundTrip
import GenExpr.Proofs.Json.Extends
import GenExpr.Proofs.Options.Document
import GenExpr.Proofs.Deferred.Course
import GenExpr.Proofs.Deferred.Combine
import GenExpr.Proofs.Deferred.Poll
import GenExpr.Proofs.Deferred.Join
import GenExpr.Proofs.Deferred.Failure
import GenExpr.Proofs.Deferred.Lift
import GenExpr.Proofs.Deferred.Chain
import GenExpr.Proofs.Draw.Sampling
import GenExpr.Proofs.Draw.Source
import GenExpr.Proofs.Draw.Index
import GenExpr.Proofs.Draw.Character
import GenExpr.Proofs.Draw.Checked
import GenExpr.Proofs.Draw.Suspension
import GenExpr.Proofs.Draw.Prompt
import GenExpr.Proofs.Draw.Settlement
import GenExpr.Proofs.Draw.Repetition
import GenExpr.Proofs.Draw.Acts
import GenExpr.Proofs.Node.Builtin
import GenExpr.Proofs.Node.Meaning
import GenExpr.Proofs.Range
import GenExpr.Proofs.Range.Text
import GenExpr.Proofs.Range.Bounds
import GenExpr.Proofs.Letters
import GenExpr.Proofs.Node.Drawn
import GenExpr.Proofs.Node.Drawable
import GenExpr.Proofs.Node.Nesting
import GenExpr.Proofs.Node.Congruence
import GenExpr.Proofs.Node.Suspension
import GenExpr.Proofs.Node.Reach
import GenExpr.Proofs.Node.Stages
import GenExpr.Proofs.Node.Descent
import GenExpr.Proofs.Node.Visits
import GenExpr.Proofs.Node.Accepted
import GenExpr.Proofs.Node.Quotation
import GenExpr.Proofs.Node.Named
import GenExpr.Proofs.Node.Numbering
import GenExpr.Proofs.Draw.Order
import GenExpr.Proofs.Iterate.Account
import GenExpr.Proofs.Iterate.Rows
import GenExpr.Proofs.Iterate.Handling
import GenExpr.Proofs.Iterate.Issue
import GenExpr.Proofs.Iterate.Order
import GenExpr.Proofs.Iterate.Asynchronous
import GenExpr.Proofs.Iterate.Turns
import GenExpr.Proofs.Iterate.Modes
import GenExpr.Proofs.Iterate.Synchronous
import GenExpr.Proofs.Iterate.FirstError
import GenExpr.Proofs.Session.Registrations
import GenExpr.Proofs.Draw.Failure
import GenExpr.Proofs.Json.Scale
import GenExpr.Proofs.Json.Float
import GenExpr.Proofs.Node.FloatLiteral
