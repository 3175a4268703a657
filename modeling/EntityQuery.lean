-- SUMMARY: Statements about entities, and the requests of a Web API that carry them out.
import EntityQuery.Main
import EntityQuery.Execution
import EntityQuery.Proofs.Execution.Scope
import EntityQuery.Proofs.Skeleton.Filter
import EntityQuery.Proofs.Skeleton.Shape
import EntityQuery.Proofs.Skeleton.Difference
import EntityQuery.Proofs.Value
import EntityQuery.Proofs.Statement.Structure
import EntityQuery.Proofs.Statement.Item
import EntityQuery.Proofs.Statement.Alike
import EntityQuery.Proofs.Statement.Injection
import EntityQuery.Proofs.Execution.Links
import EntityQuery.Proofs.Text.Keyword
import EntityQuery.Proofs.Filter.Operator
import EntityQuery.Proofs.Skeleton.Closed
import EntityQuery.Proofs.Filter.Compose
import EntityQuery.Proofs.Skeleton.Run
import EntityQuery.Proofs.Statement.Body
import EntityQuery.Proofs.Statement.Clause
import EntityQuery.Proofs.Statement.Joined
import EntityQuery.Proofs.Statement.Select
import EntityQuery.Proofs.Statement.Assignment
import EntityQuery.Proofs.Filter.RecordId
import EntityQuery.Proofs.Statement.Change
import EntityQuery.Proofs.Execution.ById
import EntityQuery.Proofs.Request.Preview
import EntityQuery.Proofs.Statement.Insertion
import EntityQuery.Proofs.Text.Percent
import EntityQuery.Proofs.Statement.Accepted
import EntityQuery.Proofs.Request.Url
import EntityQuery.Proofs.Json.Scalar
import EntityQuery.Proofs.Json.RoundTrip
import EntityQuery.Proofs.Request.Body
import EntityQuery.Proofs.Skeleton.Outline
import EntityQuery.Proofs.Text.Slice
import EntityQuery.Proofs.Statement.Cut
import EntityQuery.Proofs.Statement.Guarded
import EntityQuery.Proofs.Request.Host
import EntityQuery.Proofs.Filter.Rewrite
import EntityQuery.Proofs.Filter.Settled
import EntityQuery.Proofs.Skeleton.Settled
import EntityQuery.Proofs.Statement.WellFormed
import EntityQuery.Proofs.Filter.Tokens
import EntityQuery.Proofs.Filter.NormalForm
import EntityQuery.Proofs.Json.Characters
import EntityQuery.Proofs.Text.Visible
import EntityQuery.Proofs.Request.Framing
import EntityQuery.Proofs.Decimal.Interval
import EntityQuery.Proofs.Decimal.Shortest
import EntityQuery.Proofs.Decimal.Rounding
import EntityQuery.Proofs.Json.Double
import EntityQuery.Proofs.Json.Injective
import EntityQuery.Proofs.Query.Shown
import EntityQuery.Proofs.Value.Typing
import EntityQuery.Proofs.Filter.SingleId
import EntityQuery.Proofs.Request.Target
import EntityQuery.Proofs.Statement.Entity
import EntityQuery.Proofs.Ending.Reader
import EntityQuery.Proofs.Ending.Shape
import EntityQuery.Proofs.Ending.Query
import EntityQuery.Proofs.Token.Tokenization
import EntityQuery.Proofs.Token.Mask
import EntityQuery.Proofs.Token.Items
import EntityQuery.Proofs.Statement.Checked
import EntityQuery.Proofs.Execution.Created
import EntityQuery.Proofs.Json.Taken
import EntityQuery.Proofs.Json.Grammar
import EntityQuery.Proofs.Json.Derived
import EntityQuery.Proofs.Execution.Keys
