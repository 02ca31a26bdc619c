import CypherRoutes.CommandLine.Arguments
import CypherRoutes.CommandLine.Run
import CypherRoutes.Cypher.Clause
import CypherRoutes.Cypher.Function
import CypherRoutes.Cypher.Inline
import CypherRoutes.Cypher.Literal
import CypherRoutes.Cypher.Pattern
import CypherRoutes.Cypher.Phrase
import CypherRoutes.Cypher.Statement
import CypherRoutes.Cypher.Term
import CypherRoutes.Environment
import CypherRoutes.Environment.Assignments
import CypherRoutes.Files
import CypherRoutes.Graph.Entity
import CypherRoutes.Graph.Node
import CypherRoutes.Graph.Numbering
import CypherRoutes.Graph.Path
import CypherRoutes.Graph.Property
import CypherRoutes.Graph.Relationship
import CypherRoutes.Graph.Stitch
import CypherRoutes.Graph.Triple
import CypherRoutes.Graph.Walk
import CypherRoutes.Json.Number
import CypherRoutes.Json.Read
import CypherRoutes.Json.Value
import CypherRoutes.Json.Write
import CypherRoutes.Main
import CypherRoutes.Number.Decimal
import CypherRoutes.Number.Double
import CypherRoutes.Number.Shortest
import CypherRoutes.Params
import CypherRoutes.Route.Cache
import CypherRoutes.Route.Compile
import CypherRoutes.Route.Compiler
import CypherRoutes.Route.Fault
import CypherRoutes.Route.Key
import CypherRoutes.Route.KeyPattern
import CypherRoutes.Route.Load
import CypherRoutes.Route.Pattern
import CypherRoutes.Route.Source
import CypherRoutes.Route.Table
import CypherRoutes.Settings
import CypherRoutes.Settings.OfEnvironment
import CypherRoutes.Settings.OfText
import CypherRoutes.Settings.OfValue
import CypherRoutes.Text.Alphanumeric
import CypherRoutes.Text.Blank
import CypherRoutes.Text.Word
import CypherRoutes.Yaml.Document
import CypherRoutes.Yaml.Node
import CypherRoutes.Yaml.Scalar
import CypherRoutes.Yaml.Token
import CypherRoutes.Yaml.Token.Cursor
import CypherRoutes.Yaml.Token.Stream
import CypherRoutes.Yaml.Token.Tag
import CypherRoutes.Yaml.Token.Text
import CypherRoutes.Proofs.Key.Captures
import CypherRoutes.Proofs.Params
import CypherRoutes.Proofs.Outcome
import CypherRoutes.Proofs.Stitch.Related
import CypherRoutes.Proofs.Graph.Members
import CypherRoutes.Proofs.Graph.Coherent
import CypherRoutes.Proofs.Graph.All
import CypherRoutes.Proofs.Graph.Issued
import CypherRoutes.Proofs.Graph.Session
import CypherRoutes.Proofs.Route.Building
import CypherRoutes.Proofs.Route.Trail
import CypherRoutes.Proofs.Cypher.Slots
import CypherRoutes.Proofs.Cypher.Legible
import CypherRoutes.Proofs.Cypher.Texts
import CypherRoutes.Proofs.Cypher.Written
import CypherRoutes.Proofs.Cypher.Parameters
import CypherRoutes.Proofs.Route.Finish
import CypherRoutes.Proofs.Route.RoundTrip
import CypherRoutes.Proofs.Graph.Revalue
import CypherRoutes.Proofs.Cypher.Revalue
import CypherRoutes.Proofs.Route.Revalue
import CypherRoutes.Proofs.Route.SameRoute
import CypherRoutes.Proofs.Route.Cache
import CypherRoutes.Proofs.Route.Paths
import CypherRoutes.Proofs.Route.Rebinding
import CypherRoutes.Proofs.Route.Transparency
import CypherRoutes.Proofs.Route.CachedParams
import CypherRoutes.Proofs.Route.Continuation
import CypherRoutes.Proofs.Route.Inert
import CypherRoutes.Proofs.Route.Inlining
import CypherRoutes.Proofs.Cypher.Walks
import CypherRoutes.Proofs.Stitch.Merge
import CypherRoutes.Proofs.Stitch.Contents
import CypherRoutes.Proofs.Stitch.Joining
import CypherRoutes.Proofs.Route.Declared
import CypherRoutes.Proofs.Route.Clock
import CypherRoutes.Proofs.Route.Keys
import CypherRoutes.Proofs.Route.Refusal
import CypherRoutes.Proofs.Route.Served
import CypherRoutes.Proofs.Route.Alike
import CypherRoutes.Proofs.Route.Scope
import CypherRoutes.Proofs.Route.Named
import CypherRoutes.Proofs.Route.Worded
import CypherRoutes.Proofs.Route.Dropping
import CypherRoutes.Proofs.Route.Bound
import CypherRoutes.Proofs.Table.Directives
import CypherRoutes.Proofs.Table.Blocks
import CypherRoutes.Proofs.Table.Listing
import CypherRoutes.Proofs.Table.WellFormed
import CypherRoutes.Proofs.Route.Metrics
import CypherRoutes.Proofs.Route.Failing
import CypherRoutes.Proofs.CommandLine.Reports
import CypherRoutes.Proofs.Cypher.Placeholders
import CypherRoutes.Proofs.Cypher.Quoted
import CypherRoutes.Proofs.Cypher.Unambiguous
import CypherRoutes.Proofs.Stitch.Chain
import CypherRoutes.Proofs.Stitch.Grammar
import CypherRoutes.Proofs.Stitch.Overlap
import CypherRoutes.Proofs.Stitch.Identity
import CypherRoutes.Proofs.Graph.Attaching
import CypherRoutes.Proofs.Route.Unlabelled
import CypherRoutes.Proofs.Cypher.Conditions
import CypherRoutes.Proofs.Cypher.Connectives
import CypherRoutes.Proofs.Stitch.Adjacent
import CypherRoutes.Proofs.Cypher.Shown
import CypherRoutes.Proofs.Graph.Logs
