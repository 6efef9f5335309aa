import Lineage.Descriptor.Printer
import Lineage.Main
import Lineage.Plan.Json
import Lineage.Proofs.Chain.WellFormed
import Lineage.Service.Call
import Lineage.Proofs.Chain.Membership
import Lineage.Proofs.Chain.Declared
import Lineage.Proofs.Chain.Linking
import Lineage.Proofs.Chain.Resolved
import Lineage.Proofs.Chain.Coherent
import Lineage.Proofs.Converter.Planner
import Lineage.Proofs.Converter.Session
import Lineage.Proofs.Converter.Closure
import Lineage.Proofs.Converter.Agreement
import Lineage.Proofs.Converter.Retry
import Lineage.Proofs.Converter.Method
import Lineage.Proofs.Converter.Mutator
import Lineage.Proofs.Plan.Generated
import Lineage.Proofs.Plan.Correspondence
import Lineage.Proofs.Service.Visit
import Lineage.Proofs.Service.Gate
import Lineage.Proofs.Rule.Demand
import Lineage.Proofs.Rule.Derive
import Lineage.Proofs.Plan.Closed
import Lineage.Proofs.Converter.Parts
import Lineage.Proofs.Plan.Provided
import Lineage.Proofs.Service.Write
import Lineage.Proofs.Chain.Counterpart
import Lineage.Proofs.Service.Hop
import Lineage.Proofs.Service.RequestDelivery
import Lineage.Proofs.Plan.Sample
import Lineage.Proofs.Service.Access
import Lineage.Proofs.Service.ResponseDelivery
import Lineage.Proofs.Service.EnumRun
import Lineage.Proofs.Chain.Claims
import Lineage.Proofs.Service.Restore
import Lineage.Proofs.Service.RoundTrip
import Lineage.Proofs.Service.Destinations
import Lineage.Proofs.Plan.FileOrder
import Lineage.Proofs.Chain.Settled
import Lineage.Proofs.Chain.Integrity
import Lineage.Proofs.Text.Words
import Lineage.Proofs.Annotation.Written
import Lineage.Proofs.Annotation.Comments
import Lineage.Proofs.Annotation.Options
import Lineage.Proofs.Chain.Annotated
import Lineage.Proofs.Annotation.Interchange
import Lineage.Proofs.Chain.Variants
import Lineage.Proofs.Plan.Coverage
import Lineage.Proofs.Plan.RequestFields
import Lineage.Proofs.Service.Trace
import Lineage.Proofs.Service.Origin
import Lineage.Proofs.Service.Locality
import Lineage.Proofs.Files.Tree
import Lineage.Proofs.Generated.Files
import Lineage.Proofs.Generated.Calls
import Lineage.Proofs.Generated.Names
import Lineage.Proofs.Chain.Nesting
import Lineage.Proofs.Converter.Holders
import Lineage.Proofs.Service.EnumRoundTrip
import Lineage.Proofs.Service.Received
import Lineage.Proofs.Chain.Marked
import Lineage.Proofs.Rule.Reach
import Lineage.Proofs.Rule.Worklist
import Lineage.Proofs.Plan.Packages
import Lineage.Proofs.Service.Validity
import Lineage.Proofs.Plan.Failure
import Lineage.Proofs.Plan.Resolvable
import Lineage.Proofs.Service.Totality
import Lineage.Proofs.Chain.References
import Lineage.Proofs.Chain.MissingTypes
import Lineage.Proofs.Decimal.Literal
import Lineage.Proofs.Rule.Members
import Lineage.Proofs.Service.Integers
import Lineage.Proofs.Schema.Walk
import Lineage.Proofs.Schema.Position
import Lineage.Proofs.Schema.Gathered
import Lineage.Proofs.Schema.Flattened
import Lineage.Proofs.Schema.Oneofs
import Lineage.Proofs.Annotation.Lines
import Lineage.Proofs.Annotation.Strict
import Lineage.Proofs.Chain.VersionOrder
