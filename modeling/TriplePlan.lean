import TriplePlan.Dataset.Record
import TriplePlan.Plan.Summary
import TriplePlan.Rdf.Read
import TriplePlan.Store.Snapshot
import TriplePlan.Proofs.Cbor
import TriplePlan.Proofs.Except
import TriplePlan.Proofs.Key
import TriplePlan.Proofs.OrderedMap
import TriplePlan.Proofs.Source
import TriplePlan.Proofs.Transaction
import TriplePlan.Proofs.Scan
import TriplePlan.Proofs.Script
import TriplePlan.Proofs.Index.Content
import TriplePlan.Proofs.Index.Insert
import TriplePlan.Proofs.Dataset
import TriplePlan.Proofs.Index.Documents
import TriplePlan.Proofs.Index.Lookup
import TriplePlan.Proofs.Index.Counts
import TriplePlan.Proofs.Index.Provenance
import TriplePlan.Proofs.Index.Update
import TriplePlan.Proofs.Plan.Filing
import TriplePlan.Proofs.Plan.Classify
import TriplePlan.Proofs.Plan.Links
import TriplePlan.Proofs.Plan.Probe
import TriplePlan.Proofs.Plan.Intersect
import TriplePlan.Proofs.Plan.Candidates
import TriplePlan.Proofs.Plan.Root
import TriplePlan.Proofs.Plan.Past
import TriplePlan.Proofs.Plan.Placement
import TriplePlan.Proofs.Plan.Build
import TriplePlan.Proofs.Plan.Outcome
import TriplePlan.Proofs.Plan.Arrangement
import TriplePlan.Proofs.Plan.Decision
import TriplePlan.Proofs.Plan.Equivalence
import TriplePlan.Proofs.KeyOrder
import TriplePlan.Proofs.Plan.Calls
import TriplePlan.Proofs.Plan.Retry
import TriplePlan.Proofs.Plan.Cursors
import TriplePlan.Proofs.Snapshot
import TriplePlan.Proofs.Plan.Partition
import TriplePlan.Proofs.Plan.ValueRoot
import TriplePlan.Proofs.Plan.Growth
import TriplePlan.Proofs.Json
import TriplePlan.Proofs.Term.Record
import TriplePlan.Proofs.Dataset.Record
import TriplePlan.Proofs.Rdf.Sink
import TriplePlan.Proofs.Plan.Doubles
import TriplePlan.Proofs.Plan.Dependencies
import TriplePlan.Proofs.Tails
import TriplePlan.Proofs.Index.Effect
import TriplePlan.Proofs.Plan.Measure
import TriplePlan.Proofs.Plan.WrittenKeys
import TriplePlan.Proofs.Plan.Refusals
import TriplePlan.Proofs.KeyTruncation
import TriplePlan.Proofs.Index.Grounding
import TriplePlan.Proofs.Index.Delta
import TriplePlan.Proofs.Dataset.History
import TriplePlan.Proofs.Source.History
import TriplePlan.Proofs.Plan.Sums
import TriplePlan.Proofs.Plan.Order
import TriplePlan.Proofs.Plan.Merge
import TriplePlan.Proofs.Rdf.Escape
import TriplePlan.Proofs.Rdf.Literal
import TriplePlan.Proofs.Plan.Regrouping
import TriplePlan.Store.Disk
import TriplePlan.Proofs.Disk
