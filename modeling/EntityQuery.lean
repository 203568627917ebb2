import EntityQuery.Main
import EntityQuery.Predicate.Equality
import EntityQuery.Proofs.Predicate.Documents
import EntityQuery.Proofs.Query.Closure
import EntityQuery.Proofs.Query.Fetching
import EntityQuery.Proofs.Query.Fitting
import EntityQuery.Proofs.Query.Interleavings
import EntityQuery.Proofs.Remote.Acceptance
import EntityQuery.Proofs.Remote.Addresses
import EntityQuery.Proofs.Remote.Containment
import EntityQuery.Proofs.Remote.Depictions
import EntityQuery.Proofs.Remote.Inheritance
import EntityQuery.Proofs.Remote.MasterReferences
import EntityQuery.Proofs.Remote.Meaning
import EntityQuery.Proofs.Remote.NumberComparisons
import EntityQuery.Proofs.Remote.Options
import EntityQuery.Proofs.Remote.Quotations
import EntityQuery.Proofs.Remote.Scopes
import EntityQuery.Proofs.Remote.Selections
import EntityQuery.Proofs.Rows.Chains
import EntityQuery.Proofs.Rows.DateTests
import EntityQuery.Proofs.Rows.Fetched
import EntityQuery.Proofs.Rows.Quantifiers
import EntityQuery.Proofs.Rows.Running
import EntityQuery.Proofs.Rows.Sorting
import EntityQuery.Proofs.Store.Differences
import EntityQuery.Proofs.Store.Layouts
import EntityQuery.Proofs.Store.MasterKeys
import EntityQuery.Proofs.Store.Moments
import EntityQuery.Proofs.Schema.Faults
import EntityQuery.Proofs.Predicate.Validity
import EntityQuery.Proofs.Remote.Validated
import EntityQuery.Proofs.Query.Malformed
import EntityQuery.Proofs.Store.Lists
import EntityQuery.Proofs.Rows.Respelling
import EntityQuery.Proofs.SelectTree.UnionLaws
import EntityQuery.Proofs.Rows.Substrings
import EntityQuery.Proofs.Rows.Trimming
import EntityQuery.Proofs.Rows.Pages
import EntityQuery.Proofs.Rows.Coherence
import EntityQuery.Proofs.Value.Documents
import EntityQuery.Proofs.OrderClause
import EntityQuery.Proofs.Dates
