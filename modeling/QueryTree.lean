import QueryTree.Json.Entity
import QueryTree.Main
import QueryTree.Node.Search
import QueryTree.Plugin
import QueryTree.Proofs.Amend.Batches
import QueryTree.Proofs.Amend.ClusteredIndexes
import QueryTree.Proofs.Amend.Pages
import QueryTree.Proofs.Amend.Settling
import QueryTree.Proofs.Command.Markers
import QueryTree.Proofs.Command.Reading
import QueryTree.Proofs.Command.Substitution
import QueryTree.Proofs.Dialect.GroupForms
import QueryTree.Proofs.Dialect.Grouping
import QueryTree.Proofs.Dialect.Literals
import QueryTree.Proofs.Dialect.Nulls
import QueryTree.Proofs.Dialect.Patterns
import QueryTree.Proofs.Dialect.PlainTexts
import QueryTree.Proofs.Dialect.ResultColumns
import QueryTree.Proofs.Dialect.Tokens
import QueryTree.Proofs.Node.Fields
import QueryTree.Proofs.Pass.ColumnTypes
import QueryTree.Proofs.Pass.EntityKeys
import QueryTree.Proofs.Pass.GroupKeys
import QueryTree.Proofs.Pass.JoinedSources
import QueryTree.Proofs.Pass.LabelCounts
import QueryTree.Proofs.Pass.LiftedSources
import QueryTree.Proofs.Pass.Memberships
import QueryTree.Proofs.Pass.Outcomes
import QueryTree.Proofs.Pass.Pruning
import QueryTree.Proofs.Pass.Remapping
import QueryTree.Proofs.Pass.Removals
import QueryTree.Proofs.Pass.Resolution
import QueryTree.Proofs.Pass.RowTests
import QueryTree.Proofs.Pass.Rules
import QueryTree.Proofs.Pass.Settling
import QueryTree.Proofs.Pass.WholeNumbers
import QueryTree.Proofs.Pass.Wildcards
import QueryTree.Proofs.Pass.Writing
import QueryTree.Proofs.Projection.Outline
import QueryTree.Proofs.Projection.Reads
import QueryTree.Proofs.Projection.Slots
import QueryTree.Proofs.Rows.Bits
import QueryTree.Proofs.Rows.Merging
import QueryTree.Proofs.Rows.Paging
import QueryTree.Proofs.Session.CacheRuns
import QueryTree.Proofs.Session.Commands
import QueryTree.Proofs.Session.ElementTypes
import QueryTree.Proofs.Session.Nesting
import QueryTree.Proofs.Session.PlanCache
import QueryTree.Proofs.Session.Registrations
import QueryTree.Proofs.Session.Updates
import QueryTree.Session.Persistence
import QueryTree.Session.Provider
import QueryTree.Session.Script
