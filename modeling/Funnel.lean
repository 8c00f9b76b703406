import Funnel.Main
import Funnel.Rehearsal
import Funnel.Proofs.Entry.Position
import Funnel.Proofs.Entry.Sequence
import Funnel.Proofs.Except
import Funnel.Proofs.Config.Ranks
import Funnel.Proofs.Entry.Canonical
import Funnel.Proofs.Entry.Attributes
import Funnel.Proofs.Entry.Backfill
import Funnel.Proofs.Plan.Reached
import Funnel.Proofs.Plan.Relation
import Funnel.Proofs.Journey
import Funnel.Proofs.Metric.Counts
import Funnel.Proofs.Plan.Counts
import Funnel.Proofs.Plan.Conservative
import Funnel.Proofs.Plan.Narrowing
import Funnel.Proofs.Plan.Isolation
import Funnel.Proofs.Event.Coverage
import Funnel.Proofs.Plan.Reordering
import Funnel.Proofs.Interleaving
import Funnel.Proofs.Redelivery
import Funnel.Proofs.NameMap
import Funnel.Proofs.Metric.Tally
import Funnel.Proofs.Plan.Additivity
import Funnel.Proofs.Plan.Influence
import Funnel.Proofs.Plan.Unity
import Funnel.Proofs.Plan.Advancing
import Funnel.Proofs.Plan.Accounting
import Funnel.Proofs.Plan.Figures
import Funnel.Proofs.Entry.Conversion
import Funnel.Proofs.Metric.Reach
import Funnel.Proofs.Plan.Modes
import Funnel.Proofs.Program
import Funnel.Proofs.Store.Publish
import Funnel.Proofs.Store.Record
import Funnel.Proofs.Store.Readback
import Funnel.Proofs.Entry.Shift
import Funnel.Proofs.Metric.Shift
import Funnel.Proofs.Plan.Shift
import Funnel.Proofs.Plan.Attributes
import Funnel.Proofs.Store.Database
import Funnel.Proofs.Command.Run
import Funnel.Proofs.Sql.Fragments
import Funnel.Proofs.Command.Names
import Funnel.Proofs.Entry.Successor
import Funnel.Proofs.Entry.Signals
import Funnel.Proofs.Entry.Representatives
import Funnel.Proofs.Entry.Ties
import Funnel.Proofs.Entry.Gaps
import Funnel.Proofs.Plan.Passage
import Funnel.Proofs.Entry.Records
import Funnel.Proofs.Entry.Attachment
import Funnel.Proofs.Plan.Records
import Funnel.Proofs.Plan.Stages
import Funnel.Proofs.RollUp
import Funnel.Proofs.Telescoping
import Funnel.Proofs.Metric.Table
import Funnel.Proofs.Metric.Means
import Funnel.Proofs.Metric.Ordinals
import Funnel.Proofs.Metric.Times
import Funnel.Proofs.Plan.Averages
import Funnel.Proofs.Plan.Users
import Funnel.Proofs.Sql.Identifier
import Funnel.Proofs.Config.WellFormed
import Funnel.Proofs.Config.RankFaults
import Funnel.Proofs.Event.Resolution
import Funnel.Proofs.Config.Ambiguities
import Funnel.Proofs.Config.Writing
import Funnel.Proofs.Config.Destinations
import Funnel.Proofs.Sql.Inert
import Funnel.Proofs.Store.Lookup
import Funnel.Proofs.Command.Window
import Funnel.Proofs.Dimensions.Json
import Funnel.Proofs.Dimensions.Label
import Funnel.Proofs.Report.Cells
import Funnel.Proofs.Report.Sections
import Funnel.Proofs.Report.Headings
import Funnel.Proofs.Report.Tables
