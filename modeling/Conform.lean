import Conform.Number.Binary64
import Conform.Number.Decimal
import Conform.Number.Shortest
import Conform.Number.Measure
import Conform.Text.Ranges
import Conform.Text.Blank
import Conform.Text.Word
import Conform.Text.Printable
import Conform.Text.CaseTable
import Conform.Text.Case
import Conform.Text.Quoted
import Conform.Pattern.Basic
import Conform.Pattern.Reader
import Conform.Calendar
import Conform.Locator.Ip
import Conform.Locator.Url
import Conform.Value.Atom
import Conform.Value.Key
import Conform.Value.Basic
import Conform.Value.Display
import Conform.Value.Equality
import Conform.Report.Code
import Conform.Report.Record
import Conform.Fault
import Conform.Message.Template
import Conform.Message.Catalog
import Conform.Schema.Basic
import Conform.Schema.Describe
import Conform.Schema.Scalar
import Conform.Schema.Build
import Conform.World
import Conform.Context
import Conform.Merge
import Conform.Traverse
import Conform.Validate
import Conform.Plugin
import Conform.Pipeline
import Conform.Export
import Conform.RecordModel
import Conform.Proofs.Run
import Conform.Proofs.Call
import Conform.Proofs.Appends
import Conform.Proofs.Verdict
import Conform.Proofs.Likeness
import Conform.Proofs.Settled
import Conform.Proofs.Carry
import Conform.Proofs.Container
import Conform.Proofs.Copying
import Conform.Proofs.Promise
import Conform.Proofs.SchemaGraph
import Conform.Proofs.Termination
import Conform.Proofs.Restoration
import Conform.Proofs.Merging
import Conform.Proofs.Pairing
import Conform.Proofs.Descent
import Conform.Proofs.Relocation
import Conform.Proofs.Provenance
import Conform.Proofs.Circular
import Conform.Proofs.Absence
import Conform.Proofs.Foretelling
import Conform.Proofs.Places
import Conform.Proofs.Containment
import Conform.Proofs.Keeping
import Conform.Proofs.Capture
import Conform.Proofs.Parts
import Conform.Proofs.Uniting
import Conform.Proofs.Purity
import Conform.Proofs.MemberOrder
import Conform.Proofs.Wording
import Conform.Proofs.Phrasing
import Conform.Proofs.Clearing
import Conform.Proofs.Unmarked
import Conform.Proofs.Language
import Conform.Proofs.Matching
import Conform.Proofs.Numeral
import Conform.Proofs.Ruling
import Conform.Proofs.Address
import Conform.Proofs.Chaining
import Conform.Proofs.Registration
import Conform.Proofs.Admission
import Conform.Proofs.Exporting
import Conform.Proofs.Agreement
import Conform.Proofs.Scoping
import Conform.Proofs.Finding
import Conform.Proofs.Summing
import Conform.Proofs.Requiredness
import Conform.Proofs.Conflict
import Conform.Proofs.Associativity
import Conform.Proofs.Deepening
import Conform.Proofs.FirstMatch
import Conform.Proofs.Grouping
import Conform.Proofs.Trial
import Conform.Proofs.UnionGrouping
import Conform.Proofs.Folding
import Conform.Proofs.MemberGrouping
import Conform.Proofs.Fieldwise
import Conform.Proofs.Disjoint
import Conform.Proofs.Selection
import Conform.Proofs.Rechecking
import Conform.Proofs.Restating
import Conform.Proofs.Representation
import Conform.Proofs.Chronology
import Conform.Proofs.Window
import Conform.Proofs.WrittenNumber
import Conform.Proofs.Branching
import Conform.Proofs.Flattening
import Conform.Proofs.Placeholders
import Conform.Proofs.Sequencing
import Conform.Proofs.NumberLine
import Conform.Proofs.SameKind
import Conform.Proofs.Cascade
import Conform.Proofs.TextDocument
import Conform.Proofs.StandIn
import Conform.Proofs.TypeMeaning
import Conform.Proofs.Covering
import Conform.Proofs.Reentry
import Conform.Proofs.Dealing
import Conform.Proofs.Lawful
import Conform.Proofs.Unwinding
import Conform.Proofs.BuiltOnce
