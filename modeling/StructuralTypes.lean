import StructuralTypes.Violation
import StructuralTypes.Reference
import StructuralTypes.Fault
import StructuralTypes.Arena
import StructuralTypes.Names
import StructuralTypes.Interner
import StructuralTypes.Bindings
import StructuralTypes.Symbol
import StructuralTypes.TypeForm
import StructuralTypes.Expression
import StructuralTypes.Statement
import StructuralTypes.Insertion
import StructuralTypes.Layout
import StructuralTypes.Threads
import StructuralTypes.Program.Basic
import StructuralTypes.Program.Edit
import StructuralTypes.Program.Declaration
import StructuralTypes.Program.Text
import StructuralTypes.Walk
import StructuralTypes.Walk.Recording
import StructuralTypes.Report
import StructuralTypes.Canonical.Key
import StructuralTypes.Canonical.Tally
import StructuralTypes.Canonical.Failure
import StructuralTypes.Canonical.Session
import StructuralTypes.Canonical.Settle
import StructuralTypes.Canonical.Leaf
import StructuralTypes.Canonical.Home
import StructuralTypes.Canonical.Nested
import StructuralTypes.Canonical.Variables
import StructuralTypes.Canonical.Companions
import StructuralTypes.Canonical.Invariants
import StructuralTypes.Canonical.Pipeline
import StructuralTypes.Proofs.Outcome
import StructuralTypes.Proofs.Storage
import StructuralTypes.Proofs.Placement
import StructuralTypes.Proofs.Construction
import StructuralTypes.Proofs.KeyName
import StructuralTypes.Proofs.Reading
import StructuralTypes.Proofs.Derivation
import StructuralTypes.Proofs.Tracking
import StructuralTypes.Proofs.Settlement
import StructuralTypes.Proofs.Naming
import StructuralTypes.Proofs.Meaning
import StructuralTypes.Proofs.Closure
import StructuralTypes.Proofs.Completion
import StructuralTypes.Proofs.Interning
import StructuralTypes.Proofs.Extension
import StructuralTypes.Proofs.Soundness
import StructuralTypes.Proofs.Validity
import StructuralTypes.Proofs.Tuples
import StructuralTypes.Proofs.Terms
import StructuralTypes.Proofs.Provenance
import StructuralTypes.Proofs.Companions
import StructuralTypes.Proofs.Ordering
import StructuralTypes.Proofs.Linking
import StructuralTypes.Proofs.Arrangement
import StructuralTypes.Proofs.Threading
import StructuralTypes.Proofs.Refinement
import StructuralTypes.Proofs.Forest
import StructuralTypes.Proofs.CreationOrder
import StructuralTypes.Proofs.Operations
import StructuralTypes.Proofs.Lexical
import StructuralTypes.Proofs.Steps
import StructuralTypes.Proofs.Siting
import StructuralTypes.Proofs.Interruption
import StructuralTypes.Proofs.CompanionSteps
import StructuralTypes.Proofs.Locality
import StructuralTypes.Proofs.Retention
import StructuralTypes.Proofs.Precedence
import StructuralTypes.Proofs.Visibility
import StructuralTypes.Proofs.Homes
import StructuralTypes.Proofs.Acyclicity
import StructuralTypes.Proofs.Grounding
import StructuralTypes.Proofs.Descent
import StructuralTypes.Proofs.Totality
import StructuralTypes.Proofs.Stock
import StructuralTypes.Proofs.Fitting
import StructuralTypes.Proofs.Repetition
import StructuralTypes.Proofs.Supplying
import StructuralTypes.Proofs.Ranges
import StructuralTypes.Proofs.Texts
import StructuralTypes.Proofs.Prefixes
import StructuralTypes.Proofs.Guarding
import StructuralTypes.Proofs.Safety
import StructuralTypes.Proofs.Mirroring
import StructuralTypes.Proofs.Ledger
import StructuralTypes.Proofs.Materialization
import StructuralTypes.Proofs.Atomicity
import StructuralTypes.Proofs.Levels
import StructuralTypes.Proofs.Innermost
import StructuralTypes.Proofs.Restoration
import StructuralTypes.Proofs.Retargeting
import StructuralTypes.Proofs.Aborts
import StructuralTypes.Proofs.Tallying
import StructuralTypes.Proofs.Returns
import StructuralTypes.Proofs.Numbering
import StructuralTypes.Proofs.Rendering
import StructuralTypes.Proofs.Listing
