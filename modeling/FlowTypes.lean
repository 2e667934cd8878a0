import FlowTypes.Main
import FlowTypes.Proofs.Bindings.Loading
import FlowTypes.Proofs.Command.Checking
import FlowTypes.Proofs.Command.Failing
import FlowTypes.Proofs.Command.Loading
import FlowTypes.Proofs.Entries
import FlowTypes.Proofs.Enumeration
import FlowTypes.Proofs.Json.Reading
import FlowTypes.Proofs.Json.WellFormed
import FlowTypes.Proofs.Notation.Canonical
import FlowTypes.Proofs.Notation.Derivation
import FlowTypes.Proofs.Notation.Grammar
import FlowTypes.Proofs.Notation.Height
import FlowTypes.Proofs.Notation.Lexing
import FlowTypes.Proofs.Notation.Nesting
import FlowTypes.Proofs.Notation.Offsets
import FlowTypes.Proofs.Notation.Parsing
import FlowTypes.Proofs.Notation.Recognition
import FlowTypes.Proofs.Notation.RoundTrip
import FlowTypes.Proofs.Notation.Tiling
import FlowTypes.Proofs.Notation.Unambiguity
import FlowTypes.Proofs.Number.ReadBack
import FlowTypes.Proofs.Steps
import FlowTypes.Proofs.Suite.Cases
import FlowTypes.Proofs.Suite.Running
import FlowTypes.Proofs.Text.Bytes
import FlowTypes.Proofs.Text.CharClass
import FlowTypes.Proofs.Text.Quoted
import FlowTypes.Proofs.Ty.Acyclic
import FlowTypes.Proofs.Ty.Alike
import FlowTypes.Proofs.Ty.Binders
import FlowTypes.Proofs.Ty.Coverage
import FlowTypes.Proofs.Ty.Failure
import FlowTypes.Proofs.Ty.Ground
import FlowTypes.Proofs.Ty.Growth
import FlowTypes.Proofs.Ty.History
import FlowTypes.Proofs.Ty.Independence
import FlowTypes.Proofs.Ty.Inferred
import FlowTypes.Proofs.Ty.InferredOrder
import FlowTypes.Proofs.Ty.Literals
import FlowTypes.Proofs.Ty.Meaning
import FlowTypes.Proofs.Ty.Monotonicity
import FlowTypes.Proofs.Ty.Names
import FlowTypes.Proofs.Ty.Nominals
import FlowTypes.Proofs.Ty.Nullability
import FlowTypes.Proofs.Ty.Order
import FlowTypes.Proofs.Ty.Parts
import FlowTypes.Proofs.Ty.Plain
import FlowTypes.Proofs.Ty.ReceivedLiterals
import FlowTypes.Proofs.Ty.Resolution
import FlowTypes.Proofs.Ty.Rules
import FlowTypes.Proofs.Ty.Samples
import FlowTypes.Proofs.Ty.Soundness
import FlowTypes.Proofs.Ty.Substitution
import FlowTypes.Proofs.Ty.TreeRoundTrip
import FlowTypes.Proofs.Ty.Verdicts
