import GraphLowering.Interner
import GraphLowering.Package
import GraphLowering.World
import GraphLowering.Graph.Outline
import GraphLowering.Proofs.Interning
import GraphLowering.Proofs.Dispatch.Numbering
import GraphLowering.Proofs.Text.Quoted
import GraphLowering.Proofs.Text.Codes
import GraphLowering.Proofs.Literals
import GraphLowering.Proofs.Literals.Unambiguous
import GraphLowering.Proofs.Literals.Rounding
import GraphLowering.Proofs.Sinks
import GraphLowering.Proofs.Lowering.Parts
import GraphLowering.Proofs.Lowering.Statements
import GraphLowering.Proofs.Lowering.Chunks
import GraphLowering.Proofs.Dispatch.Cases
import GraphLowering.Proofs.Dispatch.Machines
import GraphLowering.Proofs.Dispatch.Simulation
import GraphLowering.Proofs.Dispatch.Endings
import GraphLowering.Proofs.Lowering.Resume
import GraphLowering.Proofs.Lowering.Renderings
import GraphLowering.Proofs.Lowering.Depth
import GraphLowering.Proofs.Lowering.Stability
import GraphLowering.Proofs.Lowering.Stores
import GraphLowering.Proofs.Lowering.Nested
import GraphLowering.Proofs.Lowering.Comments
import GraphLowering.Proofs.Lowering.Reports
import GraphLowering.Proofs.Units
import GraphLowering.Proofs.Code.Texts
import GraphLowering.Proofs.Code.Lines
import GraphLowering.Proofs.Defaults.Replay
import GraphLowering.Proofs.Defaults.Runs
import GraphLowering.Proofs.Schema.Typing
import GraphLowering.Proofs.Schema.Fields
import GraphLowering.Proofs.Defaults.Emission
import GraphLowering.Proofs.Defaults.Objects
import GraphLowering.Proofs.Defaults.Reconstruction
import GraphLowering.Proofs.Defaults.LocalNames
import GraphLowering.Proofs.Defaults.FreshNames
import GraphLowering.Proofs.Defaults.Moves
import GraphLowering.Proofs.Values
import GraphLowering.Proofs.Defaults.Traces
import GraphLowering.Proofs.Defaults.Creations
import GraphLowering.Proofs.Defaults.Constructors
import GraphLowering.Proofs.Defaults.CreationOrder
import GraphLowering.Proofs.Defaults.Reports
import GraphLowering.Proofs.Totality.Answers
import GraphLowering.Proofs.Totality.Chains
import GraphLowering.Proofs.Totality.Ranges
import GraphLowering.Proofs.Totality.Walks
import GraphLowering.Proofs.Totality.Schema
import GraphLowering.Proofs.Schema.Ownership
import GraphLowering.Proofs.Schema.Overrides
import GraphLowering.Proofs.Schema.Growth
import GraphLowering.Proofs.Literals.Defaults
import GraphLowering.Proofs.Totality.Literals
import GraphLowering.Proofs.Totality.Expressions
import GraphLowering.Proofs.Totality.Lowering
import GraphLowering.Proofs.Lowering.Guards
import GraphLowering.Proofs.Dependencies.Marks
import GraphLowering.Proofs.Dependencies.Confinement
import GraphLowering.Proofs.Dependencies.Visits
import GraphLowering.Proofs.Dependencies.Assets
import GraphLowering.Proofs.Dependencies.Header
import GraphLowering.Proofs.Totality.Dependencies
import GraphLowering.Proofs.Defaults.Includes
import GraphLowering.Proofs.Defaults.Loads
import GraphLowering.Proofs.Totality.Defaults
import GraphLowering.Proofs.Totality.Packages
import GraphLowering.Proofs.Packages
import GraphLowering.Proofs.Indentation
import GraphLowering.Proofs.Attribution
import GraphLowering.Proofs.Markers
import GraphLowering.Proofs.Blocks
import GraphLowering.Proofs.UserText
import GraphLowering.Proofs.Totality.Circles
import GraphLowering.Proofs.Rearrangement.Stores
import GraphLowering.Proofs.Rearrangement.Dependencies
import GraphLowering.Proofs.Rearrangement.Units
