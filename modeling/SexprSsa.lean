import SexprSsa.CommandLine.Arguments
import SexprSsa.CommandLine.Command
import SexprSsa.CommandLine.Directory
import SexprSsa.CommandLine.Execute
import SexprSsa.CommandLine.Files
import SexprSsa.Compile.Error
import SexprSsa.Compile.Form
import SexprSsa.Compile.Lower
import SexprSsa.Compile.Options
import SexprSsa.Compile.Program
import SexprSsa.Compile.Scope
import SexprSsa.Data.Table
import SexprSsa.Ir.Body
import SexprSsa.Ir.Builder
import SexprSsa.Ir.Codec.Instr
import SexprSsa.Ir.Codec.ListingStyle
import SexprSsa.Ir.Codec.Module
import SexprSsa.Ir.Codec.Operand
import SexprSsa.Ir.Error
import SexprSsa.Ir.Instr
import SexprSsa.Ir.Listing
import SexprSsa.Ir.ListingStyle
import SexprSsa.Ir.Module
import SexprSsa.Ir.Operand
import SexprSsa.Ir.Type
import SexprSsa.Ir.Verify
import SexprSsa.Json.Basic
import SexprSsa.Json.Decode
import SexprSsa.Json.Escape
import SexprSsa.Json.Reader
import SexprSsa.Json.Writer
import SexprSsa.Machine.Fault
import SexprSsa.Machine.Print
import SexprSsa.Machine.Run
import SexprSsa.Machine.Step
import SexprSsa.Machine.Value
import SexprSsa.Main
import SexprSsa.Source.Codec
import SexprSsa.Source.Escape
import SexprSsa.Source.Reader
import SexprSsa.Source.Token
import SexprSsa.Source.Tree
import SexprSsa.Text.Excerpt
import SexprSsa.Text.Quoted
import SexprSsa.Text.Styled
import SexprSsa.Text.Unprintable
import SexprSsa.Proofs.Acceptance
import SexprSsa.Proofs.Agreement
import SexprSsa.Proofs.Assignment
import SexprSsa.Proofs.Branching
import SexprSsa.Proofs.Correctness
import SexprSsa.Proofs.Dominance
import SexprSsa.Proofs.Draft
import SexprSsa.Proofs.DraftOperations
import SexprSsa.Proofs.Effects
import SexprSsa.Proofs.Evaluator
import SexprSsa.Proofs.Finished
import SexprSsa.Proofs.Flow
import SexprSsa.Proofs.FormEvaluator
import SexprSsa.Proofs.Forms
import SexprSsa.Proofs.Growth
import SexprSsa.Proofs.Lowering
import SexprSsa.Proofs.Runs
import SexprSsa.Proofs.Simulation
import SexprSsa.Proofs.SimulationForms
import SexprSsa.Proofs.SoundDraft
import SexprSsa.Proofs.Steps
import SexprSsa.Proofs.WellFormed
import SexprSsa.Proofs.Grammar
import SexprSsa.Proofs.TokenRow
import SexprSsa.Proofs.Printing
import SexprSsa.Proofs.JsonLayout
import SexprSsa.Proofs.JsonCodec
import SexprSsa.Proofs.InstrCodec
import SexprSsa.Proofs.Persistence
import SexprSsa.Proofs.Construction
import SexprSsa.Proofs.Checked
import SexprSsa.Proofs.VerifiedRuns
import SexprSsa.Proofs.Control
import SexprSsa.Proofs.Coverage
import SexprSsa.Proofs.EntryPhis
import SexprSsa.Proofs.Simultaneous
import SexprSsa.Proofs.PhiOrder
import SexprSsa.Proofs.Representation
import SexprSsa.Proofs.StepLimit
import SexprSsa.Proofs.Cursors
import SexprSsa.Proofs.Places
import SexprSsa.Proofs.Allocations
import SexprSsa.Proofs.BlockOrder
import SexprSsa.Proofs.Descent
import SexprSsa.Proofs.ControlShape
import SexprSsa.Proofs.Formats
import SexprSsa.Proofs.Echo
import SexprSsa.Proofs.Renaming
import SexprSsa.Proofs.RenamedLowering
import SexprSsa.Proofs.Legible
import SexprSsa.Proofs.LegibleListing
import SexprSsa.Proofs.Snapshot
import SexprSsa.Proofs.ProgramTexts
import SexprSsa.Proofs.SyntaxErrors
import SexprSsa.Proofs.ModuleTables
import SexprSsa.Proofs.StrictTypes
import SexprSsa.Proofs.Refusals
import SexprSsa.Proofs.Layouts
import SexprSsa.Proofs.Literals
import SexprSsa.Proofs.Marks
import SexprSsa.Proofs.Slots
import SexprSsa.Proofs.Relocation
import SexprSsa.Proofs.Conversions
import SexprSsa.Proofs.Renditions
import SexprSsa.Proofs.Scoping
import SexprSsa.Proofs.FormSteps
