import QuestScript.CommandLine.FileStore
import QuestScript.CommandLine.Run
import QuestScript.Config.Read
import QuestScript.Flow.Stack
import QuestScript.Instruction.Decode
import QuestScript.Listing
import QuestScript.Main
import QuestScript.Parse
import QuestScript.Proofs.Bytes.Reader
import QuestScript.Proofs.Bytes.Words
import QuestScript.Proofs.Discovery.Answer
import QuestScript.Proofs.Discovery.Closure
import QuestScript.Proofs.Discovery.Decoding
import QuestScript.Proofs.Discovery.Harvest
import QuestScript.Proofs.Discovery.History
import QuestScript.Proofs.Discovery.Invariant
import QuestScript.Proofs.Discovery.Order
import QuestScript.Proofs.Discovery.Progress
import QuestScript.Proofs.Discovery.Replay
import QuestScript.Proofs.Discovery.Step
import QuestScript.Proofs.Discovery.Visit
import QuestScript.Proofs.Instruction.Code
import QuestScript.Proofs.Instruction.RoundTrip
import QuestScript.Proofs.Instruction.Spelling
import QuestScript.Proofs.Instruction.WellTyped
import QuestScript.Proofs.Label
import QuestScript.Proofs.Label.Agreement
import QuestScript.Proofs.Opcode
import QuestScript.Proofs.Parse.Extent
import QuestScript.Proofs.Parse.Faithful
import QuestScript.Proofs.Parse.Labels
import QuestScript.Proofs.Parse.RoundTrip
import QuestScript.Proofs.Parse.Tiling
import QuestScript.Proofs.Parse.Written
import QuestScript.Proofs.Script.LabelTable
import QuestScript.Proofs.Script.Size
import QuestScript.Proofs.Steps
import QuestScript.Proofs.Text.Field
import QuestScript.Proofs.Text.Utf16
import QuestScript.Proofs.Text.Width
import QuestScript.Proofs.ValueSet.Canonical
import QuestScript.Script.Encode
import QuestScript.Proofs.ValueSet.Arithmetic
import QuestScript.Proofs.Flow.Execution
import QuestScript.Proofs.Flow.Register
import QuestScript.Proofs.Discovery.Loops
import QuestScript.Proofs.Flow.Levels
import QuestScript.Proofs.Parse.Termination
import QuestScript.Proofs.Discovery.Failure
import QuestScript.Proofs.Parse.Outcome
import QuestScript.Proofs.Discovery.LastHarvest
import QuestScript.Proofs.ValueSet.Built
import QuestScript.Proofs.ValueSet.Values
import QuestScript.Proofs.ValueSet.Product
import QuestScript.Proofs.Flow.Calls
import QuestScript.Proofs.Flow.Stack
import QuestScript.Proofs.Flow.Arguments
import QuestScript.Proofs.Flow.Declared
import QuestScript.Proofs.Flow.Edges
import QuestScript.Proofs.Flow.Blocks
import QuestScript.Proofs.Classify
import QuestScript.Proofs.Instruction.Consumption
import QuestScript.Proofs.Script.Layout
import QuestScript.Proofs.Text.Blank
import QuestScript.Proofs.Param.Pieces
import QuestScript.Proofs.Param.Grammar
import QuestScript.Proofs.Config
import QuestScript.Proofs.Instruction.Presence
import QuestScript.Proofs.Script.Parts
import QuestScript.Proofs.Listing.Offsets
import QuestScript.Proofs.Csv
import QuestScript.Proofs.Classify.Heuristics
import QuestScript.Proofs.Listing.Records
import QuestScript.Proofs.Script.Texts
