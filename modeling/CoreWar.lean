import CoreWar.Address
import CoreWar.Battle
import CoreWar.Codec.Battle
import CoreWar.Codec.Instruction
import CoreWar.Codec.Program
import CoreWar.Codec.Settings
import CoreWar.CommandLine
import CoreWar.CommandLine.Arguments
import CoreWar.CommandLine.Folder
import CoreWar.Core
import CoreWar.Execution
import CoreWar.Expression
import CoreWar.Image
import CoreWar.Instruction
import CoreWar.Json.Numeral
import CoreWar.Json.Printer
import CoreWar.Json.Record
import CoreWar.Json.Token
import CoreWar.Json.Value
import CoreWar.Loading
import CoreWar.Log
import CoreWar.Log.Quoted
import CoreWar.Main
import CoreWar.Operand
import CoreWar.Placement
import CoreWar.Placement.Generator
import CoreWar.ProcessQueue
import CoreWar.Program
import CoreWar.Proofs.Arena
import CoreWar.Proofs.Ideal
import CoreWar.Proofs.Refinement
import CoreWar.Proofs.Ring
import CoreWar.Proofs.RoundRobin
import CoreWar.Proofs.Rounds
import CoreWar.Proofs.Soundness
import CoreWar.Proofs.Stepping
import CoreWar.Proofs.Succession
import CoreWar.Proofs.Verdicts
import CoreWar.Proofs.Words
import CoreWar.Settings
import CoreWar.SymbolTable
import CoreWar.Text.Extending
import CoreWar.Text.Hidden
import CoreWar.Text.Range
import CoreWar.Text.Unassigned
import CoreWar.Warrior
import CoreWar.Proofs.Fifo
import CoreWar.Proofs.Shapes
import CoreWar.Proofs.Meaning
import CoreWar.Proofs.Rotation
import CoreWar.Proofs.Linking
import CoreWar.Proofs.LoadedCells
import CoreWar.Proofs.Eliminations
import CoreWar.Proofs.Limits
import CoreWar.Proofs.Relocation
import CoreWar.Proofs.Json.Lexing
import CoreWar.Proofs.Json.Values
import CoreWar.Proofs.Json.Records
import CoreWar.Proofs.ProgramTexts
import CoreWar.Proofs.Overlaps
import CoreWar.Proofs.Spacing
import CoreWar.Proofs.CellCounts
import CoreWar.Proofs.Incidents
import CoreWar.Proofs.Frame
import CoreWar.Proofs.LinkFaults
import CoreWar.Proofs.LoadErrors
import CoreWar.Proofs.Landing
import CoreWar.Proofs.Inlining
import CoreWar.Proofs.Parallel
import CoreWar.Proofs.Renaming
import CoreWar.Proofs.Erasure
import CoreWar.Proofs.Endings
import CoreWar.Proofs.Independence
import CoreWar.Proofs.Imp
import CoreWar.Proofs.Dwarf
import CoreWar.Proofs.SettingsTexts
import CoreWar.Proofs.StateTexts
import CoreWar.Proofs.LoneProcess
import CoreWar.Proofs.Bindings
import CoreWar.Proofs.Boundary
import CoreWar.Proofs.Evaluation
import CoreWar.Proofs.Overflow
import CoreWar.Proofs.InstructionTexts
