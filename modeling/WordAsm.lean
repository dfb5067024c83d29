import WordAsm.Intake
import WordAsm.Main
import WordAsm.Proofs.Binary
import WordAsm.Proofs.Character
import WordAsm.Proofs.CommandLine
import WordAsm.Proofs.Decoder
import WordAsm.Proofs.EncodingFaults
import WordAsm.Proofs.FilledProgram
import WordAsm.Proofs.InsertedLines
import WordAsm.Proofs.LabelAddress
import WordAsm.Proofs.LabelNames
import WordAsm.Proofs.LabelOperand
import WordAsm.Proofs.LabelReading
import WordAsm.Proofs.Layout
import WordAsm.Proofs.LineByLine
import WordAsm.Proofs.LineEnds
import WordAsm.Proofs.LineFields
import WordAsm.Proofs.LinePositions
import WordAsm.Proofs.LineSearch
import WordAsm.Proofs.MachineWord
import WordAsm.Proofs.MatchPlaces
import WordAsm.Proofs.MemoryBound
import WordAsm.Proofs.Numeral
import WordAsm.Proofs.OperandForm
import WordAsm.Proofs.OperandScan
import WordAsm.Proofs.Operands
import WordAsm.Proofs.Pattern
import WordAsm.Proofs.PlainLine
import WordAsm.Proofs.ReadBack
import WordAsm.Proofs.Reading
import WordAsm.Proofs.RefusedLine
import WordAsm.Proofs.RegisterOperands
import WordAsm.Proofs.RegisterPlaces
import WordAsm.Proofs.Relocation
import WordAsm.Proofs.SettledReading
import WordAsm.Proofs.SharedTable
import WordAsm.Proofs.Source
import WordAsm.Proofs.Spacing
import WordAsm.Proofs.SplitForm
import WordAsm.Proofs.StatementFields
import WordAsm.Proofs.Trivia
import WordAsm.Proofs.TwoPass
import WordAsm.Proofs.UnrelatedLabels
import WordAsm.Proofs.Utf8
import WordAsm.Proofs.ValueFormats
import WordAsm.Proofs.WordFormat
import WordAsm.Session
