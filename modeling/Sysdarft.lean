import Sysdarft.Coding.Assembler
import Sysdarft.Coding.DecodeInstruction
import Sysdarft.Coding.Disassemble
import Sysdarft.Coding.EncodeInstruction
import Sysdarft.Coding.EncodeTarget
import Sysdarft.Coding.ExecutableFile
import Sysdarft.Coding.HeadersAndDefinitions
import Sysdarft.Coding.Linker
import Sysdarft.Coding.MainCompile
import Sysdarft.Coding.PreProcessor
import Sysdarft.Coding.SourceText
import Sysdarft.Library.Countdown
import Sysdarft.Library.Effects
import Sysdarft.Library.FlatMemory
import Sysdarft.Library.Layout
import Sysdarft.Library.LittleEndian
import Sysdarft.Library.Numerals
import Sysdarft.Library.OrderedMap
import Sysdarft.Library.Reading
import Sysdarft.Library.Regex
import Sysdarft.Library.RegexReplace
import Sysdarft.Library.Rotation
import Sysdarft.Library.Runs
import Sysdarft.Library.Text
import Sysdarft.Library.TextScreen
import Sysdarft.Library.Words
import Sysdarft.Model.Boot
import Sysdarft.Model.ClockThread
import Sysdarft.Model.Construction
import Sysdarft.Model.Debugger
import Sysdarft.Model.DebuggerOperand
import Sysdarft.Model.Decoder
import Sysdarft.Model.Executor
import Sysdarft.Model.Format
import Sysdarft.Model.IOHub
import Sysdarft.Model.InstructionSet
import Sysdarft.Model.Interruption
import Sysdarft.Model.Keyboard
import Sysdarft.Model.Machine
import Sysdarft.Model.Memory
import Sysdarft.Model.OperandTable
import Sysdarft.Model.Operations
import Sysdarft.Model.PolledBoot
import Sysdarft.Model.Register
import Sysdarft.Model.RegisterStruct
import Sysdarft.Proofs.Arithmetic
import Sysdarft.Proofs.ArithmeticFlags
import Sysdarft.Proofs.AssembledObject
import Sysdarft.Proofs.BlockMove
import Sysdarft.Proofs.BootRequests
import Sysdarft.Proofs.BootedProgram
import Sysdarft.Proofs.BreakpointDeletion
import Sysdarft.Proofs.BuildLines
import Sysdarft.Proofs.CallTarget
import Sysdarft.Proofs.ClockPeriod
import Sysdarft.Proofs.ClockTime
import Sysdarft.Proofs.CodeFetch
import Sysdarft.Proofs.CodeStream
import Sysdarft.Proofs.ConditionText
import Sysdarft.Proofs.ConditionalJumps
import Sysdarft.Proofs.ConditionalLines
import Sysdarft.Proofs.ConstantValues
import Sysdarft.Proofs.DataDirectives
import Sysdarft.Proofs.DebuggerOperand
import Sysdarft.Proofs.DebuggerStops
import Sysdarft.Proofs.DecoderAgreement
import Sysdarft.Proofs.DecoderFormat
import Sysdarft.Proofs.DecoderFrame
import Sysdarft.Proofs.DefineNames
import Sysdarft.Proofs.DeviceFaults
import Sysdarft.Proofs.DirectiveLines
import Sysdarft.Proofs.DisassemblerFormat
import Sysdarft.Proofs.Disassembly
import Sysdarft.Proofs.DispatchFaults
import Sysdarft.Proofs.Division
import Sysdarft.Proofs.DriveFiles
import Sysdarft.Proofs.EffectiveAddress
import Sysdarft.Proofs.EncodeLine
import Sysdarft.Proofs.EncodeOperand
import Sysdarft.Proofs.EncodeRegister
import Sysdarft.Proofs.EncodeTarget
import Sysdarft.Proofs.ErrorDelivery
import Sysdarft.Proofs.ErrorLines
import Sysdarft.Proofs.ExecutableFile
import Sysdarft.Proofs.FaultClasses
import Sysdarft.Proofs.FlagHistory
import Sysdarft.Proofs.GuardedHeaders
import Sysdarft.Proofs.HeaderLines
import Sysdarft.Proofs.HexadecimalNumerals
import Sysdarft.Proofs.HexadecimalTokens
import Sysdarft.Proofs.IncludeGuards
import Sysdarft.Proofs.IncludeSearch
import Sysdarft.Proofs.Interruption
import Sysdarft.Proofs.InterruptionMask
import Sysdarft.Proofs.InterruptionNumbers
import Sysdarft.Proofs.Iret
import Sysdarft.Proofs.KeyboardDelivery
import Sysdarft.Proofs.LabelAddresses
import Sysdarft.Proofs.LineFormat
import Sysdarft.Proofs.LineText
import Sysdarft.Proofs.LinkErrors
import Sysdarft.Proofs.LinkedLayout
import Sysdarft.Proofs.LoadedImage
import Sysdarft.Proofs.MachineMemory
import Sysdarft.Proofs.MemoryRange
import Sysdarft.Proofs.MemoryRefinement
import Sysdarft.Proofs.MultiWord
import Sysdarft.Proofs.OperandAccess
import Sysdarft.Proofs.OperandFrame
import Sysdarft.Proofs.PassedLines
import Sysdarft.Proofs.PolledBoot
import Sysdarft.Proofs.PortStreams
import Sysdarft.Proofs.PreciseFaults
import Sysdarft.Proofs.ProcedureFaults
import Sysdarft.Proofs.ProcedureFrame
import Sysdarft.Proofs.Reassemble
import Sysdarft.Proofs.ReassembleOperand
import Sysdarft.Proofs.RegisterAliasing
import Sysdarft.Proofs.RegisterFile
import Sysdarft.Proofs.RegisterOverlay
import Sysdarft.Proofs.Relocation
import Sysdarft.Proofs.RotateCarry
import Sysdarft.Proofs.Rotation
import Sysdarft.Proofs.Sections
import Sysdarft.Proofs.SectorRange
import Sysdarft.Proofs.Sectors
import Sysdarft.Proofs.SignedArithmetic
import Sysdarft.Proofs.SingleSubLabels
import Sysdarft.Proofs.SourceControl
import Sysdarft.Proofs.SourceInstructions
import Sysdarft.Proofs.SpelledFormat
import Sysdarft.Proofs.SpelledLines
import Sysdarft.Proofs.Spelling
import Sysdarft.Proofs.StackDiscipline
import Sysdarft.Proofs.StackSequences
import Sysdarft.Proofs.StepFaults
import Sysdarft.Proofs.StringLines
import Sysdarft.Proofs.SubLabelScope
import Sysdarft.Proofs.SubLabelText
import Sysdarft.Proofs.SymbolNames
import Sysdarft.Proofs.Teletype
import Sysdarft.Proofs.WholeWord
