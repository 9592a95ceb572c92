import Hart.Arithmetic
import Hart.Assembly.Program
import Hart.Assembly.Tokens
import Hart.Console.Command
import Hart.Console.Host
import Hart.Console.Log
import Hart.Executable.Header
import Hart.Executable.Layout
import Hart.Execution.Action
import Hart.Execution.Machine
import Hart.Execution.Processor
import Hart.Instruction.BaseSet
import Hart.Instruction.Descriptor
import Hart.Instruction.Operands
import Hart.Instruction.Table
import Hart.Main
import Hart.Memory.Access
import Hart.Memory.Basic
import Hart.Memory.ByteStore
import Hart.Memory.Page
import Hart.Register
import Hart.Text.Fields
import Hart.Text.Printing
import Hart.Text.Utf8
import Hart.Word
import Hart.Proofs.Assembly.Composition
import Hart.Proofs.Assembly.Disassembly
import Hart.Proofs.Assembly.Grammar
import Hart.Proofs.Assembly.Integers
import Hart.Proofs.Assembly.Language
import Hart.Proofs.Assembly.Literal
import Hart.Proofs.Assembly.Operands
import Hart.Proofs.Assembly.Program
import Hart.Proofs.Assembly.Readers
import Hart.Proofs.Assembly.Spans
import Hart.Proofs.Assembly.Statements
import Hart.Proofs.Assembly.Tokens
import Hart.Proofs.Console.Loading
import Hart.Proofs.Console.Run
import Hart.Proofs.Console.Services
import Hart.Proofs.Executable.Contents
import Hart.Proofs.Executable.Headers
import Hart.Proofs.Executable.Layout
import Hart.Proofs.Executable.Segments
import Hart.Proofs.Execution.Architecture
import Hart.Proofs.Execution.Budget
import Hart.Proofs.Execution.Failure
import Hart.Proofs.Execution.Preservation
import Hart.Proofs.Execution.Run
import Hart.Proofs.Execution.Session
import Hart.Proofs.Execution.Trace
import Hart.Proofs.Instruction.Dispatch
import Hart.Proofs.Instruction.Layout
import Hart.Proofs.Instruction.Pattern
import Hart.Proofs.Instruction.Reencoding
import Hart.Proofs.Instruction.RoundTrip
import Hart.Proofs.Manual.Agreement
import Hart.Proofs.Manual.Arithmetic
import Hart.Proofs.Manual.Decode
import Hart.Proofs.Manual.Fields
import Hart.Proofs.Manual.Formats
import Hart.Proofs.Manual.Interpreter
import Hart.Proofs.Manual.Machine
import Hart.Proofs.Manual.Space
import Hart.Proofs.Manual.Syntax
import Hart.Proofs.Memory.Frame
import Hart.Proofs.Memory.Image
import Hart.Proofs.Memory.Insertion
import Hart.Proofs.Memory.Layout
import Hart.Proofs.Memory.Placement
import Hart.Proofs.Memory.Preservation
import Hart.Proofs.Memory.Reads
import Hart.Proofs.Memory.Store
import Hart.Proofs.Memory.Values
import Hart.Proofs.Programs.Code
import Hart.Proofs.Programs.PrintString
import Hart.Proofs.Programs.StoreLoad
import Hart.Proofs.Text.Fields
import Hart.Proofs.Text.Lines
import Hart.Proofs.Text.Utf8
import Hart.Proofs.Word
import Hart.Proofs.Word.Extension
import Hart.Proofs.Word.Ranges
