import Hart.Assembly.Tokens
import Hart.Instruction.BaseSet
import Hart.Memory.Basic
import Hart.Text.Fields

namespace Hart.Assembly

open Text (Span)

def encodeLine (s : InstructionSet) (line : List Char) : Except LineError Word := do
  let ts := (Text.tokens line).map String.ofList
  let mnemonic := ts.headD ""
  match s.find? mnemonic with
  | none => .error (.unknownMnemonic mnemonic)
  | some d => return d.encode (← d.read ts.tail)

structure Statement where
  number : Nat
  start : Nat
  text : List Char
  deriving DecidableEq

def Statement.span (t : Statement) : Span := ⟨t.start, t.start + Text.byteLength t.text⟩

/-- The statements of lines that are numbered from `number` on, the first of which begins at byte
`start` of the source. A semicolon begins a comment, and lines without code are skipped. -/
def statementsFrom (number start : Nat) : List (List Char) → List Statement
  | [] => []
  | line :: rest =>
    let code := line.takeWhile (· != ';')
    let text := Text.trim code
    let later := statementsFrom (number + 1) (start + Text.byteLength line + 1) rest
    if text = [] then later
    else ⟨number, start + Text.byteLength (code.takeWhile Text.isBlank), text⟩ :: later

def statements (source : List Char) : List Statement := statementsFrom 1 0 (Text.lines source)

structure SourceError where
  number : Nat
  text : String
  cause : LineError
  deriving DecidableEq

def SourceError.message (e : SourceError) : String :=
  "line " ++ Numeral.decimal e.number ++ ": " ++ e.cause.message ++ ": `" ++ e.text ++ "`"

structure Line where
  number : Nat
  span : Span
  word : Word
  deriving DecidableEq

def encodeStatements (s : InstructionSet) : List Statement → List Line × Option SourceError
  | [] => ([], none)
  | t :: rest =>
    match encodeLine s t.text with
    | .error cause => ([], some ⟨t.number, String.ofList t.text, cause⟩)
    | .ok word =>
      let (lines, failure?) := encodeStatements s rest
      (⟨t.number, t.span, word⟩ :: lines, failure?)

structure Program where
  source : String
  lines : List Line
  deriving DecidableEq

namespace Program

def words (p : Program) : List Word := p.lines.map Line.word

def spans (p : Program) : List Span := p.lines.map Line.span

def bytes (p : Program) : List Byte :=
  p.words.flatMap fun w => (List.range 4).map (Word.byte w)

def lineOf? (p : Program) (i : Nat) : Option String :=
  p.lines[i]?.map fun line => line.span.slice p.source

def listing (p : Program) : String :=
  String.join (p.lines.zipIdx.map fun (line, i) =>
    Numeral.hex8 (4 * i) ++ ": " ++ Numeral.hex8 line.word.toNat ++ "  " ++ line.span.slice p.source ++ "\n")

def layOut (p : Program) (m : Memory) (ramPages : Nat) : Insertion :=
  ((m.append .zero).next fun m => m.insertImage p.bytes.toArray false).next fun m =>
    m.appendRam ramPages

def load (p : Program) (m : Memory) (ramPages : Nat) : Except MemoryError Image :=
  match p.layOut m ramPages with
  | ⟨_, some e⟩ => .error e
  | ⟨body, none⟩ =>
    match body.insert .guard with
    | .ok memory => .ok ⟨memory, BitVec.ofNat 32 (m.stop + m.pageSize), BitVec.ofNat 32 body.stop⟩
    | .error e => .error e

end Program

def assembleUntilFailure (s : InstructionSet) (source : String) : Program × Option SourceError :=
  let (lines, failure?) := encodeStatements s (statements source.toList)
  (⟨source, lines⟩, failure?)

def assemble (s : InstructionSet) (source : String) : Except SourceError Program :=
  match assembleUntilFailure s source with
  | (program, none) => .ok program
  | (_, some e) => .error e

end Hart.Assembly
