import Hart.Execution.Action

namespace Hart.Console

structure Host where
  output : Array Byte
  exitCode : Word

namespace Host

def initial : Host := ⟨#[], 0⟩

def write (h : Host) (bytes : List Byte) : Host := { h with output := h.output ++ bytes.toArray }

end Host

def asciiBytes (s : String) : List Byte := s.toList.map fun c => BitVec.ofNat 8 c.toNat

def systemCall : Hook Host := fun host m =>
  let number := m.read 17
  let argument := m.read 10
  let answer (host : Host) (stop : Bool) (result : Word) : Reply Host String :=
    ⟨host, m.write 10 result, stop, none⟩
  if number = 1#32 then
    let text := asciiBytes (Numeral.signed argument.toInt)
    answer (host.write text) false (BitVec.ofNat 32 text.length)
  else if number = 11#32 then answer (host.write [argument.setWidth 8]) false 1
  else if number = 10#32 then answer host true 0
  else if number = 93#32 then answer { host with exitCode := argument } true argument
  else ⟨host, m, false, some ("unknown system call " ++ Numeral.decimal number.toNat)⟩

def systemBreak : Hook Host := fun host m => ⟨host, m, true, none⟩

def hooks : Hooks Host := ⟨systemCall, systemBreak⟩

end Hart.Console
