import Hart.Console.Host
import Hart.Proofs.Execution.Trace
import Hart.Proofs.Instruction.Pattern

namespace Hart

namespace Console

inductive Service
  | printInteger (value : Int)
  | printCharacter (byte : Byte)
  | exit
  | exitWith (code : Word)
  | stop
  | unknown (number : Word)

namespace Service

def ofCall (number argument : Word) : Service :=
  if number = 1#32 then .printInteger argument.toInt
  else if number = 11#32 then .printCharacter (argument.setWidth 8)
  else if number = 10#32 then .exit
  else if number = 93#32 then .exitWith argument
  else .unknown number

def output : Service → List Byte
  | .printInteger v => asciiBytes (toString v)
  | .printCharacter b => [b]
  | _ => []

def exitCode? : Service → Option Nat
  | .exit => some 0
  | .exitWith code => some (code.toNat % 256)
  | .stop => some 0
  | _ => none

def result? : Service → Option Word
  | .printInteger v => some (BitVec.ofNat 32 (toString v).length)
  | .printCharacter _ => some 1
  | .exit => some 0
  | .exitWith code => some code
  | _ => none

def answer (s : Service) (m : Machine) : Machine :=
  match s.result? with
  | some v => (m.write 10 v).advance
  | none => m.advance

def failure? (s : Service) (pc : Word) : Option Exception :=
  match s with
  | .unknown number => some (.hook pc ("unknown system call " ++ toString number.toNat))
  | _ => none

end Service

structure Serves (s : Service) (host : Host) (m : Machine) (r : Reply Host Exception) : Prop where
  output : r.host.output.toList = host.output.toList ++ s.output
  failure : r.failure? = s.failure? m.pc
  machine : r.machine = if r.failure? = none then s.answer m else m
  stop : r.stop = s.exitCode?.isSome
  exitCode : host.exitCode = 0 → ∀ code, s.exitCode? = some code → r.host.exitCode.toNat % 256 = code
  goesOn : s.exitCode? = none → r.host.exitCode = host.exitCode

variable {host : Host} {m : Machine}

theorem signed_eq_toString (v : Int) : Numeral.signed v = toString v := by
  cases v <;> rfl

theorem length_asciiBytes (s : String) : (asciiBytes s).length = s.length := by
  rw [asciiBytes, List.length_map, String.length_toList]

theorem serves_systemCall (host : Host) (m : Machine) :
    Serves (.ofCall (m.read 17) (m.read 10)) host m (systemCall.call host m) := by
  rw [Service.ofCall]
  split_ifs with h1 h11 h10 h93
  · have h : systemCall.call host m = ⟨host.write (asciiBytes (toString (m.read 10).toInt)),
        (m.write 10 (BitVec.ofNat 32 (toString (m.read 10).toInt).length)).advance, false, none⟩ := by
      simp only [Hook.call, systemCall, if_pos h1, signed_eq_toString, length_asciiBytes]
    rw [h]
    refine ⟨Array.toList_append .., rfl, rfl, rfl, fun _ code hcode => ?_, fun _ => rfl⟩
    cases hcode
  · have h : systemCall.call host m =
        ⟨host.write [(m.read 10).setWidth 8], (m.write 10 1).advance, false, none⟩ := by
      simp only [Hook.call, systemCall, if_neg h1, if_pos h11]
    rw [h]
    refine ⟨Array.toList_append .., rfl, rfl, rfl, fun _ code hcode => ?_, fun _ => rfl⟩
    cases hcode
  · have h : systemCall.call host m = ⟨host, (m.write 10 0).advance, true, none⟩ := by
      simp only [Hook.call, systemCall, if_neg h1, if_neg h11, if_pos h10]
    rw [h]
    refine ⟨(List.append_nil _).symm, rfl, rfl, rfl, fun h0 code hcode => ?_, fun hnone => ?_⟩
    · cases hcode
      rw [h0]
      rfl
    · cases hnone
  · have h : systemCall.call host m = ⟨{ host with exitCode := m.read 10 },
        (m.write 10 (m.read 10)).advance, true, none⟩ := by
      simp only [Hook.call, systemCall, if_neg h1, if_neg h11, if_neg h10, if_pos h93]
    rw [h]
    refine ⟨(List.append_nil _).symm, rfl, rfl, rfl, fun _ code hcode => ?_, fun hnone => ?_⟩
    · cases hcode
      rfl
    · cases hnone
  · have h : systemCall.call host m = ⟨host, m, false,
        some (.hook m.pc ("unknown system call " ++ toString (m.read 17).toNat))⟩ := by
      simp only [Hook.call, systemCall, if_neg h1, if_neg h11, if_neg h10, if_neg h93]
      rfl
    rw [h]
    refine ⟨(List.append_nil _).symm, rfl, rfl, rfl, fun _ code hcode => ?_, fun _ => rfl⟩
    cases hcode

theorem serves_systemBreak (host : Host) (m : Machine) :
    Serves .stop host m (systemBreak.call host m) := by
  have h : systemBreak.call host m = ⟨host, m.advance, true, none⟩ := rfl
  rw [h]
  refine ⟨(List.append_nil _).symm, rfl, rfl, rfl, fun h0 code hcode => ?_, fun hnone => ?_⟩
  · cases hcode
    rw [h0]
    rfl
  · cases hnone

end Console

open Console

theorem Machine.descriptor_mem_of_fetch {m : Machine} {s : InstructionSet} {i : Instruction}
    (h : m.fetch s = .ok i) : i.descriptor ∈ s.descriptors := by
  obtain ⟨w, _, hi⟩ := fetch_eq_ok_iff.1 h
  obtain ⟨d, hd, _, rfl⟩ := InstructionSet.decode_eq_ok_iff.1 hi
  exact hd

theorem hook?_base (hooks : Hooks σ) : ∀ d ∈ baseDescriptors, d.action.hook? hooks =
    if d.mnemonic = "ECALL" then some hooks.systemCall
    else if d.mnemonic = "EBREAK" then some hooks.systemBreak else none := by
  simp [baseDescriptors, Action.hook?]

namespace Execution

def service? (x : Execution) : Option Service :=
  if x.instruction.descriptor.mnemonic = "ECALL" then
    some (.ofCall (x.before.read 17) (x.before.read 10))
  else if x.instruction.descriptor.mnemonic = "EBREAK" then some .stop
  else none

def output (x : Execution) : List Byte := (x.service?.map Service.output).getD []

def exitCode? (x : Execution) : Option Nat := x.service?.bind Service.exitCode?

def Answered (x : Execution) : Prop := ∀ s, x.service? = some s →
  x.failure? = s.failure? x.before.pc ∧
    x.after = if x.failure? = none then s.answer x.before else x.before

end Execution

end Hart
