import Hart.Execution.Machine

namespace Hart

structure Reply (σ ε : Type) where
  host : σ
  machine : Machine
  stop : Bool
  failure? : Option ε

abbrev Hook (σ : Type) := σ → Machine → Reply σ String

structure Hooks (σ : Type) where
  systemCall : Hook σ
  systemBreak : Hook σ

/-- Calls the host for the instruction at the program counter. A call that fails leaves the program
counter and the registers as they were. -/
def Hook.call (hook : Hook σ) (host : σ) (m : Machine) : Reply σ Exception :=
  let r := hook host m
  match r.failure? with
  | none => ⟨r.host, r.machine.advance, r.stop, none⟩
  | some text => ⟨r.host, { m with memory := r.machine.memory }, r.stop, some (.hook m.pc text)⟩

namespace Reply

def done (host : σ) (m : Machine) : Reply σ ε := ⟨host, m, false, none⟩

def failed (host : σ) (m : Machine) (e : ε) : Reply σ ε := ⟨host, m, false, some e⟩

end Reply

/-- A jump through a register reads its target before it links, and clears the lowest bit. -/
def Action.execute (hooks : Hooks σ) (host : σ) (m : Machine) :
    {f : Format} → Action f → Operands f → Reply σ Exception
  | _, .compute op, .immediate rd rs1 imm =>
    .done host (m.write rd (op.apply (m.read rs1) imm)).advance
  | _, .load width signed, .immediate rd rs1 imm =>
    match m.memory.peek width (m.read rs1 + imm) with
    | .ok raw => .done host (m.write rd (if signed then signExtend raw width.bits else raw)).advance
    | .error e => .failed host m (.memory e)
  | _, .jumpRegister, .immediate rd rs1 imm =>
    .done host { m.write rd m.nextPc with pc := (m.read rs1 + imm) &&& ~~~1#32 }
  | _, .systemCall, _ => hooks.systemCall.call host m
  | _, .systemBreak, _ => hooks.systemBreak.call host m
  | _, .branch cond, .branch rs1 rs2 imm =>
    .done host (if cond.holds (m.read rs1) (m.read rs2) then m.jump imm else m.advance)
  | _, .jump, .jump rd imm => .done host ((m.write rd m.nextPc).jump imm)
  | _, .store width, .store rs1 rs2 imm =>
    match m.memory.poke width (m.read rs1 + imm) (m.read rs2) with
    | .ok memory => .done host { m with memory }.advance
    | .error e => .failed host m (.memory e)
  | _, .loadUpper, .upper rd imm => .done host (m.write rd imm).advance
  | _, .addUpper, .upper rd imm => .done host (m.write rd (m.pc + imm)).advance

end Hart
