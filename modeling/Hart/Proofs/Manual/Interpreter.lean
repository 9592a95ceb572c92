import Hart.Execution.Action
import Hart.Proofs.Manual.Space
import Mathlib

/-! The base instructions as the manual describes them. A word is a number whose fields are cut out by
division, registers hold numbers below 2^32, and results are reduced modulo 2^32. -/

namespace Hart.Manual

def field (w lo n : Nat) : Nat := w / 2 ^ lo % 2 ^ n

def signed (n x : Nat) : Int := if x < 2 ^ (n - 1) then x else x - 2 ^ n

def wrap (v : Int) : Nat := (v % 2 ^ 32).toNat

def register (w lo : Nat) : Fin 32 := ⟨field w lo 5, Nat.mod_lt _ (by decide)⟩

def rd (w : Nat) : Fin 32 := register w 7

def rs1 (w : Nat) : Fin 32 := register w 15

def rs2 (w : Nat) : Fin 32 := register w 20

def shamt (w : Nat) : Nat := field w 20 5

def immI (w : Nat) : Int := signed 12 (field w 20 12)

def immS (w : Nat) : Int := signed 12 (field w 25 7 * 2 ^ 5 + field w 7 5)

def immB (w : Nat) : Int :=
  signed 13 (field w 31 1 * 2 ^ 12 + field w 7 1 * 2 ^ 11 + field w 25 6 * 2 ^ 5 + field w 8 4 * 2)

def immU (w : Nat) : Nat := field w 12 20 * 2 ^ 12

def immJ (w : Nat) : Int :=
  signed 21 (field w 31 1 * 2 ^ 20 + field w 12 8 * 2 ^ 12 + field w 20 1 * 2 ^ 11 + field w 21 10 * 2)

inductive Mnemonic
  | addi
  | slti
  | sltiu
  | xori
  | ori
  | andi
  | slli
  | srli
  | srai
  | lui
  | auipc
  | jal
  | jalr
  | beq
  | bne
  | blt
  | bge
  | bltu
  | bgeu
  | lb
  | lh
  | lw
  | lbu
  | lhu
  | sb
  | sh
  | sw
  | ecall
  | ebreak
  deriving DecidableEq

def opImm? (funct3 funct7 : Nat) : Option Mnemonic :=
  match funct3 with
  | 0 => some .addi
  | 1 => if funct7 = 0 then some .slli else none
  | 2 => some .slti
  | 3 => some .sltiu
  | 4 => some .xori
  | 5 => if funct7 = 0 then some .srli else if funct7 = 0b0100000 then some .srai else none
  | 6 => some .ori
  | 7 => some .andi
  | _ => none

def branch? : (funct3 : Nat) → Option Mnemonic
  | 0 => some .beq
  | 1 => some .bne
  | 4 => some .blt
  | 5 => some .bge
  | 6 => some .bltu
  | 7 => some .bgeu
  | _ => none

def load? : (funct3 : Nat) → Option Mnemonic
  | 0 => some .lb
  | 1 => some .lh
  | 2 => some .lw
  | 4 => some .lbu
  | 5 => some .lhu
  | _ => none

def store? : (funct3 : Nat) → Option Mnemonic
  | 0 => some .sb
  | 1 => some .sh
  | 2 => some .sw
  | _ => none

def system? (funct3 funct12 : Nat) : Option Mnemonic :=
  if funct3 = 0 then
    match funct12 with
    | 0 => some .ecall
    | 1 => some .ebreak
    | _ => none
  else none

def identify? (w : Nat) : Option Mnemonic :=
  match field w 0 7 with
  | 0b0010011 => opImm? (field w 12 3) (field w 25 7)
  | 0b0110111 => some .lui
  | 0b0010111 => some .auipc
  | 0b1101111 => some .jal
  | 0b1100111 => if field w 12 3 = 0 then some .jalr else none
  | 0b1100011 => branch? (field w 12 3)
  | 0b0000011 => load? (field w 12 3)
  | 0b0100011 => store? (field w 12 3)
  | 0b1110011 => system? (field w 12 3) (field w 20 12)
  | _ => none

/-- What instructions work on. The host is a part of it, since calls change it. -/
structure State (σ : Type) where
  host : σ
  pc : Nat
  x : Fin 32 → Nat
  memory : Space

namespace State

variable {σ : Type}

def ofMachine (host : σ) (m : Machine) : State σ :=
  ⟨host, m.pc.toNat, fun r => (m.read (BitVec.ofNat 5 r)).toNat, .ofMemory m.memory⟩

def ofReply (r : Reply σ ε) : Option (State σ) :=
  match r.failure? with
  | none => some (ofMachine r.host r.machine)
  | some _ => none

def next (s : State σ) : State σ := { s with pc := (s.pc + 4) % 2 ^ 32 }

def goto (s : State σ) (target : Int) : State σ := { s with pc := wrap target }

def set (s : State σ) (r : Fin 32) (v : Nat) : State σ :=
  { s with x := fun q => if r ≠ 0 ∧ r = q then v else s.x q }

def link (s : State σ) (r : Fin 32) : State σ := s.set r ((s.pc + 4) % 2 ^ 32)

def branch (s : State σ) (taken : Prop) [Decidable taken] (offset : Int) : State σ :=
  if taken then s.goto (s.pc + offset) else s.next

def load (s : State σ) (n : Nat) (address : Int) (r : Fin 32) (extend : Nat → Int) :
    Option (State σ) :=
  (s.memory.load? n (wrap address)).map fun v => (s.set r (wrap (extend v))).next

def store (s : State σ) (n : Nat) (address : Int) (v : Nat) : Option (State σ) :=
  (s.memory.store? n (wrap address) v).map fun memory => { s with memory }.next

end State

/-- What the host makes of a state if an instruction calls it, or nothing if the call fails. -/
structure Answers (σ : Type) where
  systemCall : Option (State σ)
  systemBreak : Option (State σ)

def Answers.ofHooks (hooks : Hooks σ) (host : σ) (m : Machine) : Answers σ :=
  ⟨State.ofReply (hooks.systemCall host m), State.ofReply (hooks.systemBreak host m)⟩

def Mnemonic.execute (answers : Answers σ) (s : State σ) (w : Nat) (i : Mnemonic) : Option (State σ) :=
  let a := s.x (rs1 w)
  let b := s.x (rs2 w)
  match i with
  | .addi => some (s.set (rd w) (wrap (a + immI w))).next
  | .slti => some (s.set (rd w) (if signed 32 a < immI w then 1 else 0)).next
  | .sltiu => some (s.set (rd w) (if a < wrap (immI w) then 1 else 0)).next
  | .xori => some (s.set (rd w) (a ^^^ wrap (immI w))).next
  | .ori => some (s.set (rd w) (a ||| wrap (immI w))).next
  | .andi => some (s.set (rd w) (a &&& wrap (immI w))).next
  | .slli => some (s.set (rd w) (a * 2 ^ shamt w % 2 ^ 32)).next
  | .srli => some (s.set (rd w) (a / 2 ^ shamt w)).next
  | .srai => some (s.set (rd w) (wrap (signed 32 a / 2 ^ shamt w))).next
  | .lui => some (s.set (rd w) (immU w)).next
  | .auipc => some (s.set (rd w) ((s.pc + immU w) % 2 ^ 32)).next
  | .jal => some ((s.link (rd w)).goto (s.pc + immJ w))
  | .jalr => some ((s.link (rd w)).goto (wrap (a + immI w) / 2 * 2 : Nat))
  | .beq => some (s.branch (a = b) (immB w))
  | .bne => some (s.branch (a ≠ b) (immB w))
  | .blt => some (s.branch (signed 32 a < signed 32 b) (immB w))
  | .bge => some (s.branch (signed 32 b ≤ signed 32 a) (immB w))
  | .bltu => some (s.branch (a < b) (immB w))
  | .bgeu => some (s.branch (b ≤ a) (immB w))
  | .lb => s.load 1 (a + immI w) (rd w) (signed 8)
  | .lh => s.load 2 (a + immI w) (rd w) (signed 16)
  | .lw => s.load 4 (a + immI w) (rd w) (fun v => v)
  | .lbu => s.load 1 (a + immI w) (rd w) (fun v => v)
  | .lhu => s.load 2 (a + immI w) (rd w) (fun v => v)
  | .sb => s.store 1 (a + immS w) b
  | .sh => s.store 2 (a + immS w) b
  | .sw => s.store 4 (a + immS w) b
  | .ecall => answers.systemCall.map State.next
  | .ebreak => answers.systemBreak.map State.next

def Mnemonic.Succeeds (answers : Answers σ) (s : State σ) (w : Nat) : Mnemonic → Prop
  | .lb | .lbu | .lh | .lhu | .lw => s.memory.CanRead (wrap (s.x (rs1 w) + immI w))
  | .sb => s.memory.CanWrite 1 (wrap (s.x (rs1 w) + immS w))
  | .sh => s.memory.CanWrite 2 (wrap (s.x (rs1 w) + immS w))
  | .sw => s.memory.CanWrite 4 (wrap (s.x (rs1 w) + immS w))
  | .ecall => answers.systemCall.isSome
  | .ebreak => answers.systemBreak.isSome
  | _ => True

theorem Mnemonic.isSome_execute_iff (answers : Answers σ) (s : State σ) (w : Nat) (i : Mnemonic) :
    (i.execute answers s w).isSome ↔ i.Succeeds answers s w := by
  cases i with
  | lb | lh | lw | lbu | lhu =>
    simp only [execute, State.load, Option.isSome_map]
    exact s.memory.isSome_load?_iff _ _
  | sb | sh | sw =>
    simp only [execute, State.store, Option.isSome_map]
    exact s.memory.isSome_store?_iff _ _ _
  | ecall | ebreak => simp only [execute, Succeeds, Option.isSome_map]
  | _ => exact iff_of_true rfl trivial

def step (answers : Answers σ) (s : State σ) : Option (State σ) := do
  let w ← s.memory.load? 4 s.pc
  let i ← identify? w
  i.execute answers s w

theorem isSome_step_iff (answers : Answers σ) (s : State σ) : (step answers s).isSome ↔
    ∃ w i, s.memory.load? 4 s.pc = some w ∧ identify? w = some i ∧ i.Succeeds answers s w := by
  rw [step]
  cases hw : s.memory.load? 4 s.pc with
  | none => simp
  | some w =>
    change ((identify? w).bind _).isSome ↔ _
    cases hi : identify? w with
    | none => simp [hi]
    | some i => simp [hi, Mnemonic.isSome_execute_iff]

end Hart.Manual
