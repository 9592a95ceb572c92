import Hart.Assembly.Program
import Hart.Proofs.Execution.Run
import Hart.Proofs.Memory.Insertion
import Hart.Proofs.Memory.Store

/-! A program that prints a string. It stands on the code page and calls the host for each byte of the
data page in turn; at a zero byte it jumps to the guard page behind the data, and without one it runs into
that page with its load. -/

namespace Hart.PrintString

def source : String := "
    LUI x1 8192         ; string at the data page
    ADDI x1 x1 0
    LBU x2 x1 0         ; loop:
    BEQ x2 x0 16        ; -> done
    ECALL
    ADDI x1 x1 1
    JAL x0 -16          ; -> loop
    LUI x3 12288        ; done: jump to the guard page
    JALR x0 x3 0
"

def layout (code data : List Byte) : Except MemoryError Memory :=
  [.zero, .image (.ofArray code.toArray), .ram (.ofArray data.toArray), .guard].foldlM Memory.insert
    (.empty 4096 (by decide))

def record : Hook (List Byte) := fun log m => ⟨log ++ [(m.read 2).setWidth 8], m, false, none⟩

def instructions : List Instruction :=
  [ ⟨0x000020b7, ⟨"LUI", .lui, .none, .loadUpper⟩, .upper 1 8192⟩,
    ⟨0x00008093, ⟨"ADDI", .opImm, .funct3 0, .compute .add⟩, .immediate 1 1 0⟩,
    ⟨0x0000c103, ⟨"LBU", .load, .funct3 4, .load .byte false⟩, .immediate 2 1 0⟩,
    ⟨0x00010863, ⟨"BEQ", .branch, .funct3 0, .branch .eq⟩, .branch 2 0 16⟩,
    ⟨0x00000073, ⟨"ECALL", .system, .funct3Funct12 0 0, .systemCall⟩, .immediate 0 0 0⟩,
    ⟨0x00108093, ⟨"ADDI", .opImm, .funct3 0, .compute .add⟩, .immediate 1 1 1⟩,
    ⟨0xff1ff06f, ⟨"JAL", .jal, .none, .jump⟩, .jump 0 (-16)⟩,
    ⟨0x000031b7, ⟨"LUI", .lui, .none, .loadUpper⟩, .upper 3 12288⟩,
    ⟨0x00018067, ⟨"JALR", .jalr, .funct3 0, .jumpRegister⟩, .immediate 0 3 0⟩ ]

def words : List Word := instructions.map Instruction.word

def code : List Byte := words.flatMap fun w => (List.range 4).map w.byte

set_option maxRecDepth 4096 in
theorem assemble_source :
    ∃ program, Assembly.assemble .base source = .ok program ∧ program.bytes = code := by
  -- A list of characters evaluates faster than a string that is taken apart.
  have hchars : source.toList = _ := String.toList_ofList
  have h : (Assembly.assemble .base source).toOption.map Assembly.Program.words = some words := by
    rw [Assembly.assemble, Assembly.assembleUntilFailure, hchars]
    decide +kernel
  cases hp : Assembly.assemble .base source with
  | error e =>
    rw [hp] at h
    cases h
  | ok program =>
    rw [hp] at h
    refine ⟨program, rfl, ?_⟩
    rw [Assembly.Program.bytes, Option.some.inj h]
    rfl

theorem decode_instructions : ∀ k : Fin 9,
    InstructionSet.base.decode instructions[k].word = .ok instructions[k]
  | 0 | 1 | 2 | 3 | 4 | 5 | 6 | 7 | 8 => rfl

def Loaded (data : List Byte) (m : Memory) : Prop :=
  (Memory.empty 4096 (by decide)).Extends
    [.zero, .image (.ofArray code.toArray), .ram (.ofArray data.toArray), .guard] m

variable {data rest tail log log' : List Byte} {m : Memory} {j n : Nat} {pc pc' : Word}
  {f f' : RegisterFile} {onBreak : Hook (List Byte)}

theorem layout_code (h : data.length ≤ 4096) :
    ∃ m, layout code data = .ok m ∧ Loaded data m := by
  refine (Memory.wellFormed_empty 4096 (by decide)).foldlM_insert_of_fits (fun s hs => ?_)
    (show (0 + 4) * 4096 ≤ Memory.addressSpace by decide)
  rw [Memory.pageSize_empty]
  rcases List.mem_cons.1 hs with rfl | hs
  · decide
  rcases List.mem_cons.1 hs with rfl | hs
  · decide
  rcases List.mem_cons.1 hs with rfl | hs
  · exact h
  · rw [List.mem_singleton.1 hs]
    decide

def running (onBreak : Hook (List Byte)) (m : Memory) (log : List Byte) (pc : Word)
    (f : RegisterFile) (n : Nat) : Processor (List Byte) :=
  ⟨.base, ⟨record, onBreak⟩, log, ⟨pc, f, m⟩, .running, none, n, false⟩

theorem not_halted_running :
    (running onBreak m log pc f n).checkStop.status ≠ .halted := by
  intro h
  cases h

def trapped (onBreak : Hook (List Byte)) (m : Memory) (log : List Byte) (pc : Word)
    (f : RegisterFile) (n : Nat) : Processor (List Byte) :=
  (running onBreak m log pc f n).raise (.memory (.guardPage 12288 .read))

structure Head (f : RegisterFile) (j : Nat) : Prop where
  zero : f.read 0#5 = 0#32
  pointer : f.read 1#5 = BitVec.ofNat 32 (8192 + j)

theorem Head.load (hf : Head f j) (v : Word) : Head (f.write 2 v) j where
  zero := by simp [RegisterFile.read_write, hf.zero]
  pointer := by simp [RegisterFile.read_write, hf.pointer]

theorem Head.next (hf : Head f j) : Head (f.write 1 (f.read 1 + 1)) (j + 1) where
  zero := by simp [RegisterFile.read_write, hf.zero]
  pointer := by simp [RegisterFile.read_write, hf.pointer, BitVec.ofNat_add, BitVec.add_assoc]

namespace Loaded

theorem peek_code (hm : Loaded data m) (k : Fin 9) :
    m.peek .word (BitVec.ofNat 32 (4096 + 4 * k)) = .ok instructions[k].word := by
  have hk : (BitVec.ofNat 32 (4096 + 4 * k)).toNat / 4096 = 1 := by
    decide +revert
  rw [hm.peek_of_empty (s := .image (.ofArray code.toArray)) (by rw [hk]; rfl)]
  decide +revert +kernel

theorem peek_data (hm : Loaded data m) (hj : j < 4096) :
    m.peek .byte (BitVec.ofNat 32 (8192 + j)) = .ok ((data.getD j 0).setWidth 32) := by
  have ha : (BitVec.ofNat 32 (8192 + j)).toNat = 8192 + j := by
    rw [BitVec.toNat_ofNat]
    omega
  have hpage : (8192 + j) / 4096 = 2 := by omega
  have hoffset : (8192 + j) % 4096 = j := by omega
  rw [hm.peek_of_empty (s := .ram (.ofArray data.toArray)) (by rw [ha, hpage]; rfl), ha, hoffset,
    Storage.peek, ByteStore.read_byte, ByteStore.get_ofArray, List.getElem?_toArray,
    List.getD_eq_getElem?_getD]
  split
  · rfl
  · next h =>
    rw [List.getElem?_eq_none (Nat.not_lt.1 h)]
    rfl

theorem peek_guard (hm : Loaded data m) (w : Width) :
    m.peek w 12288 = .error (.guardPage 12288 .read) :=
  hm.peek_of_empty (s := .guard) rfl w

theorem fetch_code (hm : Loaded data m) (k : Fin 9) :
    (Machine.mk (BitVec.ofNat 32 (4096 + 4 * k)) f m).fetch .base = .ok instructions[k] :=
  Machine.fetch_eq_ok (hm.peek_code k) (decode_instructions k)

theorem step_running (hm : Loaded data m) (k : Fin 9) :
    (running onBreak m log (BitVec.ofNat 32 (4096 + 4 * k)) f n).step =
      (running onBreak m log (BitVec.ofNat 32 (4096 + 4 * k)) f n).accept
        (instructions[k].descriptor.action.execute ⟨record, onBreak⟩ log
          ⟨BitVec.ofNat 32 (4096 + 4 * k), f, m⟩ instructions[k].operands) :=
  Processor.step_of_fetch_ok rfl (hm.fetch_code k)

theorem run_done (hm : Loaded data m) (k : Fin 9)
    (hx : instructions[k].descriptor.action.execute ⟨record, onBreak⟩ log
      ⟨BitVec.ofNat 32 (4096 + 4 * k), f, m⟩ instructions[k].operands = .done log' ⟨pc', f', m⟩) :
    (running onBreak m log (BitVec.ofNat 32 (4096 + 4 * k)) f n).run =
      (running onBreak m log' pc' f' (n + 1)).run := by
  have hstep : (running onBreak m log _ f n).step = _ := hm.step_running k
  rw [hx] at hstep
  exact Processor.run_of_ok not_halted_running hstep

theorem run_setup (hm : Loaded data m) (onBreak : Hook (List Byte)) : ∃ f, Head f 0 ∧
    (running onBreak m [] 4096 .zero 0).run = (running onBreak m [] 4104 f 2).run := by
  let f := RegisterFile.zero.write 1 8192
  have hlui : (running onBreak m [] 4096 .zero 0).run = (running onBreak m [] 4100 f 1).run :=
    hm.run_done 0 rfl
  have haddi : (running onBreak m [] 4100 f 1).run =
      (running onBreak m [] 4104 (f.write 1 (f.read 1 + 0)) 2).run := hm.run_done 1 rfl
  refine ⟨_, ⟨?_, ?_⟩, hlui.trans haddi⟩
  · simp [f, RegisterFile.read_write]
  · simp [f, RegisterFile.read_write]

theorem run_load (hm : Loaded data m) (hf : Head f j) (hj : j < 4096) :
    (running onBreak m log 4104 f n).run =
      (running onBreak m log 4108 (f.write 2 ((data.getD j 0).setWidth 32)) (n + 1)).run := by
  have hpeek : m.peek .byte ((Machine.mk 4104 f m).read 1 + 0) = .ok ((data.getD j 0).setWidth 32) := by
    rw [← hm.peek_data hj, ← hf.pointer]
    exact congrArg _ (BitVec.add_zero _)
  have hx : Action.execute ⟨record, onBreak⟩ log ⟨4104, f, m⟩ (.load .byte false)
      (.immediate 2 1 0) = .done log ⟨4108, f.write 2 ((data.getD j 0).setWidth 32), m⟩ := by
    rw [Action.execute, hpeek]
    rfl
  exact hm.run_done 2 hx

theorem run_load_guard (hm : Loaded data m) (hf : Head f 4096) :
    (running onBreak m log 4104 f n).run =
      some (.error (.memory (.guardPage 12288 .read)), trapped onBreak m log 4104 f n) := by
  have hpeek : m.peek .byte ((Machine.mk 4104 f m).read 1 + 0) = .error (.guardPage 12288 .read) := by
    rw [← hm.peek_guard .byte]
    exact congrArg _ ((BitVec.add_zero _).trans hf.pointer)
  have hx : Action.execute ⟨record, onBreak⟩ log ⟨4104, f, m⟩ (.load .byte false)
      (.immediate 2 1 0) = .failed log ⟨4104, f, m⟩ (.memory (.guardPage 12288 .read)) := by
    rw [Action.execute, hpeek]
  have hstep : (running onBreak m log 4104 f n).step = _ := hm.step_running 2
  exact Processor.run_of_error not_halted_running
    (hstep.trans (congrArg (Processor.accept _) hx))

theorem run_done_jump (hm : Loaded data m) (onBreak : Hook (List Byte)) (log : List Byte)
    (f : RegisterFile) (n : Nat) : ∃ f',
    (running onBreak m log 4124 f n).run =
      some (.error (.memory (.guardPage 12288 .read)), trapped onBreak m log 12288 f' (n + 2)) := by
  have hlui : (running onBreak m log 4124 f n).run =
      (running onBreak m log 4128 (f.write 3 12288) (n + 1)).run := hm.run_done 7 rfl
  have hjalr : (running onBreak m log 4128 (f.write 3 12288) (n + 1)).run =
      (running onBreak m log 12288 (f.write 3 12288) (n + 2)).run := by
    refine hm.run_done 8 ?_
    change Reply.done log ⟨((f.write 3 12288).read 3 + 0#32) &&& ~~~1#32, _, m⟩ = _
    rw [RegisterFile.read_write, if_pos (by decide)]
    rfl
  have hfetch : (running onBreak m log 12288 (f.write 3 12288) (n + 2)).machine.fetch .base =
      .error (.memory (.guardPage 12288 .read)) :=
    Machine.fetch_of_peek_error (hm.peek_guard .word)
  exact ⟨_, hlui.trans (hjalr.trans (Processor.run_of_error not_halted_running
    (Processor.step_of_fetch_error rfl hfetch)))⟩

theorem run_branch (hm : Loaded data m) :
    (running onBreak m log 4108 f n).run =
      (running onBreak m log (if f.read 2 = f.read 0 then 4124 else 4112) f (n + 1)).run := by
  refine hm.run_done 3 ?_
  change Reply.done log (if f.read 2 == f.read 0 then _ else _) = _
  by_cases h : f.read 2 = f.read 0
  · rw [if_pos h, if_pos (beq_iff_eq.2 h)]
    rfl
  · rw [if_neg h, if_neg (mt beq_iff_eq.1 h)]
    rfl

theorem run_back (hm : Loaded data m) :
    (running onBreak m log 4120 f n).run = (running onBreak m log 4104 f (n + 1)).run := by
  have hpc : 4120#32 + -16 = 4104 := by decide
  refine hm.run_done 6 ?_
  change Reply.done log ⟨4120#32 + -16, f, m⟩ = _
  rw [hpc]

theorem run_zero (hm : Loaded data m) (onBreak : Hook (List Byte)) (log : List Byte) (n : Nat)
    (hf : Head f j) (hj : j < 4096) (h : data.getD j 0 = 0) : ∃ f',
    (running onBreak m log 4104 f n).run =
      some (.error (.memory (.guardPage 12288 .read)), trapped onBreak m log 12288 f' (n + 4)) := by
  let f₁ := f.write 2 ((data.getD j 0).setWidth 32)
  have h0 : f₁.read 0 = 0 := (hf.load _).zero
  have heq : f₁.read 2 = f₁.read 0 := by
    rw [h0, RegisterFile.read_write, if_pos (by decide), h]
    rfl
  have hbranch : (running onBreak m log 4108 f₁ (n + 1)).run = _ := hm.run_branch
  rw [if_pos heq] at hbranch
  obtain ⟨f', hend⟩ := hm.run_done_jump onBreak log f₁ (n + 2)
  exact ⟨f', (hm.run_load hf hj).trans (hbranch.trans hend)⟩

theorem run_byte (hm : Loaded data m) (onBreak : Hook (List Byte)) (log : List Byte) (n : Nat)
    (hf : Head f j) (hj : j < 4096) (h : data.getD j 0 ≠ 0) :
    ∃ f', Head f' (j + 1) ∧ (running onBreak m log 4104 f n).run =
      (running onBreak m (log ++ [data.getD j 0]) 4104 f' (n + 5)).run := by
  let f₁ := f.write 2 ((data.getD j 0).setWidth 32)
  let log₁ := log ++ [data.getD j 0]
  have hbyte : (f₁.read 2).setWidth 8 = data.getD j 0 := by
    simp [f₁, RegisterFile.read_write]
  have h0 : f₁.read 0 = 0 := (hf.load _).zero
  have hne : f₁.read 2 ≠ f₁.read 0 := by
    intro heq
    rw [heq, h0] at hbyte
    exact h hbyte.symm
  have hbranch : (running onBreak m log 4108 f₁ (n + 1)).run = _ := hm.run_branch
  rw [if_neg hne] at hbranch
  have hcall : (running onBreak m log 4112 f₁ (n + 2)).run =
      (running onBreak m log₁ 4116 f₁ (n + 3)).run := by
    refine hm.run_done 4 ?_
    change Reply.done (log ++ [(f₁.read 2).setWidth 8]) _ = _
    rw [hbyte]
    rfl
  have hnext : (running onBreak m log₁ 4116 f₁ (n + 3)).run =
      (running onBreak m log₁ 4120 (f₁.write 1 (f₁.read 1 + 1)) (n + 4)).run := hm.run_done 5 rfl
  refine ⟨f₁.write 1 (f₁.read 1 + 1), (hf.load _).next, ?_⟩
  calc (running onBreak m log 4104 f n).run
    _ = (running onBreak m log 4108 f₁ (n + 1)).run := hm.run_load hf hj
    _ = (running onBreak m log 4112 f₁ (n + 2)).run := hbranch
    _ = (running onBreak m log₁ 4116 f₁ (n + 3)).run := hcall
    _ = (running onBreak m log₁ 4120 (f₁.write 1 (f₁.read 1 + 1)) (n + 4)).run := hnext
    _ = (running onBreak m log₁ 4104 (f₁.write 1 (f₁.read 1 + 1)) (n + 5)).run := hm.run_back

theorem run_bytes (hm : Loaded data m) (hlen : data.length ≤ 4096) (onBreak : Hook (List Byte))
    (hdata : data = log ++ rest ++ tail) (hne : ∀ b ∈ rest, b ≠ 0) (hf : Head f log.length) (n : Nat) :
    ∃ f', Head f' (log ++ rest).length ∧ (running onBreak m log 4104 f n).run =
      (running onBreak m (log ++ rest) 4104 f' (n + 5 * rest.length)).run := by
  induction rest generalizing log f n with
  | nil => exact ⟨f, by rwa [List.append_nil], by rw [List.append_nil]; rfl⟩
  | cons b rest ih =>
    have hb : data.getD log.length 0 = b := by
      simp [hdata]
    have hj : log.length < 4096 := by
      rw [hdata] at hlen
      simp only [List.length_append, List.length_cons] at hlen
      omega
    have hlog : log ++ b :: rest = log ++ [b] ++ rest := by
      rw [List.append_assoc]
      rfl
    rw [hlog] at hdata
    obtain ⟨f₁, hf₁, hbyte⟩ :=
      hm.run_byte onBreak log n hf hj (hb ▸ hne b (List.mem_cons_self ..))
    obtain ⟨f', hf', hrest⟩ := ih hdata (fun c hc => hne c (List.mem_cons_of_mem _ hc))
      (by rw [List.length_append]; exact hf₁) (n + 5)
    refine ⟨f', by rw [hlog]; exact hf', ?_⟩
    rw [hbyte, hb, hrest, hlog, List.length_cons, Nat.mul_succ, Nat.add_comm (5 * _), ← Nat.add_assoc]

theorem run_start {s : List Byte} (hm : Loaded data m) (hlen : data.length ≤ 4096)
    (onBreak : Hook (List Byte)) (hdata : data = s ++ tail) (hs : ∀ b ∈ s, b ≠ 0) :
    ∃ f, Head f s.length ∧
      (Processor.start .base ⟨record, onBreak⟩ [] ⟨4096, .zero, m⟩).run =
        (running onBreak m s 4104 f (2 + 5 * s.length)).run := by
  obtain ⟨f, hf, hsetup⟩ := hm.run_setup onBreak
  have hdata' : data = [] ++ s ++ tail := hdata
  obtain ⟨f', hf', hbytes⟩ := hm.run_bytes hlen onBreak hdata' hs hf 2
  exact ⟨f', hf', hsetup.trans hbytes⟩

end Loaded

/-- Assembled and put on the code page, the program calls the host once for each byte in front of the
first zero byte, in order, and then fails with a read from the guard page: at the jump there, or at the
load if the whole data page has no zero byte. -/
theorem run_source (s : List Byte) (hs : ∀ b ∈ s, b ≠ 0) (onBreak : Hook (List Byte)) :
    ∃ program, Assembly.assemble .base source = .ok program ∧
      (s.length ≤ 4095 → ∀ data, data = s ∨ data = s ++ [0] → ∃ m q,
        layout program.bytes data = .ok m ∧
        (Processor.start .base ⟨record, onBreak⟩ [] ⟨4096, .zero, m⟩).run =
          some (.error (.memory (.guardPage 12288 .read)), q) ∧
        q.host = s ∧ q.status = .faulted ∧ q.pc = 12288 ∧ q.steps = 6 + 5 * s.length) ∧
      (s.length = 4096 → ∃ m q,
        layout program.bytes s = .ok m ∧
        (Processor.start .base ⟨record, onBreak⟩ [] ⟨4096, .zero, m⟩).run =
          some (.error (.memory (.guardPage 12288 .read)), q) ∧
        q.host = s ∧ q.status = .faulted ∧ q.pc = 4104 ∧ q.steps = 2 + 5 * s.length ∧
        (q.machine.fetch q.table).map Instruction.text = .ok "LBU x2 x1 0") := by
  obtain ⟨program, hp, hcode⟩ := assemble_source
  refine ⟨program, hp, fun hlen data hdata => ?short, fun hlen => ?full⟩
  all_goals rw [hcode]
  case short =>
    obtain ⟨tail, rfl, htail, hzero⟩ :
        ∃ tail, data = s ++ tail ∧ tail.length ≤ 1 ∧ tail.getD 0 0 = 0 := by
      rcases hdata with rfl | rfl
      · exact ⟨[], (List.append_nil _).symm, Nat.zero_le _, rfl⟩
      · exact ⟨[0], rfl, Nat.le_refl _, rfl⟩
    have hroom : (s ++ tail).length ≤ 4096 := by
      rw [List.length_append]
      omega
    obtain ⟨m, hlayout, hm⟩ := layout_code hroom
    obtain ⟨f, hf, hstart⟩ := hm.run_start hroom onBreak rfl hs
    have hend : (s ++ tail).getD s.length 0 = 0 := by
      rw [List.getD_append_right _ _ _ _ (Nat.le_refl _), Nat.sub_self, hzero]
    obtain ⟨f', hrun⟩ := hm.run_zero onBreak s (2 + 5 * s.length) hf (by omega) hend
    refine ⟨m, _, hlayout, hstart.trans hrun, rfl, rfl, rfl, ?_⟩
    change 2 + 5 * s.length + 4 = _
    omega
  case full =>
    obtain ⟨m, hlayout, hm⟩ := layout_code hlen.le
    obtain ⟨f, hf, hstart⟩ := hm.run_start hlen.le onBreak (List.append_nil s).symm hs
    rw [hlen] at hf
    refine ⟨m, _, hlayout, hstart.trans (hm.run_load_guard hf), rfl, rfl, rfl, rfl, ?_⟩
    exact congrArg (Except.map Instruction.text) (hm.fetch_code 2)

theorem run_source_hi : ∃ program m q, Assembly.assemble .base source = .ok program ∧
    layout program.bytes [0x68, 0x69, 0] = .ok m ∧
    (Processor.start .base ⟨record, record⟩ [] ⟨4096, .zero, m⟩).run =
      some (.error (.memory (.guardPage 12288 .read)), q) ∧
    q.host = [0x68, 0x69] ∧ q.steps = 16 := by
  obtain ⟨program, hp, hshort, _⟩ := run_source [0x68, 0x69] (by decide) record
  obtain ⟨m, q, hlayout, hrun, hhost, _, _, hsteps⟩ :=
    hshort (by decide) [0x68, 0x69, 0] (.inr rfl)
  exact ⟨program, m, q, hp, hlayout, hrun, hhost, hsteps⟩

end Hart.PrintString
