import Hart.Proofs.Assembly.Program
import Hart.Proofs.Assembly.Readers
import Hart.Proofs.Execution.Failure
import Hart.Proofs.Memory.Image

namespace Hart

open Assembly

def Assembly.Says (line : List Char) (i : Instruction) : Prop :=
  ∃ ts, (Text.tokens line).map String.ofList = i.descriptor.mnemonic :: ts ∧
    i.descriptor.read ts = .ok i.operands ∧ i.descriptor.Says ts i.operands

structure Processor.At (p : Processor σ) (m : Memory) (a : Word) : Prop where
  running : p.status = .running
  table : p.table = .base
  memory : p.machine.memory = m
  pc : p.machine.pc = a

/-- The words of the lines `code` stand in memory from `start` on and are executed there as the instructions
that the lines say. Zeroes follow up to `stop`, and no instruction stands among them. -/
structure Installed (code : List (List Char)) (ws : List Word) (start stop : Nat) (m : Memory) :
    Prop where
  length : ws.length = code.length
  bounds : start + 4 * ws.length ≤ stop ∧ stop ≤ 2 ^ 32
  word : ∀ i w, ws[i]? = some w → m.peek .word (BitVec.ofNat 32 (start + 4 * i)) = .ok w
  instruction : ∀ i line, code[i]? = some line → ∃ j : Instruction, ws[i]? = some j.word ∧
    Says line j ∧ ∀ (σ : Type) (p : Processor σ), p.At m (BitVec.ofNat 32 (start + 4 * i)) →
      p.machine.fetch p.table = .ok j ∧
      p.step = p.accept (j.descriptor.action.execute p.hooks p.host p.machine j.operands)
  filler : ∀ a : Word, start + 4 * ws.length ≤ a.toNat → a.toNat < stop → m.peek .word a = .ok 0 ∧
    ∀ (σ : Type) (p : Processor σ), p.At m a →
      p.step = (.error (.decode .illegalZero), p.raise (.decode .illegalZero))

namespace Processor.At

variable {σ : Type} {p : Processor σ} {m : Memory} {a w : Word} {i : Instruction}

theorem peek (h : p.At m a) (hw : m.peek .word a = .ok w) :
    p.machine.memory.peek .word p.machine.pc = .ok w := by
  rw [h.memory, h.pc, hw]

theorem step_of_decode (h : p.At m a) (hw : m.peek .word a = .ok w)
    (hi : InstructionSet.base.decode w = .ok i) : p.machine.fetch p.table = .ok i ∧
      p.step = p.accept (i.descriptor.action.execute p.hooks p.host p.machine i.operands) := by
  have hf : p.machine.fetch p.table = .ok i := Machine.fetch_eq_ok (h.peek hw) (h.table ▸ hi)
  exact ⟨hf, step_of_fetch_ok h.running hf⟩

theorem step_of_zero (h : p.At m a) (hw : m.peek .word a = .ok 0) :
    p.step = (.error (.decode .illegalZero), p.raise (.decode .illegalZero)) :=
  step_of_fetch_error h.running (Machine.fetch_of_decode_error (h.peek hw) rfl)

end Processor.At

theorem InstructionSet.exists_says_of_encodeLine {line : List Char} {w : Word}
    (h : encodeLine base line = .ok w) : ∃ i, base.decode w = .ok i ∧ i.word = w ∧ Says line i := by
  obtain ⟨d, hd, ts, p, hline, hp, rfl⟩ := exists_of_encodeLine mnemonic_ne_base h
  obtain ⟨hs, hr, _⟩ := Shape.says_of_read hp
  have hdec := decode_of_matches (s := base) hd (d.matches_encode p)
  rw [d.operands_encode (regular_base d hd) hr] at hdec
  exact ⟨_, hdec, rfl, ts, hline, hp, hs⟩

namespace Assembly.Program

variable {program : Program} {m m' : Memory} {writable : Bool} {source : String} {i n : Nat}
  {a w : Word}

theorem combine_bytes (hw : program.words[i]? = some w) :
    Width.word.combine (fun j => program.bytes.toArray[4 * i + j]?.getD 0) = w := by
  have hbyte : ∀ j < Width.word.bytes, program.bytes.toArray[4 * i + j]?.getD 0 = w.byte j := by
    intro j hj
    rw [List.getElem?_toArray, program.getElem?_bytes hj, hw]
    rfl
  rw [Width.combine_congr hbyte, Width.combine_byte, Width.low_word]

theorem mod_add_le (hn : 0 < n) (h : n % 4 = 0) (i : Nat) : 4 * i % n + 4 ≤ n := by
  obtain ⟨q, rfl⟩ := Nat.dvd_of_mod_eq_zero h
  have := Nat.mod_lt i (Nat.pos_of_mul_pos_left hn)
  rw [Nat.mul_mod_mul_left]
  omega

section Insertion

variable (hm : m.WellFormed) (h : m.insertImage program.bytes.toArray writable = ⟨m', none⟩)
include hm h

theorem bounds_insertImage :
    m.stop + 4 * program.words.length ≤ m'.stop ∧ m'.stop ≤ 2 ^ 32 := by
  have hm' := (hm.extends_of_insertImage h).wellFormed
  have hroom := m.size_le_pagesFor program.bytes.toArray.size
  rw [List.size_toArray, program.length_bytes] at hroom
  refine ⟨?_, hm'.stop_eq.trans_le hm'.fits⟩
  rw [hm.stop_insertImage h, List.size_toArray, program.length_bytes]
  exact Nat.add_le_add_left hroom _

theorem peek_word (h4 : m.pageSize % 4 = 0) (hw : program.words[i]? = some w) :
    m'.peek .word (BitVec.ofNat 32 (m.stop + 4 * i)) = .ok w := by
  obtain ⟨hroom, htop⟩ := bounds_insertImage hm h
  obtain ⟨hi, _⟩ := List.getElem?_eq_some_iff.1 hw
  have ha : (BitVec.ofNat 32 (m.stop + 4 * i)).toNat = m.stop + 4 * i := by
    rw [BitVec.toNat_ofNat, Nat.mod_eq_of_lt (by omega)]
  have hinside : 4 * i + Width.word.bytes ≤ program.bytes.toArray.size := by
    rw [List.size_toArray, program.length_bytes, Width.bytes]
    omega
  rw [hm.peek_insertImage h (by omega) ha, if_pos ⟨mod_add_le m.pageSize_pos h4 i, hinside⟩,
    combine_bytes hw]

theorem peek_filler (ha : m.stop + 4 * program.words.length ≤ a.toNat) (hstop : a.toNat < m'.stop) :
    m'.peek .word a = .ok 0 := by
  have hoffset : a.toNat = m.stop + (a.toNat - m.stop) := by omega
  have houtside : ¬ a.toNat - m.stop + Width.word.bytes ≤ program.bytes.toArray.size := by
    rw [List.size_toArray, program.length_bytes, Width.bytes]
    omega
  rw [hm.peek_insertImage h (by omega) hoffset, if_neg (mt And.right houtside)]

theorem installed_insertImage (h4 : m.pageSize % 4 = 0) (hp : assemble .base source = .ok program) :
    Installed (codeLines source.toList) program.words m.stop m'.stop m' where
  length := (forall₂_words hp).length_eq.symm
  bounds := bounds_insertImage hm h
  word _ _ hw := peek_word hm h h4 hw
  instruction i line hline := by
    have hwords := forall₂_words hp
    obtain ⟨hi, rfl⟩ := List.getElem?_eq_some_iff.1 hline
    have hi' : i < program.words.length := hwords.length_eq ▸ hi
    obtain ⟨j, hdec, hword, hsays⟩ := InstructionSet.exists_says_of_encodeLine (hwords.get hi hi')
    have hw : program.words[i]? = some j.word := by
      rw [hword, List.getElem?_eq_getElem hi']
      rfl
    have hdec' : InstructionSet.base.decode j.word = .ok j := hword.symm ▸ hdec
    exact ⟨j, hw, hsays, fun _ _ hat => hat.step_of_decode (peek_word hm h h4 hw) hdec'⟩
  filler a ha hstop :=
    have hpeek := peek_filler hm h ha hstop
    ⟨hpeek, fun _ _ hat => hat.step_of_zero hpeek⟩

end Insertion

/-- Whatever was done to a memory before, code that is put behind its pages as an image, writable or not, is
what runs there. The pages need only be so large that no word stands on two of them. -/
theorem installed_of_assemble (hn : 0 < n) (h4 : n % 4 = 0) (hp : assemble .base source = .ok program)
    (ops : List Memory.Operation)
    (h : ((Memory.empty n hn).after ops).insertImage program.bytes.toArray writable = ⟨m', none⟩) :
    Installed (codeLines source.toList) program.words ((Memory.empty n hn).after ops).stop m'.stop
      m' := by
  obtain ⟨hm, hsize⟩ := (Memory.wellFormed_empty n hn).after ops
  have hpage : ((Memory.empty n hn).after ops).pageSize % 4 = 0 := by
    rw [hsize]
    exact h4
  exact installed_insertImage hm h hpage hp

theorem installed_of_assemble_two_pages : ∃ program m',
    assemble .base "ADDI x1 x0 -5 ; set\n\n  ECALL\nEBREAK;" = .ok program ∧
    ((Memory.empty 8 (by decide)).after [.insert .zero]).insertImage program.bytes.toArray true =
      ⟨m', none⟩ ∧
    Installed ["ADDI x1 x0 -5".toList, "ECALL".toList, "EBREAK".toList] [0xffb00093, 0x73, 0x100073]
      8 24 m' := by
  let program : Program := ⟨"ADDI x1 x0 -5 ; set\n\n  ECALL\nEBREAK;",
    [⟨1, ⟨0, 13⟩, 0xffb00093⟩, ⟨3, ⟨23, 28⟩, 0x73⟩, ⟨4, ⟨29, 35⟩, 0x100073⟩]⟩
  let m := (Memory.empty 8 (by decide)).after [.insert .zero]
  have hp : assemble .base program.source = .ok program := by decide +kernel
  have hlines : codeLines program.source.toList =
      ["ADDI x1 x0 -5".toList, "ECALL".toList, "EBREAK".toList] := by decide +kernel
  let r := m.insertImage program.bytes.toArray true
  have hnone : r.failure? = none := by decide +kernel
  have hstop : r.memory.stop = 24 := by decide +kernel
  have hins : r = ⟨r.memory, none⟩ := by rw [← hnone]
  have h := installed_of_assemble (n := 8) (by decide) (by decide) hp [.insert .zero] hins
  rw [hlines, hstop] at h
  exact ⟨program, _, hp, hins, h⟩

end Assembly.Program

end Hart
