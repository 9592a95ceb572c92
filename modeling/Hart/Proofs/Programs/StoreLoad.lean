import Hart.Proofs.Execution.Preservation
import Hart.Proofs.Manual.Agreement
import Hart.Proofs.Manual.Syntax
import Hart.Proofs.Memory.Frame

namespace Hart.Manual

def Mnemonic.ofStore : Width → Mnemonic
  | .byte => .sb
  | .half => .sh
  | .word => .sw

def Mnemonic.ofLoad : Width → (sign : Bool) → Mnemonic
  | .byte, true => .lb
  | .byte, false => .lbu
  | .half, true => .lh
  | .half, false => .lhu
  | .word, _ => .lw

def extend : Width → (sign : Bool) → Nat → Int
  | .byte, true => signed 8
  | .half, true => signed 16
  | _, _ => fun v => v

theorem extend_zero (w : Width) (sign : Bool) : extend w sign 0 = 0 := by
  cases w <;> cases sign <;> rfl

theorem toNat_ofNat_wrap (v : Int) : (BitVec.ofNat 32 (wrap v)).toNat = wrap v := by
  rw [BitVec.toNat_ofNat, wrap]
  omega

open State

variable {σ : Type} {hooks : Hooks σ} {host : σ} {m : Machine} {w : Width} {sign : Bool} {x y : Word}
  {base src dest : Fin 32} {imm : Int}

theorem ofNat_wrap {address : Int} (h : wrap address = x.toNat) : BitVec.ofNat 32 (wrap address) = x := by
  rw [h, BitVec.ofNat_toNat, BitVec.setWidth_eq]

theorem execute_load {width : Width} {signed : Bool} {r r' : Register} {v : Word}
    (h : m.memory.peek width (m.read r' + v) = .ok y) :
    Action.execute hooks host m (.load width signed) (.immediate r r' v) =
      .done host (m.write r (if signed then signExtend y width.bits else y)).advance := by
  rw [Action.execute, h]

theorem execute_store {width : Width} {r r' : Register} {v : Word}
    (hok : (Action.execute hooks host m (.store width) (.store r r' v)).failure? = none) :
    ∃ memory, m.memory.poke width (m.read r + v) (m.read r') = .ok memory ∧
      Action.execute hooks host m (.store width) (.store r r' v) =
        .done host { m with memory }.advance := by
  rw [Action.execute] at hok ⊢
  cases h : m.memory.poke width (m.read r + v) (m.read r') with
  | ok memory => exact ⟨memory, rfl, rfl⟩
  | error e =>
    rw [h] at hok
    cases hok

theorem execute_ofStore (h : (Mnemonic.ofStore w).Encodes [src.val, base.val, imm] x.toNat)
    (hok : ((Mnemonic.ofStore w).descriptor.action.execute hooks host m
      ((Mnemonic.ofStore w).descriptor.operands x)).failure? = none) :
    ∃ memory, m.memory.poke w (BitVec.ofNat 32 (wrap ((ofMachine host m).x base + imm)))
        (m.read (BitVec.ofNat 5 src)) = .ok memory ∧
      (Mnemonic.ofStore w).descriptor.action.execute hooks host m
        ((Mnemonic.ofStore w).descriptor.operands x) = .done host { m with memory }.advance := by
  have hform : (Mnemonic.ofStore w).form = .store := by cases w <;> rfl
  have hholds := h.holds
  rw [hform] at hholds
  obtain ⟨hsrc, hbase, rfl⟩ := hholds
  obtain rfl : src = rs2 x.toNat := Fin.ext (Int.ofNat.inj hsrc)
  obtain rfl : base = rs1 x.toNat := Fin.ext (Int.ofNat.inj hbase)
  rw [ofNat_wrap (wrap_store_address host m x), rs2, ofNat_register]
  cases w <;> exact execute_store hok

theorem execute_ofLoad (h : (Mnemonic.ofLoad w sign).Encodes [dest.val, base.val, imm] x.toNat)
    (hpeek : m.memory.peek w (BitVec.ofNat 32 (wrap ((ofMachine host m).x base + imm))) = .ok y) :
    ∃ m', (Mnemonic.ofLoad w sign).descriptor.action.execute hooks host m
        ((Mnemonic.ofLoad w sign).descriptor.operands x) = .done host m' ∧
      ofMachine host m' = ((ofMachine host m).set dest (wrap (extend w sign y.toNat))).next := by
  have hform : (Mnemonic.ofLoad w sign).form = .immediate := by cases w <;> cases sign <;> rfl
  have hholds := h.holds
  rw [hform] at hholds
  obtain ⟨hdest, hbase, rfl⟩ := hholds
  obtain rfl : dest = rd x.toNat := Fin.ext (Int.ofNat.inj hdest)
  obtain rfl : base = rs1 x.toNat := Fin.ext (Int.ofNat.inj hbase)
  rw [ofNat_wrap (wrap_address host m x)] at hpeek
  have hlt := Memory.peek_lt hpeek
  cases w with
  | byte =>
    cases sign with
    | true =>
      exact ⟨_, execute_load hpeek, ofMachine_result host m x _
        (wrap_signed (by decide) (by decide) hlt)⟩
    | false => exact ⟨_, execute_load hpeek, ofMachine_result host m x _ (wrap_toNat y)⟩
  | half =>
    cases sign with
    | true =>
      exact ⟨_, execute_load hpeek, ofMachine_result host m x _
        (wrap_signed (by decide) (by decide) hlt)⟩
    | false => exact ⟨_, execute_load hpeek, ofMachine_result host m x _ (wrap_toNat y)⟩
  | word =>
    cases sign <;> exact ⟨_, execute_load hpeek, ofMachine_result host m x _ (wrap_toNat y)⟩

variable {p : Processor σ} {a b : Word}

theorem running_of_step (ht : p.table = .base) (hok : p.step.1 = .ok ()) :
    p.step.2.status = .running ∧ p.step.2.table = .base := by
  refine ⟨?_, (Processor.StoresTo.step p).table.trans ht⟩
  have h := p.stepping
  generalize p.step = r at hok h
  cases h with
  | refused => cases hok
  | retired _ hs => exact hs
  | faulted => cases hok

theorem step_ofStore (hr : p.status = .running) (ht : p.table = .base)
    (ha : p.machine.memory.peek .word p.machine.pc = .ok a)
    (hstore : (Mnemonic.ofStore w).Encodes [src.val, base.val, imm] a.toNat) (hok : p.step.1 = .ok ()) :
    ∃ memory, p.machine.memory.poke w
        (BitVec.ofNat 32 (wrap ((ofMachine p.host p.machine).x base + imm)))
        (p.machine.read (BitVec.ofNat 5 src)) = .ok memory ∧
      p.step.2.machine = { p.machine with memory }.advance := by
  have hstep := step_of_identify a hr ht ha hstore.identify
  cases hf : ((Mnemonic.ofStore w).descriptor.action.execute p.hooks p.host p.machine
      ((Mnemonic.ofStore w).descriptor.operands a)).failure? with
  | some e =>
    rw [hstep, Processor.accept_of_some hf] at hok
    cases hok
  | none =>
    obtain ⟨memory, hpoke, hreply⟩ := execute_ofStore hstore hf
    refine ⟨memory, hpoke, ?_⟩
    rw [hstep, hreply]
    rfl

theorem step_ofLoad (hr : p.status = .running) (ht : p.table = .base)
    (ha : p.machine.memory.peek .word p.machine.pc = .ok a)
    (hload : (Mnemonic.ofLoad w sign).Encodes [dest.val, base.val, imm] a.toNat)
    (hpeek : p.machine.memory.peek w
      (BitVec.ofNat 32 (wrap ((ofMachine p.host p.machine).x base + imm))) = .ok y) :
    p.step.1 = .ok () ∧ ofMachine p.step.2.host p.step.2.machine =
      ((ofMachine p.host p.machine).set dest (wrap (extend w sign y.toNat))).next := by
  obtain ⟨m', hreply, hleaves⟩ := execute_ofLoad hload hpeek
  rw [step_of_identify a hr ht ha hload.identify, hreply]
  exact ⟨rfl, hleaves⟩

theorem peek_of_poke {memory memory' : Memory} {v : Word} (h : memory.poke w a v = .ok memory') :
    ∃ page y, memory.pageAt? a = some page ∧ memory'.peek w a = .ok y ∧
      ((∃ bytes, page.storage = .ram bytes ∧ y.toNat = v.toNat % 2 ^ w.bits) ∨
        (page.storage = .zero ∧ y = 0)) := by
  obtain ⟨page, hp, hread⟩ := Memory.peek_poke h
  rcases hread with ⟨bytes, hs, hv⟩ | ⟨hs, hv⟩
  · refine ⟨page, _, hp, hv, .inl ⟨bytes, hs, ?_⟩⟩
    have hlt : v.toNat % 2 ^ w.bits < 2 ^ 32 := (Nat.mod_le _ _).trans_lt v.isLt
    rw [Width.low, BitVec.toNat_ofNat, Nat.mod_eq_of_lt hlt]
  · exact ⟨page, 0, hp, hv, .inr ⟨hs, rfl⟩⟩

/-- After a store, the load behind it finds in RAM the bits that were stored and in a zero page zero. Only its
register is changed, whatever the registers are, if the store does not write to the load itself. -/
theorem store_then_load (hr : p.status = .running) (ht : p.table = .base)
    (ha : p.machine.memory.peek .word p.machine.pc = .ok a)
    (hstore : (Mnemonic.ofStore w).Encodes [src.val, base.val, imm] a.toNat)
    (hb : p.machine.memory.peek .word (p.machine.pc + 4) = .ok b)
    (hload : (Mnemonic.ofLoad w sign).Encodes [dest.val, base.val, imm] b.toNat)
    (hok : p.step.1 = .ok ())
    (hapart : w.Apart .word (wrap ((State.ofMachine p.host p.machine).x base + imm))
      (p.machine.pc + 4).toNat) :
    let s := State.ofMachine p.host p.machine
    let q := p.step.2.step.2
    let t := State.ofMachine q.host q.machine
    p.step.2.step.1 = .ok () ∧ q.machine.pc = p.machine.pc + 8 ∧
    (∃ page, p.machine.memory.pageAt? (BitVec.ofNat 32 (wrap (s.x base + imm))) = some page ∧
      ((∃ bytes, page.storage = .ram bytes ∧
          (dest ≠ 0 → t.x dest = wrap (extend w sign (s.x src % 2 ^ w.bits)))) ∨
        (page.storage = .zero ∧ (dest ≠ 0 → t.x dest = 0)))) ∧
    ∀ r, r ≠ dest ∨ dest = 0 → t.x r = s.x r := by
  intro s q t
  obtain ⟨memory, hpoke, hfirst⟩ := step_ofStore hr ht ha hstore hok
  let s₁ := State.ofMachine p.step.2.host p.step.2.machine
  have hx : s₁.x = s.x := by
    funext r
    change (p.step.2.machine.read (BitVec.ofNat 5 r)).toNat = _
    rw [hfirst]
    rfl
  have hpc : p.step.2.machine.pc = p.machine.pc + 4 := by
    rw [hfirst]
    rfl
  have hmemory : p.step.2.machine.memory = memory := by
    rw [hfirst]
    rfl
  -- The load is fetched from the memory that the store left.
  have hb' : p.step.2.machine.memory.peek .word p.step.2.machine.pc = .ok b := by
    rw [hpc, hmemory, Memory.peek_poke_of_apart hpoke (by rwa [toNat_ofNat_wrap]), hb]
  obtain ⟨hr', ht'⟩ := running_of_step ht hok
  obtain ⟨page, y, hpage, hpeek, hvalue⟩ := peek_of_poke hpoke
  rw [← hmemory, ← hx] at hpeek
  obtain ⟨hok', htarget⟩ := step_ofLoad hr' ht' hb' hload hpeek
  have hread (r : Fin 32) :
      t.x r = if dest ≠ 0 ∧ dest = r then wrap (extend w sign y.toNat) else s.x r := by
    rw [← hx]
    exact congrFun (congrArg State.x htarget) r
  refine ⟨hok', ?pc, ⟨page, hpage, ?value⟩, fun r hother => ?others⟩
  case pc =>
    have hpc' : q.machine.pc = p.step.2.machine.pc + 4 := by
      rw [← BitVec.toNat_inj, BitVec.toNat_add]
      exact congrArg State.pc htarget
    rw [hpc', hpc, BitVec.add_assoc]
    rfl
  case value =>
    rcases hvalue with ⟨bytes, hs, hy⟩ | ⟨hs, rfl⟩
    · refine .inl ⟨bytes, hs, fun hne => ?_⟩
      rw [hread, if_pos ⟨hne, rfl⟩, hy]
      rfl
    · refine .inr ⟨hs, fun hne => ?_⟩
      rw [hread, if_pos ⟨hne, rfl⟩]
      exact congrArg wrap (extend_zero w sign)
  case others =>
    rw [hread, if_neg]
    rintro ⟨hne, rfl⟩
    exact hother.elim (fun h => h rfl) hne

theorem store_then_load_byte :
    let hook : Hook Unit := fun host m => .done host m
    let code : Array Byte := #[0xa3, 0x0f, 0x11, 0xfe, 0x03, 0x01, 0xf1, 0xff, 0, 0, 0, 0]
    let memory := (Memory.empty 12 (Nat.succ_pos 11)).push (.ram (.ofArray code))
    let p := Processor.start .base ⟨hook, hook⟩ ()
      ⟨0, (RegisterFile.zero.write 1 0x12345680).write 2 9, memory⟩
    let t := State.ofMachine () p.step.2.step.2.machine
    (p.status = .running ∧ p.table = .base ∧ memory.peek .word 0 = .ok 0xfe110fa3 ∧
      (Mnemonic.ofStore .byte).Encodes [(1 : Fin 32).val, (2 : Fin 32).val, -1] 0xfe110fa3 ∧
      memory.peek .word 4 = .ok 0xfff10103 ∧
      (Mnemonic.ofLoad .byte true).Encodes [(2 : Fin 32).val, (2 : Fin 32).val, -1] 0xfff10103 ∧
      p.step.1 = .ok () ∧ Width.byte.Apart .word 8 4) ∧
    p.step.2.step.1 = .ok () ∧ t.x 2 = 0xffffff80 ∧ t.x 1 = 0x12345680 := by
  intro hook code memory p t
  have hfirst : memory.peek .word 0 = .ok 0xfe110fa3 := by decide +kernel
  have hsecond : memory.peek .word 4 = .ok 0xfff10103 := by decide +kernel
  have hstore : (Mnemonic.ofStore .byte).Encodes [(1 : Fin 32).val, (2 : Fin 32).val, -1] 0xfe110fa3 :=
    ⟨rfl, rfl, rfl, rfl⟩
  have hload : (Mnemonic.ofLoad .byte true).Encodes [(2 : Fin 32).val, (2 : Fin 32).val, -1] 0xfff10103 :=
    ⟨rfl, rfl, rfl, rfl⟩
  have hok : p.step.1 = .ok () := by decide +kernel
  have hapart : Width.byte.Apart .word 8 4 := .inr (by decide)
  have hplace : (8 : Word).toNat / memory.pageSize = 0 := by decide +kernel
  have hram : memory.pageAt? 8 = some memory.pages[0] := by
    rw [Memory.pageAt?, hplace]
    exact Array.getElem?_eq_getElem _
  obtain ⟨hok', _, ⟨page, hpage, hvalue⟩, hothers⟩ :=
    store_then_load (p := p) rfl rfl hfirst hstore hsecond hload hok hapart
  have hpage' : memory.pages[0] = page := Option.some.inj (hram.symm.trans hpage)
  refine ⟨⟨rfl, rfl, hfirst, hstore, hsecond, hload, hok, hapart⟩, hok', ?_,
    hothers 1 (.inl (by decide))⟩
  rcases hvalue with ⟨_, _, hx⟩ | ⟨hs, _⟩
  · exact (hx (by decide)).trans (by decide +kernel)
  · rw [← hpage'] at hs
    cases hs

end Hart.Manual
