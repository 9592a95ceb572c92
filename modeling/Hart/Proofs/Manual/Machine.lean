import Hart.Proofs.Execution.Failure
import Hart.Proofs.Manual.Arithmetic
import Hart.Proofs.Memory.Values

namespace Hart.Manual

namespace State

variable {σ : Type} (host : σ) (m : Machine)

theorem ofMachine_advance : ofMachine host m.advance = (ofMachine host m).next := by
  simp [ofMachine, next, Machine.advance, Machine.nextPc, BitVec.toNat_add]
  rfl

theorem ofNat_register_eq_iff {q : Fin 32} {r : Register} (q' : Fin 32)
    (h : BitVec.ofNat 5 q = r) : r = BitVec.ofNat 5 q' ↔ q = q' := by
  subst h
  rw [← BitVec.toNat_inj, Fin.ext_iff, BitVec.toNat_ofNat, BitVec.toNat_ofNat,
    Nat.mod_eq_of_lt q.isLt, Nat.mod_eq_of_lt q'.isLt]

theorem ofMachine_write {r : Register} {q : Fin 32} (h : BitVec.ofNat 5 q = r) (v : Word) :
    ofMachine host (m.write r v) = (ofMachine host m).set q v.toNat := by
  have hx : (ofMachine host (m.write r v)).x = ((ofMachine host m).set q v.toNat).x := by
    funext q'
    change ((m.registers.write r v).read (BitVec.ofNat 5 q')).toNat =
      if q ≠ 0 ∧ q = q' then v.toNat else (m.registers.read (BitVec.ofNat 5 q')).toNat
    have h0 : r = 0#5 ↔ q = 0 := ofNat_register_eq_iff 0 h
    simp only [RegisterFile.read_write, ofNat_register_eq_iff q' h, h0, ne_eq]
    split <;> rfl
  exact congrArg (fun x => (⟨host, m.pc.toNat, x, .ofMemory m.memory⟩ : State σ)) hx

theorem x_register (w : Word) (lo : Nat) :
    (ofMachine host m).x (register w.toNat lo) = (m.read (w.extractLsb' lo 5)).toNat := by
  change (m.read (BitVec.ofNat 5 (register w.toNat lo))).toNat = _
  rw [ofNat_register]

theorem ofMachine_goto (target : Word) (t : Int) (h : wrap t = target.toNat) :
    ofMachine host { m with pc := target } = (ofMachine host m).goto t := by
  rw [goto, h]
  rfl

theorem ofMachine_result (w v : Word) {n : Nat} (h : n = v.toNat) :
    ofMachine host (m.write (w.extractLsb' 7 5) v).advance =
      ((ofMachine host m).set (rd w.toNat) n).next := by
  rw [ofMachine_advance, ofMachine_write host m (ofNat_register w 7), h]
  rfl

theorem ofMachine_link (w : Word) :
    ofMachine host (m.write (w.extractLsb' 7 5) m.nextPc) = (ofMachine host m).link (rd w.toNat) := by
  rw [ofMachine_write host m (ofNat_register w 7), link, Machine.nextPc, BitVec.toNat_add]
  rfl

theorem ofMachine_jump {offset : Word} {i : Int} (h : i = offset.toInt) :
    ofMachine host (m.jump offset) = (ofMachine host m).goto (m.pc.toNat + i) := by
  rw [h]
  exact ofMachine_goto host m _ _ (wrap_add m.pc offset)

theorem ofMachine_branch {cond : Condition} {a b offset : Word} {taken : Prop} [Decidable taken]
    {i : Int} (hc : cond.holds a b = true ↔ taken) (hi : i = offset.toInt) :
    ofMachine host (if cond.holds a b then m.jump offset else m.advance) =
      (ofMachine host m).branch taken i := by
  rw [branch]
  by_cases ht : taken
  · rw [if_pos ht, if_pos (hc.2 ht)]
    exact ofMachine_jump host m hi
  · rw [if_neg ht, if_neg fun h => ht (hc.1 h), ofMachine_advance]

variable {m} in
theorem ofReply_load (hm : m.memory.WellFormed) (w : Word) (width : Width) (sign : Bool) {address : Int}
    {a : Word} {extend : Nat → Int} (ha : wrap address = a.toNat)
    (he : ∀ v : Word, v.toNat < 2 ^ width.bits →
      wrap (extend v.toNat) = (if sign then signExtend v width.bits else v).toNat) :
    ofReply (match m.memory.peek width a with
      | .ok raw =>
        .done host (m.write (w.extractLsb' 7 5)
          (if sign then signExtend raw width.bits else raw)).advance
      | .error e => .failed host m (Exception.memory e)) =
      (ofMachine host m).load width.bytes address (rd w.toNat) extend := by
  have hload : (ofMachine host m).memory.load? width.bytes (wrap address) =
      (m.memory.peek width a).toOption.map BitVec.toNat := by
    rw [ha]
    exact Space.load?_ofMemory hm width a
  rw [load, hload]
  cases hp : m.memory.peek width a with
  | ok raw => exact congrArg some (ofMachine_result host m w _ (he raw (Memory.peek_lt hp)))
  | error e => rfl

variable {m} in
theorem ofReply_store (hm : m.memory.WellFormed) (width : Width) {address : Int} {a v : Word}
    (ha : wrap address = a.toNat) :
    ofReply (match m.memory.poke width a v with
      | .ok memory => .done host { m with memory }.advance
      | .error e => .failed host m (Exception.memory e)) =
      (ofMachine host m).store width.bytes address v.toNat := by
  have hstore : (ofMachine host m).memory.store? width.bytes (wrap address) v.toNat =
      (m.memory.poke width a v).toOption.map Space.ofMemory := by
    rw [ha]
    exact Space.store?_ofMemory hm width a v
  rw [store, hstore]
  cases m.memory.poke width a v with
  | ok memory => exact congrArg some (ofMachine_advance host _)
  | error e => rfl

theorem ofReply_call (hook : Hook σ) :
    ofReply (hook.call host m) = (ofReply (hook host m)).map next := by
  cases hf : (hook host m).failure? with
  | none =>
    rw [Hook.call_of_none hf]
    simp only [ofReply, hf]
    exact congrArg some (ofMachine_advance _ _)
  | some text =>
    rw [Hook.call_of_some hf]
    simp only [ofReply, hf]
    rfl

end State

end Hart.Manual
