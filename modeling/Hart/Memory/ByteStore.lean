import Hart.Memory.Access
import Std.Data.TreeMap

/-! Byte stores, the contents of pages. A store of any size takes room only for the bytes that were put
into it; the others are zero. -/

namespace Hart

structure Run where
  start : Nat
  bytes : Array Byte

def Run.byte? (r : Run) (i : Nat) : Option Byte :=
  if r.start ≤ i then r.bytes[i - r.start]? else none

/-- `size` bytes. Written bytes hide those of the runs, and of two runs the first hides the second. -/
structure ByteStore where
  size : Nat
  runs : List Run
  written : Std.TreeMap Nat Byte

namespace ByteStore

def ofRuns (size : Nat) (runs : List Run) : ByteStore := ⟨size, runs, ∅⟩

def ofArray (bytes : Array Byte) : ByteStore := ofRuns bytes.size [⟨0, bytes⟩]

def zeroed (size : Nat) : ByteStore := ofRuns size []

def get (s : ByteStore) (i : Nat) : Byte :=
  match s.written[i]? with
  | some b => b
  | none => (s.runs.findSome? fun r => r.byte? i).getD 0

def set (s : ByteStore) (i : Nat) (b : Byte) : ByteStore :=
  { s with written := s.written.insert i b }

theorem get_set (s : ByteStore) (i j : Nat) (b : Byte) :
    (s.set i b).get j = if i = j then b else s.get j := by
  by_cases h : i = j <;> simp [get, set, Std.TreeMap.getElem?_insert, h]

@[simp] theorem size_set (s : ByteStore) (i : Nat) (b : Byte) : (s.set i b).size = s.size := rfl

@[simp] theorem get_zeroed (n i : Nat) : (zeroed n).get i = 0 := by
  simp [get, zeroed, ofRuns]

@[simp] theorem size_zeroed (n : Nat) : (zeroed n).size = n := rfl

@[simp] theorem get_ofArray (bytes : Array Byte) (i : Nat) :
    (ofArray bytes).get i = bytes[i]?.getD 0 := by
  simp [get, ofArray, ofRuns, Run.byte?]

@[simp] theorem size_ofArray (bytes : Array Byte) : (ofArray bytes).size = bytes.size := rfl

def read (s : ByteStore) (w : Width) (offset : Nat) : Word :=
  if offset + w.bytes ≤ s.size then w.combine fun i => s.get (offset + i) else 0

def write? (s : ByteStore) (w : Width) (offset : Nat) (v : Word) : Option ByteStore :=
  if offset + w.bytes ≤ s.size then
    some ((List.range w.bytes).foldl (fun t i => t.set (offset + i) (v.byte i)) s)
  else none

end ByteStore

end Hart
