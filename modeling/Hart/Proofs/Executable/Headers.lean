import Hart.Executable.Layout
import Mathlib

/-! Which headers are accepted, and the error of the first check that fails. The parser of the file is
left open: whatever headers it finds, or none, are covered. -/

namespace Hart.Executable

structure ProgramHeader.Sound (size : Nat) (p : ProgramHeader) : Prop where
  address : p.address + p.memorySize ≤ 2 ^ 32
  data : p.fileSize ≤ p.memorySize
  inFile : p.offset + p.fileSize ≤ size

inductive ProgramHeader.Unsound (size : Nat) (p : ProgramHeader) : LoadError → Prop
  | addressOverflow : 2 ^ 32 < p.address + p.memorySize → Unsound size p (.addressOverflow p.address)
  | truncated : p.address + p.memorySize ≤ 2 ^ 32 →
      p.memorySize < p.fileSize ∨ size < p.offset + p.fileSize → Unsound size p (.truncated p.address)

namespace Header

def loads (h : Header) : List ProgramHeader := h.programHeaders.filter ProgramHeader.isLoad

def segments (h : Header) : List ProgramHeader := h.loads.filter (0 < ·.memorySize)

def top (h : Header) : Nat := (h.segments.map ProgramHeader.stop).max?.getD 0

def plan (h : Header) (file : Array Byte) : Plan :=
  ⟨BitVec.ofNat 32 h.entry, h.segments.map (·.segment file)⟩

def Narrow (h : Header) : Prop := h.wide = false ∧ h.order = .little

structure Loadable (size : Nat) (h : Header) : Prop where
  narrow : h.Narrow
  machine : h.machine = 243
  sound : ∀ p ∈ h.loads, p.Sound size
  nonempty : ∃ p ∈ h.loads, 0 < p.memorySize

/-- The first check that a file of `size` bytes fails, of which `h?` was parsed. -/
inductive Refused (size : Nat) : Option Header → LoadError → Prop
  | notElf : Refused size none .notElf
  | wrongClass : ¬ h.Narrow → Refused size (some h) .wrongClass
  | wrongMachine : h.Narrow → h.machine ≠ 243 → Refused size (some h) (.wrongMachine h.machine)
  | unsound : h.Narrow → h.machine = 243 → h.loads = pre ++ p :: post → (∀ q ∈ pre, q.Sound size) →
      p.Unsound size e → Refused size (some h) e
  | noSegments : h.Narrow → h.machine = 243 → (∀ p ∈ h.loads, p.Sound size) →
      (∀ p ∈ h.loads, p.memorySize = 0) → Refused size (some h) .noSegments

end Header

variable {file : Array Byte} {p : ProgramHeader} {ps : List ProgramHeader} {h : Header}
  {h? : Option Header} {e : LoadError}

namespace ProgramHeader

theorem failure?_eq_none_iff : p.failure? file = none ↔ p.Sound file.size := by
  rw [failure?]
  constructor
  · intro h
    split at h
    · cases h
    · next ha =>
      split at h
      · cases h
      · next hd =>
        rw [not_or, Nat.not_lt, Nat.not_lt] at hd
        exact ⟨Nat.not_lt.1 ha, hd.1, hd.2⟩
  · intro h
    have ha : ¬ Memory.addressSpace < p.stop := Nat.not_lt.2 h.address
    rw [if_neg ha, if_neg]
    rw [not_or, Nat.not_lt, Nat.not_lt]
    exact ⟨h.data, h.inFile⟩

theorem failure?_eq_some_iff : p.failure? file = some e ↔ p.Unsound file.size e := by
  rw [failure?]
  constructor
  · intro h
    split at h
    · next ha =>
      cases h
      exact .addressOverflow ha
    · next ha =>
      split at h
      · next hd =>
        cases h
        exact .truncated (Nat.not_lt.1 ha) hd
      · cases h
  · rintro (ha | ⟨ha, hd⟩)
    · exact if_pos ha
    · have ha : ¬ Memory.addressSpace < p.stop := Nat.not_lt.2 ha
      rw [if_neg ha, if_pos hd]

end ProgramHeader

theorem soundHeaders_snd (file : Array Byte) (ps : List ProgramHeader) :
    (soundHeaders file ps).2 = ps.findSome? (·.failure? file) := by
  induction ps with
  | nil => rfl
  | cons p ps ih =>
    rw [soundHeaders, List.findSome?_cons]
    cases p.failure? file with
    | some e => rfl
    | none => exact ih

theorem soundHeaders_of_sound (h : ∀ p ∈ ps, p.Sound file.size) :
    soundHeaders file ps = (ps, none) := by
  induction ps with
  | nil => rfl
  | cons p ps ih =>
    rw [soundHeaders, ProgramHeader.failure?_eq_none_iff.2 (h p List.mem_cons_self),
      ih fun q hq => h q (List.mem_cons_of_mem p hq)]

theorem findSome?_failure_eq_some_iff : ps.findSome? (·.failure? file) = some e ↔
    ∃ pre p post, ps = pre ++ p :: post ∧ (∀ q ∈ pre, q.Sound file.size) ∧ p.Unsound file.size e := by
  simp only [List.findSome?_eq_some_iff, ProgramHeader.failure?_eq_none_iff,
    ProgramHeader.failure?_eq_some_iff]
  constructor
  · rintro ⟨pre, p, post, rfl, hp, hpre⟩
    exact ⟨pre, p, post, rfl, hpre, hp⟩
  · rintro ⟨pre, p, post, rfl, hpre, hp⟩
    exact ⟨pre, p, post, rfl, hp, hpre⟩

namespace Header

theorem narrow_iff : h.Narrow ↔ ¬ (h.wide = true ∨ h.order = .big) := by
  rw [Narrow, not_or, Bool.not_eq_true]
  cases h.order <;> simp

theorem segments_eq_nil_iff : h.segments = [] ↔ ∀ p ∈ h.loads, p.memorySize = 0 := by
  simp [segments, List.filter_eq_nil_iff]

theorem loadable_or_refused (file : Array Byte) (h? : Option Header) :
    (∃ h, h? = some h ∧ h.Loadable file.size) ∨ ∃ e, Refused file.size h? e := by
  cases h? with
  | none => exact .inr ⟨_, .notElf⟩
  | some h =>
    by_cases hn : h.Narrow
    case neg => exact .inr ⟨_, .wrongClass hn⟩
    by_cases hm : h.machine = 243
    case neg => exact .inr ⟨_, .wrongMachine hn hm⟩
    cases hf : h.loads.findSome? (·.failure? file) with
    | some e =>
      obtain ⟨pre, p, post, hl, hpre, hp⟩ := findSome?_failure_eq_some_iff.1 hf
      exact .inr ⟨e, .unsound hn hm hl hpre hp⟩
    | none =>
      have hs : ∀ p ∈ h.loads, p.Sound file.size := fun p hp =>
        ProgramHeader.failure?_eq_none_iff.1 (List.findSome?_eq_none_iff.1 hf p hp)
      by_cases hz : ∀ p ∈ h.loads, p.memorySize = 0
      case pos => exact .inr ⟨_, .noSegments hn hm hs hz⟩
      simp only [not_forall] at hz
      obtain ⟨p, hp, hz⟩ := hz
      exact .inl ⟨h, rfl, hn, hm, hs, p, hp, Nat.pos_of_ne_zero hz⟩

theorem plan_ofHeader (file : Array Byte) (hn : h.Narrow) (hm : h.machine = 243) :
    (Reading.ofHeader file (some h)).plan = match soundHeaders file h.loads with
      | (_, some e) => .error e
      | (ps, none) =>
        let segments := (ps.filter (0 < ·.memorySize)).map (·.segment file)
        if segments.isEmpty then .error .noSegments else .ok ⟨BitVec.ofNat 32 h.entry, segments⟩ := by
  simp only [Reading.ofHeader]
  rw [if_neg (narrow_iff.1 hn), if_neg (not_not.2 hm), loads]
  rcases soundHeaders file _ with ⟨ps, _ | e⟩ <;> rfl

theorem plan_of_failure (hn : h.Narrow) (hm : h.machine = 243)
    (hf : (soundHeaders file h.loads).2 = some e) :
    (Reading.ofHeader file (some h)).plan = .error e := by
  rw [plan_ofHeader file hn hm]
  generalize soundHeaders file h.loads = r at hf
  obtain ⟨ps, _⟩ := r
  cases hf
  rfl

theorem plan_of_sound (hn : h.Narrow) (hm : h.machine = 243) (hs : ∀ p ∈ h.loads, p.Sound file.size) :
    (Reading.ofHeader file (some h)).plan =
      if h.segments = [] then .error .noSegments else .ok (h.plan file) := by
  rw [plan_ofHeader file hn hm, soundHeaders_of_sound hs]
  simp only [List.isEmpty_map, List.isEmpty_iff]
  rfl

theorem plan_of_loadable (hl : h.Loadable file.size) :
    (Reading.ofHeader file (some h)).plan = .ok (h.plan file) := by
  have hne : h.segments ≠ [] := by
    obtain ⟨p, hp, hpos⟩ := hl.nonempty
    exact List.ne_nil_of_mem (List.mem_filter.2 ⟨hp, decide_eq_true hpos⟩)
  rw [plan_of_sound hl.narrow hl.machine hl.sound, if_neg hne]

theorem plan_of_refused (hr : Refused file.size h? e) : (Reading.ofHeader file h?).plan = .error e := by
  cases hr with
  | notElf => rfl
  | wrongClass hn =>
    simp only [Reading.ofHeader]
    rw [if_pos (not_not.1 (mt narrow_iff.2 hn))]
  | wrongMachine hn hm =>
    simp only [Reading.ofHeader]
    rw [if_neg (narrow_iff.1 hn), if_pos hm]
  | unsound hn hm hl hpre hp =>
    refine plan_of_failure hn hm ((soundHeaders_snd file _).trans ?_)
    exact findSome?_failure_eq_some_iff.2 ⟨_, _, _, hl, hpre, hp⟩
  | noSegments hn hm hs hz => rw [plan_of_sound hn hm hs, if_pos (segments_eq_nil_iff.2 hz)]

end Header

end Hart.Executable
