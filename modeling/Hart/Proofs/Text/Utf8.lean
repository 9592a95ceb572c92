import Hart.Text.Utf8
import Mathlib

namespace Hart.Text.Utf8

def encode (s : String) : Array Byte := s.toUTF8.data.map UInt8.toBitVec

def State.feedAll (s : State) (bytes : List Nat) : Except Fault State := bytes.foldlM State.feed s

def continuation (v : Nat) : Nat → List Nat
  | 0 => []
  | k + 1 => (v / 64 ^ k % 64 + 0x80) :: continuation v k

structure State.Read (s : State) (cs : List Char) : Prop where
  chars : s.chars = cs
  missing : s.missing = 0

/-- A state inside of the character `v`, of which `k + 1` bytes are missing. -/
structure State.Open (s : State) (cs : List Char) (v k : Nat) : Prop where
  chars : s.chars = cs
  missing : s.missing = k + 1
  value : s.value = v / 64 ^ (k + 1)
  low : s.low ≤ v / 64 ^ k % 64 + 0x80
  high : v / 64 ^ k % 64 + 0x80 ≤ s.high

variable {s t : State} {cs : List Char} {b v k : Nat} {c : Char} {bytes : List Nat}

theorem State.feedAll_cons_of_ok (h : s.feed b = .ok t) (bytes : List Nat) :
    s.feedAll (b :: bytes) = t.feedAll bytes := by
  rw [feedAll, List.foldlM_cons, h]
  rfl

theorem State.feedAll_append_of_ok (h : s.feedAll bytes = .ok t) (bytes' : List Nat) :
    s.feedAll (bytes ++ bytes') = t.feedAll bytes' := by
  rw [feedAll] at h ⊢
  rw [List.foldlM_append, h]
  rfl

namespace State.Open

theorem value_succ (h : s.Open cs v k) :
    64 * s.value + (v / 64 ^ k % 64 + 0x80 - 0x80) = v / 64 ^ k := by
  rw [h.value, Nat.pow_succ, ← Nat.div_div_eq_div_mul, Nat.add_sub_cancel]
  exact Nat.div_add_mod _ _

theorem feed_last (h : s.Open cs v 0) :
    ∃ t, s.feed (v / 64 ^ 0 % 64 + 0x80) = .ok t ∧ t.Read (Char.ofNat v :: cs) := by
  have hv : 64 * s.value + (v / 64 ^ 0 % 64 + 0x80 - 0x80) = v := h.value_succ.trans (Nat.div_one v)
  rw [feed, if_neg (by rw [h.missing]; decide), if_pos ⟨h.low, h.high⟩, hv, if_pos h.missing, h.chars]
  exact ⟨_, rfl, rfl, rfl⟩

theorem feed_more (h : s.Open cs v (k + 1)) :
    ∃ t, s.feed (v / 64 ^ (k + 1) % 64 + 0x80) = .ok t ∧ t.Open cs v k := by
  have hm := h.missing
  rw [feed, if_neg (by omega), if_pos ⟨h.low, h.high⟩, h.value_succ, if_neg (by omega), h.chars]
  refine ⟨_, rfl, rfl, ?_, rfl, ?_, ?_⟩ <;> dsimp only <;> omega

theorem feedAll (h : s.Open cs v k) :
    ∃ t, s.feedAll (continuation v (k + 1)) = .ok t ∧ t.Read (Char.ofNat v :: cs) := by
  induction k generalizing s with
  | zero =>
    obtain ⟨t, hs, ht⟩ := h.feed_last
    exact ⟨t, feedAll_cons_of_ok hs [], ht⟩
  | succ k ih =>
    obtain ⟨t, hs, ht⟩ := h.feed_more
    rw [continuation, feedAll_cons_of_ok hs]
    exact ih ht

end State.Open

theorem utf8EncodeChar_toNat (c : Char) : (String.utf8EncodeChar c).map UInt8.toNat =
    if c.toNat ≤ 0x7f then [c.toNat]
    else if c.toNat ≤ 0x7ff then (c.toNat / 64 + 0xc0) :: continuation c.toNat 1
    else if c.toNat ≤ 0xffff then (c.toNat / 4096 + 0xe0) :: continuation c.toNat 2
    else (c.toNat / 262144 + 0xf0) :: continuation c.toNat 3 := by
  have hvalid : c.toNat < 0xd800 ∨ 0xdfff < c.toNat ∧ c.toNat < 0x110000 := c.valid
  have hbyte (n : Nat) (h : n < 256) : (UInt8.ofNat n).toNat = n := Nat.mod_eq_of_lt h
  have hval : c.val.toNat = c.toNat := rfl
  simp only [String.utf8EncodeChar, hval, continuation, Nat.reducePow, Nat.div_one]
  split_ifs with h1 h2 h3
  · rw [List.map_singleton, hbyte _ (by omega)]
  · rw [List.map_cons, List.map_singleton, hbyte _ (by omega), hbyte _ (by omega),
      Nat.mod_eq_of_lt (by omega)]
  · rw [List.map_cons, List.map_cons, List.map_singleton, hbyte _ (by omega), hbyte _ (by omega),
      hbyte _ (by omega), Nat.mod_eq_of_lt (a := c.toNat / 4096) (by omega)]
  · rw [List.map_cons, List.map_cons, List.map_cons, List.map_singleton, hbyte _ (by omega),
      hbyte _ (by omega), hbyte _ (by omega), hbyte _ (by omega),
      Nat.mod_eq_of_lt (a := c.toNat / 262144) (by omega)]

namespace State.Read

theorem feed (h : s.Read cs) (b : Nat) : s.feed b = s.lead b := by
  rw [State.feed, if_pos h.missing]

theorem feed_one (h : s.Read cs) (hv : v < 0x80) :
    ∃ t, s.feed v = .ok t ∧ t.Read (Char.ofNat v :: cs) := by
  rw [h.feed, lead, if_pos hv, h.chars]
  exact ⟨_, rfl, rfl, h.missing⟩

theorem feed_two (h : s.Read cs) (hv : 0x80 ≤ v) (hv' : v < 0x800) :
    ∃ t, s.feed (v / 64 + 0xc0) = .ok t ∧ t.Open cs v 0 := by
  rw [h.feed, lead, if_neg (by omega), if_pos (by omega), h.chars]
  refine ⟨_, rfl, rfl, rfl, ?_, ?_, ?_⟩ <;> dsimp only <;> omega

theorem feed_three (h : s.Read cs) (hv : 0x800 ≤ v) (hv' : v < 0x10000)
    (hsurrogate : v < 0xd800 ∨ 0xdfff < v) :
    ∃ t, s.feed (v / 4096 + 0xe0) = .ok t ∧ t.Open cs v 1 := by
  rw [h.feed, lead, if_neg (by omega), if_neg (by omega), if_pos (by omega), h.chars]
  refine ⟨_, rfl, rfl, rfl, ?_, ?_, ?_⟩ <;> dsimp only
  · omega
  · split <;> omega
  · split <;> omega

theorem feed_four (h : s.Read cs) (hv : 0x10000 ≤ v) (hv' : v < 0x110000) :
    ∃ t, s.feed (v / 262144 + 0xf0) = .ok t ∧ t.Open cs v 2 := by
  rw [h.feed, lead, if_neg (by omega), if_neg (by omega), if_neg (by omega), if_pos (by omega), h.chars]
  refine ⟨_, rfl, rfl, rfl, ?_, ?_, ?_⟩ <;> dsimp only
  · omega
  · split <;> omega
  · split <;> omega

theorem feedAll_of_open (h : s.feed b = .ok t) (ht : t.Open cs v k) :
    ∃ u, s.feedAll (b :: continuation v (k + 1)) = .ok u ∧ u.Read (Char.ofNat v :: cs) := by
  rw [feedAll_cons_of_ok h]
  exact ht.feedAll

theorem feedAll_char (h : s.Read cs) (c : Char) : ∃ t,
    s.feedAll ((String.utf8EncodeChar c).map UInt8.toNat) = .ok t ∧ t.Read (c :: cs) := by
  have hvalid : c.toNat < 0xd800 ∨ 0xdfff < c.toNat ∧ c.toNat < 0x110000 := c.valid
  have hc : Char.ofNat c.toNat = c := Char.ofNat_toNat c
  rw [utf8EncodeChar_toNat]
  split_ifs with h1 h2 h3
  · obtain ⟨t, hs, ht⟩ := h.feed_one (v := c.toNat) (by omega)
    exact ⟨t, feedAll_cons_of_ok hs [], hc ▸ ht⟩
  · obtain ⟨t, hs, ht⟩ := h.feed_two (v := c.toNat) (by omega) (by omega)
    have hread := feedAll_of_open hs ht
    rwa [hc] at hread
  · obtain ⟨t, hs, ht⟩ := h.feed_three (v := c.toNat) (by omega) (by omega) (by omega)
    have hread := feedAll_of_open hs ht
    rwa [hc] at hread
  · obtain ⟨t, hs, ht⟩ := h.feed_four (v := c.toNat) (by omega) (by omega)
    have hread := feedAll_of_open hs ht
    rwa [hc] at hread

theorem feedAll_text (h : s.Read cs) (l : List Char) : ∃ t,
    s.feedAll ((l.flatMap String.utf8EncodeChar).map UInt8.toNat) = .ok t ∧
      t.Read (l.reverse ++ cs) := by
  induction l generalizing s cs with
  | nil => exact ⟨s, rfl, h⟩
  | cons c l ih =>
    obtain ⟨t, hs, ht⟩ := h.feedAll_char c
    rw [List.flatMap_cons, List.map_append, feedAll_append_of_ok hs, List.reverse_cons,
      List.append_assoc]
    exact ih ht

end State.Read

theorem encode_toList (s : String) :
    (encode s).toList = (s.toList.flatMap String.utf8EncodeChar).map UInt8.toBitVec := by
  have h : s.toUTF8.data = (s.toList.flatMap String.utf8EncodeChar).toArray := by
    rw [String.toUTF8, ← String.ofList_toList (s := s), String.toByteArray_ofList, List.utf8Encode,
      List.data_toByteArray, String.ofList_toList]
  rw [encode, h, Array.toList_map]

theorem decode_encode (s : String) : decode (encode s) = .ok s := by
  have hread : State.initial.Read [] := ⟨rfl, rfl⟩
  obtain ⟨t, hs, ht⟩ := hread.feedAll_text s.toList
  have hfold : (encode s).foldlM (fun t b => t.feed b.toNat) State.initial = .ok t := by
    rw [← hs, ← Array.foldlM_toList, encode_toList, State.feedAll, List.foldlM_map, List.foldlM_map]
    rfl
  rw [decode, hfold]
  dsimp only
  rw [if_pos ht.missing, ht.chars, List.append_nil, List.reverse_reverse, String.ofList_toList]

end Hart.Text.Utf8
