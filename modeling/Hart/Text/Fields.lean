namespace Hart.Text

def blankRanges : List (Nat × Nat) :=
  [(0x9, 0xd), (0x20, 0x20), (0x85, 0x85), (0xa0, 0xa0), (0x1680, 0x1680), (0x2000, 0x200a),
    (0x2028, 0x2029), (0x202f, 0x202f), (0x205f, 0x205f), (0x3000, 0x3000)]

def isBlank (c : Char) : Bool := blankRanges.any fun r => r.1 ≤ c.toNat && c.toNat ≤ r.2

def fields (sep : Char → Bool) (s : List Char) : List (List Char) :=
  s.foldr (fun c pieces =>
    if sep c then [] :: pieces
    else match pieces with
      | [] => [[c]]
      | p :: ps => (c :: p) :: ps) [[]]

def lines : List Char → List (List Char) := fields (· == '\n')

def isSeparator (c : Char) : Bool := isBlank c || c == ','

def tokens (s : List Char) : List (List Char) := (fields isSeparator s).filter (· ≠ [])

def trimStart (s : List Char) : List Char := s.dropWhile isBlank

def trimEnd (s : List Char) : List Char := (s.reverse.dropWhile isBlank).reverse

def trim (s : List Char) : List Char := trimEnd (trimStart s)

theorem fields_ne_nil (sep : Char → Bool) (s : List Char) : fields sep s ≠ [] := by
  cases s with
  | nil => simp [fields]
  | cons c s =>
    simp only [fields, List.foldr_cons]
    repeat' split
    all_goals simp

@[simp] theorem fields_nil (sep : Char → Bool) : fields sep [] = [[]] := rfl

theorem fields_cons_sep {sep : Char → Bool} {c : Char} (h : sep c = true) (s : List Char) :
    fields sep (c :: s) = [] :: fields sep s := by
  simp [fields, h]

theorem fields_append_sep {sep : Char → Bool} {c : Char} (h : sep c = true) (s t : List Char) :
    fields sep (s ++ c :: t) = fields sep s ++ fields sep t := by
  induction s with
  | nil => simp [fields_cons_sep h]
  | cons d s ih =>
    by_cases hd : sep d
    · simp [fields_cons_sep hd, ih]
    · have step : ∀ u, fields sep (d :: u) = match fields sep u with
          | [] => [[d]]
          | p :: ps => (d :: p) :: ps := by
        intro u
        simp [fields, hd]
      rw [List.cons_append, step, step, ih]
      cases hs : fields sep s with
      | nil => exact absurd hs (fields_ne_nil sep s)
      | cons p ps => simp

theorem tokens_append_sep {c : Char} (h : isSeparator c = true) (s t : List Char) :
    tokens (s ++ c :: t) = tokens s ++ tokens t := by
  simp [tokens, fields_append_sep h]

def byteLength (s : List Char) : Nat := s.foldr (fun c n => c.utf8Size + n) 0

@[simp] theorem byteLength_nil : byteLength [] = 0 := rfl

@[simp] theorem byteLength_cons (c : Char) (s : List Char) :
    byteLength (c :: s) = c.utf8Size + byteLength s := rfl

@[simp] theorem byteLength_append (s t : List Char) :
    byteLength (s ++ t) = byteLength s + byteLength t := by
  induction s with
  | nil => simp
  | cons c s ih => simp [ih, Nat.add_assoc]

structure Span where
  start : Nat
  stop : Nat
  deriving DecidableEq

def Span.slice (r : Span) (s : String) : String := String.Pos.Raw.extract s ⟨r.start⟩ ⟨r.stop⟩

end Hart.Text
