import Mathlib

/-! # Big-endian bytes and static ABI words

A static ABI tuple is the concatenation of its 32-byte big-endian words. The codec is
injective word by word, which is all that separating two signed messages rests on. -/
namespace StealthWage.Words

abbrev Byte := Fin 256
abbrev Bytes := List Byte
abbrev Word := Fin (2 ^ 256)

-- a numeral of each width is read through the instance with its name
instance neZero_8 : NeZero 256 := ⟨by decide⟩
instance neZero_16 : NeZero 65536 := ⟨by decide⟩
instance neZero_64 : NeZero (2 ^ 64) := ⟨by decide⟩
instance neZero_128 : NeZero (2 ^ 128) := ⟨by decide⟩
instance neZero_160 : NeZero (2 ^ 160) := ⟨by decide⟩
instance neZero_256 : NeZero (2 ^ 256) := ⟨by decide⟩

/-- The low `n` bytes of `x`, most significant first. -/
def bigEndian : ℕ → ℕ → Bytes
  | 0, _ => []
  | n + 1, x => Fin.ofNat 256 (x / 256 ^ n) :: bigEndian n x

/-- The number that a byte string spells. -/
def value : Bytes → ℕ
  | [] => 0
  | b :: bs => b.val * 256 ^ bs.length + value bs

@[simp] theorem bigEndian_length (n x : ℕ) : (bigEndian n x).length = n := by
  induction n with
  | zero => rfl
  | succ n ih => simp [bigEndian, ih]

theorem value_bigEndian (n x : ℕ) : value (bigEndian n x) = x % 256 ^ n := by
  induction n with
  | zero => simp [bigEndian, value, Nat.mod_one]
  | succ n ih =>
    simp only [bigEndian, value, bigEndian_length, ih, Fin.val_ofNat]
    rw [Nat.mod_pow_succ, Nat.mul_comm, Nat.add_comm]

theorem value_lt (b : Bytes) : value b < 256 ^ b.length := by
  induction b with
  | nil => simp [value]
  | cons x b ih =>
    have hx := x.isLt
    simp only [value, List.length_cons, pow_succ]
    nlinarith

theorem value_injective {a b : Bytes} (hl : a.length = b.length) (h : value a = value b) :
    a = b := by
  induction a generalizing b with
  | nil => exact (List.length_eq_zero_iff.mp hl.symm).symm
  | cons x a ih =>
    cases b with
    | nil => simp at hl
    | cons y b =>
      have hl' : a.length = b.length := by simpa using hl
      have ha := value_lt a
      have hb := value_lt b
      simp only [value, hl'] at h ha
      have hpos : 0 < 256 ^ b.length := by positivity
      have hhigh := congrArg (· / 256 ^ b.length) h
      simp only [Nat.add_comm (_ * _), Nat.add_mul_div_right _ _ hpos, Nat.div_eq_of_lt ha,
        Nat.div_eq_of_lt hb, Nat.zero_add] at hhigh
      rw [Fin.ext hhigh] at h ⊢
      rw [ih hl' (Nat.add_left_cancel h)]

theorem bigEndian_value (b : Bytes) : bigEndian b.length (value b) = b := by
  apply value_injective (bigEndian_length _ _)
  rw [value_bigEndian, Nat.mod_eq_of_lt (value_lt b)]

theorem value_bigEndian_word (w : Word) : value (bigEndian 32 w.val) = w.val := by
  rw [value_bigEndian]
  exact Nat.mod_eq_of_lt (by have := w.isLt; omega)

theorem bigEndian_injective : Function.Injective fun w : Word => bigEndian 32 w.val := by
  intro a b h
  have hv := congrArg value h
  simp only [value_bigEndian_word] at hv
  exact Fin.ext hv

/-- `abi.encode` of static values. -/
def abiEncode (ws : List Word) : Bytes := ws.flatMap fun w => bigEndian 32 w.val

/-- The `i`-th 32-byte word of a byte string. -/
def wordAt (bs : Bytes) (i : ℕ) : Word := Fin.ofNat _ (value ((bs.drop (32 * i)).take 32))

@[simp] theorem abiEncode_nil : abiEncode [] = [] := rfl

@[simp] theorem abiEncode_cons (w : Word) (ws : List Word) :
    abiEncode (w :: ws) = bigEndian 32 w.val ++ abiEncode ws := by
  simp [abiEncode]

@[simp] theorem abiEncode_length (ws : List Word) : (abiEncode ws).length = 32 * ws.length := by
  induction ws with
  | nil => rfl
  | cons w ws ih => simp [ih]; omega

theorem abiEncode_injective : Function.Injective abiEncode := by
  intro ws
  induction ws with
  | nil =>
    intro vs h
    have hl := congrArg List.length h
    simp only [abiEncode_length, List.length_nil] at hl
    exact (List.length_eq_zero_iff.mp (by omega)).symm
  | cons w ws ih =>
    intro vs h
    cases vs with
    | nil =>
      have hl := congrArg List.length h
      simp at hl
    | cons v vs =>
      simp only [abiEncode_cons] at h
      obtain ⟨hw, hws⟩ := List.append_inj h (by simp)
      rw [bigEndian_injective hw, ih hws]

theorem wordAt_cons_zero (w : Word) (bs : Bytes) : wordAt (bigEndian 32 w.val ++ bs) 0 = w := by
  simp [wordAt, value_bigEndian_word]

theorem wordAt_cons_succ (w : Word) (bs : Bytes) (i : ℕ) :
    wordAt (bigEndian 32 w.val ++ bs) (i + 1) = wordAt bs i := by
  have hd : (bigEndian 32 w.val ++ bs).drop (32 * (i + 1)) = bs.drop (32 * i) := by
    rw [show 32 * (i + 1) = (bigEndian 32 w.val).length + 32 * i by simp; omega]
    exact List.drop_length_add_append _
  simp only [wordAt, hd]

theorem wordAt_abiEncode (ws : List Word) (i : ℕ) (h : i < ws.length) :
    wordAt (abiEncode ws) i = ws[i] := by
  induction ws generalizing i with
  | nil => simp at h
  | cons w ws ih =>
    rw [abiEncode_cons]
    cases i with
    | zero => exact wordAt_cons_zero w _
    | succ i => rw [wordAt_cons_succ, ih i (by simpa using h)]; rfl

end StealthWage.Words
