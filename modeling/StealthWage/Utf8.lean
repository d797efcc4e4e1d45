import StealthWage.Js

/-! # UTF-8

`encode` is what a buffer holds of a string and `decode` the replacing decoder: each
maximal ill-formed piece becomes one U+FFFD, and the byte that broke it is read again. -/
namespace StealthWage.Utf8
open Js Words

def byte (n : ℕ) : Byte := Fin.ofNat 256 n

theorem byte_val {n : ℕ} (h : n < 256) : (byte n).val = n := Nat.mod_eq_of_lt h

theorem unit_val {n : ℕ} (h : n < 65536) : (unit n).val = n := Nat.mod_eq_of_lt h

def isHigh (u : CodeUnit) : Bool := 0xD800 ≤ u.val && u.val ≤ 0xDBFF

def isLow (u : CodeUnit) : Bool := 0xDC00 ≤ u.val && u.val ≤ 0xDFFF

/-! ## Encoding -/

def encodePoint (c : ℕ) : Bytes :=
  if c < 0x80 then [byte c]
  else if c < 0x800 then [byte (0xC0 + c / 64), byte (0x80 + c % 64)]
  else if c < 0x10000 then
    [byte (0xE0 + c / 4096), byte (0x80 + c / 64 % 64), byte (0x80 + c % 64)]
  else
    [byte (0xF0 + c / 262144), byte (0x80 + c / 4096 % 64), byte (0x80 + c / 64 % 64),
      byte (0x80 + c % 64)]

/-- The code point of a surrogate pair. -/
def pairPoint (a b : CodeUnit) : ℕ := 0x10000 + (a.val - 0xD800) * 1024 + (b.val - 0xDC00)

/-- A lone surrogate is written as U+FFFD. -/
def encodeUnit (u : CodeUnit) : Bytes :=
  if isHigh u || isLow u then encodePoint 0xFFFD else encodePoint u.val

def encode : JsString → Bytes
  | [] => []
  | [u] => encodeUnit u
  | a :: b :: s =>
    if isHigh a && isLow b then encodePoint (pairPoint a b) ++ encode s
    else encodeUnit a ++ encode (b :: s)

/-! ## Decoding -/

/-- A sequence that has begun: how many bytes are still to come, where the next has to
lie, and the bits so far. -/
structure Partial where
  needed : ℕ
  lower : ℕ
  upper : ℕ
  codePoint : ℕ

def replacement : CodeUnit := 0xFFFD

def utf16 (c : ℕ) : JsString :=
  if c < 0x10000 then [unit c]
  else [unit (0xD800 + (c - 0x10000) / 1024), unit (0xDC00 + (c - 0x10000) % 1024)]

def lead (b : Byte) : JsString × Option Partial :=
  if b.val < 0x80 then ([unit b.val], none)
  else if 0xC2 ≤ b.val ∧ b.val ≤ 0xDF then ([], some ⟨1, 0x80, 0xBF, b.val - 0xC0⟩)
  else if 0xE0 ≤ b.val ∧ b.val ≤ 0xEF then
    ([], some ⟨2, if b.val = 0xE0 then 0xA0 else 0x80, if b.val = 0xED then 0x9F else 0xBF,
      b.val - 0xE0⟩)
  else if 0xF0 ≤ b.val ∧ b.val ≤ 0xF4 then
    ([], some ⟨3, if b.val = 0xF0 then 0x90 else 0x80, if b.val = 0xF4 then 0x8F else 0xBF,
      b.val - 0xF0⟩)
  else ([replacement], none)

def advance : Option Partial → Byte → JsString × Option Partial
  | none, b => lead b
  | some p, b =>
    if p.lower ≤ b.val ∧ b.val ≤ p.upper then
      let c := p.codePoint * 64 + (b.val - 0x80)
      if p.needed = 1 then (utf16 c, none) else ([], some ⟨p.needed - 1, 0x80, 0xBF, c⟩)
    else (replacement :: (lead b).1, (lead b).2)

def decodeFrom : Option Partial → Bytes → JsString
  | none, [] => []
  | some _, [] => [replacement]
  | p, b :: bs => (advance p b).1 ++ decodeFrom (advance p b).2 bs

def decode (bs : Bytes) : JsString := decodeFrom none bs

/-! ## Round trip -/

theorem decodeFrom_cons (p : Option Partial) (b : Byte) (bs : Bytes) :
    decodeFrom p (b :: bs) = (advance p b).1 ++ decodeFrom (advance p b).2 bs := by
  cases p <;> rfl

/-- A byte in the expected place extends the sequence. -/
theorem advance_next {p : Partial} {b : Byte} (h : p.lower ≤ b.val ∧ b.val ≤ p.upper)
    (hn : p.needed ≠ 1) : advance (some p) b =
      ([], some ⟨p.needed - 1, 0x80, 0xBF, p.codePoint * 64 + (b.val - 0x80)⟩) := by
  simp only [advance, if_pos h, if_neg hn]

/-- The last byte of a sequence yields its code point. -/
theorem advance_last {p : Partial} {b : Byte} (h : p.lower ≤ b.val ∧ b.val ≤ p.upper)
    (hn : p.needed = 1) :
    advance (some p) b = (utf16 (p.codePoint * 64 + (b.val - 0x80)), none) := by
  simp only [advance, if_pos h, if_pos hn]

/-- A Unicode scalar value. -/
def Scalar (c : ℕ) : Prop := c < 0xD800 ∨ 0xDFFF < c ∧ c < 0x110000

theorem tail_val (n : ℕ) : (byte (0x80 + n % 64)).val = 0x80 + n % 64 := byte_val (by omega)

theorem lead_two {n : ℕ} (h : 2 ≤ n ∧ n < 32) :
    lead (byte (0xC0 + n)) = ([], some ⟨1, 0x80, 0xBF, n⟩) := by
  have hb : (byte (0xC0 + n)).val = 0xC0 + n := byte_val (by omega)
  unfold lead
  rw [if_neg (by omega), if_pos (by omega), hb, Nat.add_sub_cancel_left]

theorem lead_three {n : ℕ} (h : n < 16) :
    lead (byte (0xE0 + n)) = ([], some ⟨2, if n = 0 then 0xA0 else 0x80,
      if n = 13 then 0x9F else 0xBF, n⟩) := by
  have hb : (byte (0xE0 + n)).val = 0xE0 + n := byte_val (by omega)
  unfold lead
  rw [if_neg (by omega), if_neg (by omega), if_pos (by omega), hb, Nat.add_sub_cancel_left]
  simp only [Nat.add_eq_left, show 0xE0 + n = 0xED ↔ n = 13 by omega]

theorem lead_four {n : ℕ} (h : n ≤ 4) :
    lead (byte (0xF0 + n)) = ([], some ⟨3, if n = 0 then 0x90 else 0x80,
      if n = 4 then 0x8F else 0xBF, n⟩) := by
  have hb : (byte (0xF0 + n)).val = 0xF0 + n := byte_val (by omega)
  unfold lead
  rw [if_neg (by omega), if_neg (by omega), if_neg (by omega), if_pos (by omega), hb,
    Nat.add_sub_cancel_left]
  simp only [Nat.add_eq_left, show 0xF0 + n = 0xF4 ↔ n = 4 by omega]

theorem decodeFrom_encodePoint {c : ℕ} (hc : Scalar c) (bs : Bytes) :
    decodeFrom none (encodePoint c ++ bs) = utf16 c ++ decodeFrom none bs := by
  unfold Scalar at hc
  have hnone : ∀ b, advance none b = lead b := fun _ => rfl
  unfold encodePoint
  split_ifs with h1 h2 h3
  · have hb : (byte c).val = c := byte_val (by omega)
    have hlead : lead (byte c) = ([unit c], none) := by rw [lead, if_pos (by omega), hb]
    rw [List.cons_append, decodeFrom_cons, hnone, hlead, utf16, if_pos (by omega)]
    rfl
  · simp only [List.cons_append, List.nil_append, decodeFrom_cons]
    rw [hnone, lead_two (by omega), advance_last (by rw [tail_val]; simp only; omega) rfl, tail_val]
    rw [show c / 64 * 64 + (0x80 + c % 64 - 0x80) = c by omega]
    rfl
  · simp only [List.cons_append, List.nil_append, decodeFrom_cons]
    rw [hnone, lead_three (by omega)]
    have hsecond : (if c / 4096 = 0 then 0xA0 else 0x80) ≤ 0x80 + c / 64 % 64 ∧
        0x80 + c / 64 % 64 ≤ if c / 4096 = 13 then 0x9F else 0xBF := by
      split_ifs <;> omega
    rw [advance_next (by rw [tail_val]; exact hsecond) (by simp), tail_val]
    rw [advance_last (by rw [tail_val]; simp only; omega) rfl, tail_val]
    simp only [List.nil_append]
    rw [show (c / 4096 * 64 + (0x80 + c / 64 % 64 - 0x80)) * 64 + (0x80 + c % 64 - 0x80) = c by omega]
  · simp only [List.cons_append, List.nil_append, decodeFrom_cons]
    rw [hnone, lead_four (by omega)]
    have hsecond : (if c / 262144 = 0 then 0x90 else 0x80) ≤ 0x80 + c / 4096 % 64 ∧
        0x80 + c / 4096 % 64 ≤ if c / 262144 = 4 then 0x8F else 0xBF := by
      split_ifs <;> omega
    rw [advance_next (by rw [tail_val]; exact hsecond) (by simp), tail_val]
    rw [advance_next (by rw [tail_val]; simp only; omega) (by simp), tail_val]
    rw [advance_last (by rw [tail_val]; simp only; omega) rfl, tail_val]
    simp only [List.nil_append]
    rw [show ((c / 262144 * 64 + (0x80 + c / 4096 % 64 - 0x80)) * 64 +
      (0x80 + c / 64 % 64 - 0x80)) * 64 + (0x80 + c % 64 - 0x80) = c by omega]

/-- No surrogate stands alone. -/
def wellFormed : JsString → Bool
  | [] => true
  | [u] => !isHigh u && !isLow u
  | a :: b :: s =>
    if isHigh a && isLow b then wellFormed s else !isHigh a && !isLow a && wellFormed (b :: s)

theorem scalar_of_unit {u : CodeUnit} (h : isHigh u = false ∧ isLow u = false) :
    Scalar u.val ∧ utf16 u.val = [u] := by
  have hu := u.isLt
  simp only [isHigh, isLow, Bool.and_eq_false_iff, decide_eq_false_iff_not] at h
  have hself : unit u.val = u := Fin.ext (unit_val hu)
  refine ⟨by unfold Scalar; omega, ?_⟩
  rw [utf16, if_pos hu, hself]

theorem scalar_of_pair {a b : CodeUnit} (ha : isHigh a = true) (hb : isLow b = true) :
    Scalar (pairPoint a b) ∧ utf16 (pairPoint a b) = [a, b] := by
  simp only [isHigh, isLow, Bool.and_eq_true, decide_eq_true_eq] at ha hb
  unfold pairPoint
  have hhigh : unit (0xD800 + (0x10000 + (a.val - 0xD800) * 1024 + (b.val - 0xDC00) - 0x10000) /
      1024) = a := Fin.ext (by rw [unit_val (by omega)]; omega)
  have hlow : unit (0xDC00 + (0x10000 + (a.val - 0xD800) * 1024 + (b.val - 0xDC00) - 0x10000) %
      1024) = b := Fin.ext (by rw [unit_val (by omega)]; omega)
  refine ⟨by unfold Scalar; omega, ?_⟩
  rw [utf16, if_neg (by omega), hhigh, hlow]

/-- A string without lone surrogates is a sequence of Unicode scalar values, and `encode` writes
one after the other. -/
theorem exists_points {s : JsString} (h : wellFormed s = true) : ∃ cs : List ℕ,
    (∀ c ∈ cs, Scalar c) ∧ encode s = cs.flatMap encodePoint ∧ s = cs.flatMap utf16 := by
  induction s using encode.induct with
  | case1 => exact ⟨[], by simp, rfl, rfl⟩
  | case2 u =>
    simp only [wellFormed, Bool.and_eq_true, Bool.not_eq_true'] at h
    obtain ⟨hs, hu⟩ := scalar_of_unit h
    refine ⟨[u.val], by simpa using hs, ?_, by simp [hu]⟩
    simp [encode, encodeUnit, h]
  | case3 a b s hab ih =>
    rw [wellFormed, if_pos hab] at h
    obtain ⟨cs, hcs, hencode, hunits⟩ := ih h
    have hpair := hab
    rw [Bool.and_eq_true] at hab
    obtain ⟨hs, hu⟩ := scalar_of_pair hab.1 hab.2
    refine ⟨pairPoint a b :: cs, List.forall_mem_cons.mpr ⟨hs, hcs⟩, ?_, ?_⟩
    · rw [encode, if_pos hpair, hencode, List.flatMap_cons]
    · rw [List.flatMap_cons, hu, ← hunits]
      rfl
  | case4 a b s hab ih =>
    rw [wellFormed, if_neg hab] at h
    simp only [Bool.and_eq_true, Bool.not_eq_true'] at h
    obtain ⟨cs, hcs, hencode, hunits⟩ := ih h.2
    obtain ⟨hs, hu⟩ := scalar_of_unit h.1
    refine ⟨a.val :: cs, List.forall_mem_cons.mpr ⟨hs, hcs⟩, ?_, ?_⟩
    · rw [encode, if_neg hab, encodeUnit, h.1.1, h.1.2, Bool.or_self, if_neg (by decide), hencode,
        List.flatMap_cons]
    · rw [List.flatMap_cons, hu, ← hunits]
      rfl

/-- The decoder reads every well-formed string back. -/
theorem decode_encode (s : JsString) (h : wellFormed s = true) : decode (encode s) = s := by
  obtain ⟨cs, hcs, hencode, hunits⟩ := exists_points h
  rw [hencode, decode]
  conv_rhs => rw [hunits]
  clear hencode hunits
  induction cs with
  | nil => rfl
  | cons c cs ih =>
    obtain ⟨hc, hcs⟩ := List.forall_mem_cons.mp hcs
    rw [List.flatMap_cons, decodeFrom_encodePoint hc, ih hcs, List.flatMap_cons]

/-- ASCII takes one byte. -/
theorem encode_plain {u : CodeUnit} (h : u.val < 0x80) (s : JsString) :
    encode (u :: s) = byte u.val :: encode s := by
  have hplain : isHigh u = false ∧ isLow u = false := by
    simp only [isHigh, isLow, Bool.and_eq_false_iff, decide_eq_false_iff_not]
    omega
  have hunit : encodeUnit u = [byte u.val] := by
    rw [encodeUnit, hplain.1, hplain.2, Bool.or_self, if_neg (by decide), encodePoint, if_pos h]
  cases s with
  | nil => exact hunit
  | cons v s =>
    rw [encode, hplain.1, Bool.false_and, if_neg (by decide), hunit]
    rfl

end StealthWage.Utf8
