import StealthWage.FixedPoint
import StealthWage.Protocol

/-! # Rates

A salary per day or a decimal number becomes a rate per second, scaled by `rateScale`. -/
namespace StealthWage.Protocol
open FixedPoint Js

def ratePerDayToScaled (rawUnitsPerDay : ℤ) : ℤ := (rawUnitsPerDay * rateScale).tdiv 86400

/-! ## Salaries -/

/-- Division of `bigint`s rounds towards zero, which is down for what is not negative. -/
theorem tdiv_eq_floor {a b : ℤ} (ha : 0 ≤ a) (hb : 0 ≤ b) : a.tdiv b = ⌊(a : ℚ) / b⌋ := by
  obtain ⟨n, rfl⟩ := Int.eq_ofNat_of_zero_le hb
  rw [Int.tdiv_eq_ediv_of_nonneg ha, Int.cast_natCast, Rat.floor_intCast_div_natCast]

theorem ratePerDayToScaled_eq {d : ℤ} (hd : 0 ≤ d) :
    ratePerDayToScaled d = ⌊(d : ℚ) / 86400 * (10 ^ 12 : ℚ)⌋ := by
  rw [ratePerDayToScaled, tdiv_eq_floor (mul_nonneg hd (by decide)) (by decide)]
  congr 1
  simp only [rateScale]
  push_cast
  ring

theorem ratePerDayToScaled_nonneg {d : ℤ} (hd : 0 ≤ d) : 0 ≤ ratePerDayToScaled d :=
  Int.tdiv_nonneg (mul_nonneg hd (by decide)) (by decide)

/-- The seconds that a stream has run. -/
def elapsed (startTime now : ℤ) : ℤ := max 0 (now - startTime)

theorem accruedAt_eq_accrual {t : StreamTerms} {d : ℤ} (hd : 0 ≤ d)
    (ht : t.ratePerSecond = ratePerDayToScaled d) (now : ℤ) :
    accruedAt t now =
      min (accrual (10 ^ 12 : ℚ) ((d : ℚ) / 86400) (elapsed t.startTime now)) t.total := by
  have hmul : 0 ≤ ratePerDayToScaled d * max (now - t.startTime) 0 :=
    mul_nonneg (ratePerDayToScaled_nonneg hd) (le_max_right _ _)
  rw [accruedAt_eq_min, ht, tdiv_eq_floor hmul (by decide), accrual, ← ratePerDayToScaled_eq hd,
    elapsed, max_comm]
  simp only [rateScale]
  push_cast
  rfl

/-- Fixed-point accrual never overpays, and what it loses is bounded. -/
theorem accrual_bounds {d total startTime : ℤ} (hd : 0 ≤ d) (htotal : 0 ≤ total)
    {t : StreamTerms} (ht : t.ratePerSecond = ratePerDayToScaled d ∧ t.total = total ∧
      t.startTime = startTime) (now : ℤ) :
    let e := elapsed startTime now
    let exact : ℤ := min total ⌊(d : ℚ) * e / 86400⌋
    accruedAt t now ≤ exact ∧ exact - accruedAt t now ≤ ⌈(e : ℚ) / 10 ^ 12⌉ ∧
    (e < 10 ^ 12 → exact - accruedAt t now ≤ 1) ∧
    (∀ later, now ≤ later → accruedAt t now ≤ accruedAt t later) ∧
    (now ≤ startTime → accruedAt t now = 0) ∧ accruedAt t now ≤ total := by
  obtain ⟨hrate, rfl, rfl⟩ := ht
  intro e exact
  have he : (0 : ℚ) ≤ e := by exact_mod_cast le_max_left _ _
  have hproduct : (d : ℚ) / 86400 * e = (d : ℚ) * e / 86400 := by ring
  have hle := accrual_le (S := (10 ^ 12 : ℚ)) (by norm_num) he ((d : ℚ) / 86400)
  have hloss := le_accrual_add (S := (10 ^ 12 : ℚ)) (by norm_num) he ((d : ℚ) / 86400)
  rw [hproduct] at hle hloss
  have haccrued := accruedAt_eq_accrual hd hrate now
  have hceil : (0 : ℤ) ≤ ⌈(e : ℚ) / 10 ^ 12⌉ := Int.ceil_nonneg (div_nonneg he (by norm_num))
  have hshort : exact - accruedAt t now ≤ ⌈(e : ℚ) / 10 ^ 12⌉ := by
    rw [haccrued]
    simp only [exact]
    change min t.total _ - min (accrual (10 ^ 12 : ℚ) ((d : ℚ) / 86400) (e : ℚ)) t.total ≤ _
    omega
  refine ⟨?_, hshort, fun hlt => hshort.trans ?_, fun later hlater => ?_, ?_, ?_⟩
  · rw [haccrued]
    simp only [exact]
    change min (accrual (10 ^ 12 : ℚ) ((d : ℚ) / 86400) (e : ℚ)) t.total ≤ _
    omega
  · refine Int.ceil_le.mpr ?_
    rw [div_le_iff₀ (by norm_num)]
    have hcast : (e : ℚ) < 10 ^ 12 := by exact_mod_cast hlt
    push_cast
    linarith
  · exact accruedAt_mono (hrate ▸ ratePerDayToScaled_nonneg hd) hlater
  · exact accruedAt_of_le htotal
  · exact accruedAt_le_total t now

/-- Ten tokens of six decimals a day. -/
def salary : StreamTerms := ⟨[], [], [], ratePerDayToScaled 10000000, 10 ^ 9, 0, []⟩

theorem accrual_bounds_salary :
    accruedAt salary 86400 = 9999999 ∧ 10000000 - accruedAt salary 86400 ≤ 1 := by
  refine ⟨by decide +kernel, ?_⟩
  obtain ⟨-, -, hshort, -⟩ := accrual_bounds (d := 10000000) (t := salary) (by decide)
    (show (0 : ℤ) ≤ 10 ^ 9 by decide) ⟨rfl, rfl, rfl⟩ 86400
  have hday : elapsed salary.startTime 86400 = 86400 := by decide
  have hexact : ⌊((10000000 : ℤ) : ℚ) * (86400 : ℤ) / 86400⌋ = 10000000 := by norm_num
  rw [hday, hexact] at hshort
  exact hshort (by decide)

/-! ## Salaries on display -/

/-- What three pages of the frontend show for a rate. -/
def perDay (ratePerSecond : ℤ) : ℤ :=
  (ratePerSecond * 86400 + rateScale.tdiv 2).tdiv rateScale

theorem perDay_eq_round {rate : ℤ} (h : 0 ≤ rate) :
    perDay rate = round ((rate : ℚ) * 86400 / rateScale) := by
  have hsum : 0 ≤ rate * 86400 + rateScale.tdiv 2 := add_nonneg (by omega) (by decide)
  rw [perDay, tdiv_eq_floor hsum (by decide), round_eq]
  congr 1
  simp only [rateScale]
  push_cast
  norm_num
  ring

/-- A salary is shown as it was entered, and every rate as the nearest salary. -/
theorem perDay_exact :
    (∀ d : ℤ, 0 ≤ d → perDay (ratePerDayToScaled d) = d) ∧
    ∀ rate : ℤ, 0 ≤ rate → IsNearest ((rate : ℚ) * 86400 / rateScale) (perDay rate) := by
  constructor
  · intro d hd
    have hread := round_scaled (S := (10 ^ 12 : ℚ)) (e := 86400) (by norm_num) (by norm_num)
      ((d : ℚ) / 86400) (n := d) (by ring) (by norm_num)
    have hscale : ((rateScale : ℤ) : ℚ) = 10 ^ 12 := by norm_num [rateScale]
    rw [perDay_eq_round (ratePerDayToScaled_nonneg hd), ratePerDayToScaled_eq hd, hscale]
    exact hread
  · intro rate hrate
    rw [perDay_eq_round hrate]
    exact isNearest_round _

/-- A quarter of a token of six decimals a day. -/
theorem perDay_exact_quarter : perDay (ratePerDayToScaled 250000) = 250000 ∧
    IsNearest ((2893518 : ℤ) * 86400 / rateScale : ℚ) (perDay 2893518) :=
  ⟨perDay_exact.1 250000 (by decide), perDay_exact.2 2893518 (by decide)⟩

/-! ## Decimal numbers -/

/-- The text before the first dot. -/
def wholePart (text : JsString) : JsString := (text.splitOn 46).headD []

/-- The text between the first dot and the second, cut or filled up with zeros to 12 units. -/
def fractionPart (text : JsString) : JsString :=
  ((text.splitOn 46).tail.headD [] ++ List.replicate 12 48).take 12

def toScaledRate (rawUnitsPerSecond : JsString) : Option ℤ := do
  let whole ← bigint (wholePart rawUnitsPerSecond)
  let fracPadded := fractionPart rawUnitsPerSecond
  let frac ← bigint (if fracPadded = [] then js "0" else fracPadded)
  return whole * rateScale + frac

/-- `text` is `whole`, or `whole` and `fraction` around a dot, both of them digits. -/
def IsDecimal (text whole fraction : JsString) : Prop :=
  isDigits whole ∧ isDigits fraction ∧
    (text = whole ∧ fraction = [] ∨ text = whole ++ 46 :: fraction)

/-- The number that the two groups of digits denote; a group without digits counts as zero. -/
def decimalValue (whole fraction : JsString) : ℚ :=
  numberOf whole + numberOf fraction / 10 ^ fraction.length

theorem IsDecimal.units {text whole fraction : JsString} (h : IsDecimal text whole fraction)
    {u : CodeUnit} (hu : u ∈ text) : u = 46 ∨ 48 ≤ u.val ∧ u.val ≤ 57 := by
  obtain ⟨hw, hf, ⟨rfl, -⟩ | rfl⟩ := h
  · exact .inr (hw u hu)
  · rcases List.mem_append.mp hu with hu | hu
    · exact .inr (hw u hu)
    · rcases List.mem_cons.mp hu with rfl | hu
      · exact .inl rfl
      · exact .inr (hf u hu)

theorem split_digits {s : JsString} (h : isDigits s) : s.splitOn 46 = [s] := by
  refine List.splitOnP_eq_singleton fun u hu => ?_
  have hu' := h u hu
  simp only [beq_eq_false_iff_ne, ne_eq]
  rintro rfl
  revert hu'
  decide

theorem split_dot {s : JsString} (h : isDigits s) (t : JsString) :
    (s ++ 46 :: t).splitOn 46 = s :: t.splitOn 46 := by
  refine List.splitOnP_append_cons_of_forall_mem (fun u hu => ?_) 46 (by decide) t
  have hu' := h u hu
  simp only [beq_eq_false_iff_ne, ne_eq]
  rintro rfl
  revert hu'
  decide

theorem parts_of_isDecimal {text whole fraction : JsString} (h : IsDecimal text whole fraction) :
    wholePart text = whole ∧ fractionPart text = (fraction ++ List.replicate 12 48).take 12 := by
  obtain ⟨hw, hf, ⟨rfl, rfl⟩ | rfl⟩ := h
  · simp [wholePart, fractionPart, split_digits hw]
  · simp [wholePart, fractionPart, split_dot hw, split_digits hf]

/-- Filling up with zeros and cutting to 12 digits rounds down. -/
theorem numberOf_fraction {f : JsString} (h : isDigits f) :
    numberOf ((f ++ List.replicate 12 48).take 12) = numberOf f * 10 ^ 12 / 10 ^ f.length := by
  have hzeros : isDigits (List.replicate 12 48) := by decide
  have hall : isDigits (f ++ List.replicate 12 48) := by
    intro u hu
    rcases List.mem_append.mp hu with hu | hu
    · exact h u hu
    · exact hzeros u hu
  have hsplit := List.take_append_drop 12 (f ++ List.replicate 12 48)
  have hlen : ((f ++ List.replicate 12 48).drop 12).length = f.length := by simp
  have hrest : isDigits ((f ++ List.replicate 12 48).drop 12) := fun u hu =>
    hall u (List.mem_of_mem_drop hu)
  have hlt := numberOf_lt hrest
  have hvalue := congrArg numberOf hsplit
  rw [numberOf_append, numberOf_append, numberOf_replicate_zero, List.length_replicate, hlen,
    add_zero] at hvalue
  rw [hlen] at hlt
  rw [← hvalue, Nat.add_div_of_dvd_right (Dvd.intro_left _ rfl),
    Nat.mul_div_cancel _ (by positivity), Nat.div_eq_of_lt hlt, add_zero]

theorem toScaledRate_isDecimal {text whole fraction : JsString}
    (h : IsDecimal text whole fraction) :
    toScaledRate text = some ⌊decimalValue whole fraction * 10 ^ 12⌋ := by
  obtain ⟨hwhole, hfraction⟩ := parts_of_isDecimal h
  obtain ⟨hw, hf, -⟩ := h
  have hpadded : isDigits ((fraction ++ List.replicate 12 48).take 12) := by
    intro u hu
    rcases List.mem_append.mp (List.mem_of_mem_take hu) with hu | hu
    · exact hf u hu
    · rw [List.eq_of_mem_replicate hu]
      decide
  have hne : (fraction ++ List.replicate 12 48).take 12 ≠ [] := by simp
  have hfloor : ⌊decimalValue whole fraction * 10 ^ 12⌋ =
      numberOf whole * rateScale +
        (numberOf fraction * 10 ^ 12 / 10 ^ fraction.length : ℕ) := by
    have hsum : decimalValue whole fraction * 10 ^ 12 = ((numberOf whole * 10 ^ 12 : ℤ) : ℚ) +
        ((numberOf fraction * 10 ^ 12 : ℕ) : ℚ) / ((10 ^ fraction.length : ℕ) : ℚ) := by
      rw [decimalValue]
      push_cast
      ring
    rw [hsum, Int.floor_intCast_add, Rat.floor_natCast_div_natCast]
    rfl
  simp only [toScaledRate, hwhole, hfraction, if_neg hne, bigint_digits hw, bigint_digits hpadded,
    Option.bind_eq_bind, Option.bind_some, pure, numberOf_fraction hf, hfloor]

theorem toScaledRate_isSome {text : JsString} : (toScaledRate text).isSome ↔
    isIntegerLiteral (wholePart text) ∧ isIntegerLiteral (fractionPart text) := by
  have hne : fractionPart text ≠ [] := by simp [fractionPart]
  rw [← bigint_isSome, ← bigint_isSome, toScaledRate]
  simp only [if_neg hne]
  cases bigint (wholePart text) with
  | none => simp
  | some w => cases bigint (fractionPart text) <;> simp

/-- What a parser of decimal numbers does: the value of one, and an error for all other text. -/
def ParsesDecimal (text : JsString) : Prop :=
  (∀ whole fraction, IsDecimal text whole fraction →
    toScaledRate text = some ⌊decimalValue whole fraction * 10 ^ 12⌋) ∧
  ((∀ whole fraction, ¬ IsDecimal text whole fraction) → toScaledRate text = none)

/-- Decimal numbers are read exactly; other text is refused unless `BigInt` takes both the
text before the first dot and the twelve units made of the text behind it. -/
theorem scaled_rate (text : JsString) :
    (ParsesDecimal text ↔ (∃ whole fraction, IsDecimal text whole fraction) ∨
      ¬ (isIntegerLiteral (wholePart text) ∧ isIntegerLiteral (fractionPart text))) ∧
    ∀ whole fraction text' whole' fraction', IsDecimal text whole fraction →
      IsDecimal text' whole' fraction' →
      decimalValue whole fraction ≤ decimalValue whole' fraction' →
      ∃ rate rate', toScaledRate text = some rate ∧ toScaledRate text' = some rate' ∧
        rate ≤ rate' := by
  constructor
  · constructor
    · rintro ⟨-, hrefuses⟩
      by_contra hn
      rw [not_or, not_not] at hn
      have hnone := hrefuses fun w f hd => hn.1 ⟨w, f, hd⟩
      have hsome := toScaledRate_isSome.mpr hn.2
      simp [hnone] at hsome
    · intro h
      refine ⟨fun w f hd => toScaledRate_isDecimal hd, fun hno => ?_⟩
      rcases h with ⟨w, f, hd⟩ | hliteral
      · exact absurd hd (hno w f)
      · rw [← toScaledRate_isSome] at hliteral
        simpa using hliteral
  · intro whole fraction text' whole' fraction' h h' hle
    refine ⟨_, _, toScaledRate_isDecimal h, toScaledRate_isDecimal h', Int.floor_le_floor ?_⟩
    exact mul_le_mul_of_nonneg_right hle (by norm_num)

/-- `-1.5` is read as `-0.5`. -/
theorem minus_counterexample : ¬ ParsesDecimal (js "-1.5") ∧
    toScaledRate (js "-1.5") = some (-500000000000) := by
  have hrate : toScaledRate (js "-1.5") = some (-500000000000) := by decide +kernel
  refine ⟨fun h => ?_, hrate⟩
  have hnone : toScaledRate (js "-1.5") = none := by
    refine h.2 ?_
    intro whole fraction hd
    rcases hd.units (show (45 : CodeUnit) ∈ js "-1.5" by decide) with h | h
    · exact absurd h (by decide)
    · exact absurd h (by decide)
  simp [hrate] at hnone

end StealthWage.Protocol
