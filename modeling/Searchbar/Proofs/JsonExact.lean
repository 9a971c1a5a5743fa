import Mathlib.Data.Int.Log
import Mathlib.Data.Rat.Floor
import Searchbar.Proofs.JsonNumber

/-!
# Short numerals are read exactly

A numeral spells a decimal, and the decimal that is written for a finite number rounds to that
number (`Numeral.magnitude_decimal_ofBinary64`). The reader does not round the decimal, though: it
rounds the digits to the format first and scales them by one operation after that. For a numeral of
up to fifteen digits and a small exponent nothing is lost by this, since the digits and the power of
ten are numbers of the format themselves (`Numeral.Short.toBinary64?_eq`).
-/

namespace Searchbar

/-! ### A ratio is rounded as the value it has -/

theorem roundDiv_mul_right (num den : Nat) {c : Nat} (hc : 0 < c) :
    roundDiv (num * c) (den * c) = roundDiv num den := by
  have hq : num * c / (den * c) = num / den := Nat.mul_div_mul_right num den hc
  have hr : num * c % (den * c) = num % den * c := Nat.mul_mod_mul_right c num den
  unfold roundDiv
  simp only [hq, hr, ← mul_assoc, Nat.mul_lt_mul_right hc]

theorem lastPlace_mul_right {num den c : Nat} (hnum : num ≠ 0) (hden : 0 < den) (hc : 0 < c) :
    lastPlace (num * c) (den * c) = lastPlace num den := by
  have hd : (0 : ℚ) < den := by exact_mod_cast hden
  have hn : (0 : ℚ) < num := by exact_mod_cast Nat.pos_of_ne_zero hnum
  have hratio : ((num * c : ℕ) / (den * c : ℕ) : ℚ) = num / den := by
    push_cast
    exact mul_div_mul_right _ _ (by exact_mod_cast hc.ne')
  -- one binade holds the ratio, and it decides the last place
  have hk : (2 : ℚ) ^ Int.log 2 (num / den : ℚ) ≤ num / den ∧
      (num / den : ℚ) < 2 ^ (Int.log 2 (num / den : ℚ) + 1) :=
    ⟨Int.zpow_log_le_self (by decide) (div_pos hn hd),
      Int.lt_zpow_succ_log_self (by decide) (num / den : ℚ)⟩
  rw [lastPlace_eq hnum hden hk, lastPlace_eq (Nat.mul_ne_zero hnum hc.ne') (Nat.mul_pos hden hc)
    (by rwa [hratio])]

theorem nearest_mul_right (num : Nat) {den c : Nat} (hden : 0 < den) (hc : 0 < c) :
    nearest (num * c) (den * c) = nearest num den := by
  by_cases hnum : num = 0
  · simp [nearest, hnum]
  · unfold nearest
    simp only [hnum, Nat.mul_ne_zero hnum hc.ne', if_false, lastPlace_mul_right hnum hden hc]
    rw [mul_right_comm num, mul_right_comm den, roundDiv_mul_right _ _ hc]

/-- **Equal ratios are rounded to the same number.** -/
theorem nearest_congr {num den num' den' : Nat} (hden : 0 < den) (hden' : 0 < den')
    (h : num * den' = num' * den) : nearest num den = nearest num' den' :=
  calc nearest num den
    _ = nearest (num * den') (den * den') := (nearest_mul_right num hden hden').symm
    _ = nearest (num' * den) (den' * den) := by rw [h, mul_comm den]
    _ = nearest num' den' := nearest_mul_right num' hden' hden

theorem nearest_le_infinity (num den : Nat) : nearest num den ≤ Binary64.infinity := by
  unfold nearest
  split
  · exact Nat.zero_le _
  · exact Nat.min_le_left _ _

/-! ### Whole numbers of the format -/

namespace Binary64

variable {x y : Binary64} {m n : Nat}

theorem magnitude_ofMagnitude_nearest (negative : Bool) (num den : Nat) :
    (ofMagnitude negative (nearest num den)).magnitude = nearest num den := by
  have h := nearest_le_infinity num den
  unfold infinity at h
  simp only [ofMagnitude]
  omega

theorem denominator_pos (x : Binary64) : 0 < x.denominator := Nat.pow_pos (by decide)

/-- A number whose absolute value is the whole number `n`. -/
def IsNat (x : Binary64) (n : Nat) : Prop := x.numerator = n * x.denominator

/-- A normal number has the significand and the exponent that its magnitude is made of. -/
theorem parts_of_magnitude {q : Int} (hq : -1074 ≤ q) (low : binade ≤ m) (high : m < 2 * binade)
    (h : x.magnitude = (q + 1074).toNat * binade + m) : x.significand = m ∧ x.exponent = q := by
  unfold significand exponent
  unfold binade at *
  split <;> omega

/-- **Whole numbers of up to 53 bits are numbers of the format.** -/
theorem isNat_ofNat (h : n < 2 ^ 53) : (ofNat n).IsNat n := by
  rcases Nat.eq_zero_or_pos n with rfl | hpos
  · simp [IsNat, ofNat, nearest, ofMagnitude, numerator, significand, binade]
  · -- the number is shifted up until its leading bit is that of a normal significand
    have hlog : n.log2 ≤ 52 := Nat.lt_succ_iff.mp ((Nat.log2_lt hpos.ne').mpr h)
    obtain ⟨k, hk⟩ : ∃ k, n.log2 + k = 52 := ⟨52 - n.log2, by omega⟩
    have hlow : binade ≤ n * 2 ^ k :=
      calc binade = 2 ^ n.log2 * 2 ^ k := by rw [← pow_add, hk]; rfl
        _ ≤ n * 2 ^ k := Nat.mul_le_mul_right _ (Nat.log2_self_le hpos.ne')
    have hhigh : n * 2 ^ k < 2 * binade :=
      calc n * 2 ^ k < 2 ^ (n.log2 + 1) * 2 ^ k :=
            Nat.mul_lt_mul_of_pos_right Nat.lt_log2_self (by positivity)
        _ = 2 ^ 53 := by rw [← pow_add]; congr 1; omega
        _ = 2 * binade := rfl
    have hneg : (-(-(k : Int))).toNat = k := by omega
    have hpos' : (-(k : Int)).toNat = 0 := by omega
    have hnearest : nearest n 1 = min infinity ((-(k : Int) + 1074).toNat * binade + n * 2 ^ k) :=
      nearest_of_eq Nat.one_pos (by positivity) hhigh (by omega) (.inr hlow)
        (by rw [hneg, hpos']; simp)
    have hsmall : (-(k : Int) + 1074).toNat * binade + n * 2 ^ k < infinity := by
      unfold binade infinity at *
      omega
    have hmagnitude : (ofNat n).magnitude = (-(k : Int) + 1074).toNat * binade + n * 2 ^ k := by
      rw [ofNat, magnitude_ofMagnitude_nearest, hnearest, min_eq_right hsmall.le]
    obtain ⟨hsignificand, hexponent⟩ := parts_of_magnitude (by omega) hlow hhigh hmagnitude
    rw [IsNat, numerator, denominator, hsignificand, hexponent, hneg, hpos']
    simp

/-- Powers of ten up to the twenty-second are numbers of the format, the larger of them because they
have many factors of two. -/
theorem isNat_tenPow : ∀ k < 23, (ofNat (Nat.pow 10 k)).IsNat (Nat.pow 10 k) := by
  unfold IsNat
  decide +kernel

/-- The product of whole numbers of the format is their product, rounded once. -/
theorem IsNat.magnitude_mul (hx : x.IsNat m) (hy : y.IsNat n) :
    (x.mul y).magnitude = nearest (m * n) 1 := by
  rw [mul, magnitude_ofMagnitude_nearest]
  refine nearest_congr (Nat.mul_pos x.denominator_pos y.denominator_pos) Nat.one_pos ?_
  rw [hx, hy]
  ring

/-- The quotient of whole numbers of the format is their quotient, rounded once. -/
theorem IsNat.magnitude_div (hx : x.IsNat m) (hy : y.IsNat n) (hn : 0 < n) :
    (x.div y).magnitude = nearest m n := by
  rw [div, magnitude_ofMagnitude_nearest]
  refine nearest_congr ?_ hn ?_
  · rw [hy]
    exact Nat.mul_pos x.denominator_pos (Nat.mul_pos hn y.denominator_pos)
  · rw [hx, hy]
    ring

end Binary64

namespace Decimal

/-- A decimal that is neither very large nor very small is rounded as the ratio it is. -/
theorem magnitude_eq_nearest {d : Decimal} (low : -330 ≤ d.exponent + digitCount d.digits)
    (high : d.exponent + digitCount d.digits ≤ 310) :
    d.magnitude =
      nearest (d.digits * Nat.pow 10 d.exponent.toNat) (Nat.pow 10 (-d.exponent).toNat) := by
  unfold magnitude
  dsimp only
  split
  · next hzero => simp [hzero, nearest]
  · rw [if_neg (by omega), if_neg (by omega)]

theorem ofDigits_toDigits (n : Nat) : ofDigits (Nat.toDigits 10 n) = n :=
  Nat.ofDigitChars_toDigits (by decide) (by decide)

theorem ofDigits_append (cs ds : List Char) :
    ofDigits (cs ++ ds) = Nat.ofDigitChars 10 ds (ofDigits cs) := List.foldl_append

theorem ofDigits_concat_zero (cs : List Char) : ofDigits (cs ++ ['0']) = ofDigits cs * 10 := by
  rw [ofDigits_append, mul_comm]
  rfl

theorem le_ofDigitChars (cs : List Char) (v : Nat) : v ≤ Nat.ofDigitChars 10 cs v := by
  induction cs generalizing v with
  | nil => exact le_rfl
  | cons c cs ih => exact le_trans (by omega) (ih (10 * v + (c.toNat - '0'.toNat)))

/-- As many digits spell a number below that power of ten. -/
theorem ofDigits_lt {cs : List Char} (h : ∀ c ∈ cs, c.isDigit = true) :
    ofDigits cs < 10 ^ cs.length := by
  have below : ∀ v, Nat.ofDigitChars 10 cs v < (v + 1) * 10 ^ cs.length := by
    induction cs with
    | nil => simp [Nat.ofDigitChars]
    | cons c cs ih =>
      intro v
      have hc : c.toNat - '0'.toNat ≤ 9 := by
        have hdigit := h c List.mem_cons_self
        simp only [Char.isDigit, Bool.and_eq_true, decide_eq_true_eq, ge_iff_le,
          UInt32.le_iff_toNat_le] at hdigit
        have : c.toNat ≤ 57 := hdigit.2
        have : '0'.toNat = 48 := rfl
        omega
      calc Nat.ofDigitChars 10 cs (10 * v + (c.toNat - '0'.toNat))
          < (10 * v + (c.toNat - '0'.toNat) + 1) * 10 ^ cs.length :=
            ih (fun d hd => h d (List.mem_cons_of_mem c hd)) _
        _ ≤ ((v + 1) * 10) * 10 ^ cs.length := Nat.mul_le_mul_right _ (by omega)
        _ = (v + 1) * 10 ^ (c :: cs).length := by rw [List.length_cons, pow_succ]; ring
  rw [ofDigits_eq]
  simpa using below 0

/-- A zero may move from the exponent to the digits. -/
theorem magnitude_shift (d : Decimal) :
    (⟨d.digits * 10, d.exponent - 1⟩ : Decimal).magnitude = d.magnitude := by
  by_cases hzero : d.digits = 0
  · simp [magnitude, hzero]
  · have hcount : digitCount (d.digits * 10) = digitCount d.digits + 1 := by
      simpa using digitCount_mul_ten_pow (Nat.pos_of_ne_zero hzero) 1
    have htop : d.exponent - 1 + ↑(digitCount d.digits + 1) = d.exponent + digitCount d.digits := by
      omega
    have hratio : nearest (d.digits * 10 * Nat.pow 10 (d.exponent - 1).toNat)
          (Nat.pow 10 (-(d.exponent - 1)).toNat) =
        nearest (d.digits * Nat.pow 10 d.exponent.toNat) (Nat.pow 10 (-d.exponent).toNat) := by
      refine nearest_congr (Nat.pow_pos (by decide)) (Nat.pow_pos (by decide)) ?_
      simp only [Nat.pow_eq]
      rcases le_or_gt d.exponent 0 with he | he
      · have h1 : (d.exponent - 1).toNat = 0 := by omega
        have h2 : (-(d.exponent - 1)).toNat = (-d.exponent).toNat + 1 := by omega
        have h3 : d.exponent.toNat = 0 := by omega
        rw [h1, h2, h3]
        ring
      · have h1 : (-(d.exponent - 1)).toNat = 0 := by omega
        have h2 : (-d.exponent).toNat = 0 := by omega
        have h3 : d.exponent.toNat = (d.exponent - 1).toNat + 1 := by omega
        rw [h1, h2, h3]
        ring
    simp only [magnitude, hcount, htop, hratio, hzero, mul_eq_zero, OfNat.ofNat_ne_zero, or_false]

end Decimal

/-- **A small power of ten is one operation away**, and the result is rounded once. -/
theorem Binary64.IsNat.scaled? {x : Binary64} {m : Nat} {e : Int} (hx : x.IsNat m)
    (hm : Decimal.digitCount m ≤ 15) (he : e.natAbs ≤ 22)
    (hfinite : (⟨m, e⟩ : Decimal).magnitude < infinity) :
    ∃ y, Binary64.scaled? 4 x e = some y ∧ y.magnitude = (⟨m, e⟩ : Decimal).magnitude := by
  have hpower := isNat_tenPow e.natAbs (by omega)
  have hcount := Decimal.digitCount_pos m
  rw [Decimal.magnitude_eq_nearest (by dsimp only; omega) (by dsimp only; omega)] at hfinite ⊢
  dsimp only at hfinite ⊢
  unfold Binary64.scaled?
  rw [if_pos (by omega)]
  split
  · next hpos =>
    have hzero : (-e).toNat = 0 := by omega
    have habs : e.toNat = e.natAbs := by omega
    rw [hzero, habs] at hfinite ⊢
    have hmul := hx.magnitude_mul hpower
    refine ⟨_, if_pos (isFinite_iff.mpr ?_), hmul⟩
    rw [hmul]
    exact hfinite
  · next hneg =>
    have hzero : e.toNat = 0 := by omega
    have habs : (-e).toNat = e.natAbs := by omega
    rw [hzero, habs]
    refine ⟨_, rfl, ?_⟩
    rw [hx.magnitude_div hpower (Nat.pow_pos (by decide))]
    simp

namespace Json.Numeral

/-! ### The decimal that a numeral spells -/

/-- The value of an exponent. -/
def exponentValue : Option (Bool × List Char) → Int
  | none => 0
  | some (true, ds) => -Decimal.ofDigits ds
  | some (false, ds) => Decimal.ofDigits ds

/-- **The decimal that a numeral spells**, without its sign. -/
def decimal (n : Numeral) : Decimal :=
  ⟨Decimal.ofDigits (n.whole ++ n.fraction), exponentValue n.exponent - n.fraction.length⟩

theorem exponentValue_toDigits (e : Int) :
    exponentValue (some (decide (e < 0), Nat.toDigits 10 e.natAbs)) = e := by
  have hdigits := Decimal.ofDigits_toDigits e.natAbs
  by_cases h : e < 0
  · simp only [h, decide_true, exponentValue, hdigits]
    omega
  · simp only [h, decide_false, exponentValue, hdigits]
    omega

/-- With a point and no exponent, a zero is written behind the point if no other digit is. -/
theorem magnitude_decimal_positional (d : Decimal) (negative : Bool) :
    (decimal ⟨negative, d.wholePart, (if d.fractionPart.isEmpty then ['0'] else d.fractionPart),
      none⟩).magnitude = d.magnitude := by
  have hparts := d.ofDigits_parts
  have hlength := d.length_fractionPart
  rw [← d.magnitude_writtenOut]
  split
  · next hempty =>
    have hnil : d.fractionPart = [] := by simpa using hempty
    rw [hnil, List.append_nil] at hparts
    rw [hnil, List.length_nil] at hlength
    rw [← d.writtenOut.magnitude_shift]
    congr 1
    simp only [decimal, exponentValue, Decimal.writtenOut, Decimal.ofDigits_concat_zero, hparts,
      List.length_singleton, Decimal.mk.injEq, true_and]
    omega
  · congr 1
    simp only [decimal, exponentValue, Decimal.writtenOut, hparts, hlength, Decimal.mk.injEq,
      true_and]
    omega

/-- With an exponent, the numeral spells the decimal as it is. -/
theorem decimal_scientific (d : Decimal) (negative : Bool) :
    decimal ⟨negative, d.digitChars.take 1, d.digitChars.drop 1,
      some (decide (d.point - 1 < 0), Nat.toDigits 10 (d.point - 1).natAbs)⟩ = d := by
  have hpos : 0 < d.digitChars.length := Nat.length_toDigits_pos
  have hpoint : d.point = d.digitChars.length + d.exponent := rfl
  have hdigits : Decimal.ofDigits d.digitChars = d.digits := Decimal.ofDigits_toDigits d.digits
  rw [decimal, List.take_append_drop, hdigits, exponentValue_toDigits, List.length_drop]
  congr 1
  omega

/-- **The numeral of a finite number spells a decimal that rounds to it.** -/
theorem magnitude_decimal_ofBinary64 {x : Binary64} (hx : x.isFinite = true) :
    (ofBinary64 x).decimal.magnitude = x.magnitude := by
  rw [← Binary64.magnitude_shortest hx .even]
  unfold ofBinary64
  dsimp only
  split
  · exact magnitude_decimal_positional _ _
  · rw [decimal_scientific]

/-! ### Reading -/

/-- One more digit before the point. -/
def wholeStep (s : Nat × Nat) (c : Char) : Nat × Nat :=
  if s.2 = 0 ∧ 10 * s.1 + digitValue c < wordLimit then (10 * s.1 + digitValue c, 0)
  else (s.1, s.2 + 1)

theorem foldl_wholeStep {cs : List Char} {v : Nat} (h : Nat.ofDigitChars 10 cs v < wordLimit) :
    cs.foldl wholeStep (v, 0) = (Nat.ofDigitChars 10 cs v, 0) := by
  induction cs generalizing v with
  | nil => rfl
  | cons c cs ih =>
    have hrest : Nat.ofDigitChars 10 cs (10 * v + digitValue c) < wordLimit := h
    have hfits := lt_of_le_of_lt (Decimal.le_ofDigitChars _ _) hrest
    rw [List.foldl_cons, wholeStep, if_pos ⟨rfl, hfits⟩]
    exact ih hrest

/-- All digits before the point are taken if they fit into 64 bits. -/
theorem wholeDigits_eq {cs : List Char} (h : Decimal.ofDigits cs < wordLimit) :
    wholeDigits cs = (Decimal.ofDigits cs, 0) := foldl_wholeStep h

/-- All digits after the point are taken if they fit into 64 bits. -/
theorem fractionDigits_eq {cs : List Char} {v : Nat} (h : Nat.ofDigitChars 10 cs v < wordLimit) :
    fractionDigits v cs = (Nat.ofDigitChars 10 cs v, cs.length) := by
  induction cs generalizing v with
  | nil => rfl
  | cons c cs ih =>
    have hrest : Nat.ofDigitChars 10 cs (10 * v + digitValue c) < wordLimit := h
    have hfits := lt_of_le_of_lt (Decimal.le_ofDigitChars _ _) hrest
    rw [fractionDigits, if_pos hfits, ih hrest]
    rfl

/-- **A short numeral**: up to fifteen digits, and an exponent that takes few places. -/
structure Short (n : Numeral) : Prop where
  digits : n.whole.length + n.fraction.length ≤ 15
  scale : n.decimal.exponent.natAbs ≤ 22

variable {n : Numeral}

theorem Short.digits_lt (h : n.Short) (hn : n.WellFormed) : n.decimal.digits < 10 ^ 15 := by
  have hall : ∀ c ∈ n.whole ++ n.fraction, c.isDigit = true := by
    intro c hc
    rcases List.mem_append.mp hc with hc | hc
    · exact hn.whole c hc
    · exact hn.fraction c hc
  calc n.decimal.digits < 10 ^ (n.whole ++ n.fraction).length := Decimal.ofDigits_lt hall
    _ ≤ 10 ^ 15 := Nat.pow_le_pow_right (by decide) (by rw [List.length_append]; exact h.digits)

/-- A short numeral is read in one operation, from all its digits. -/
theorem Short.toBinary64?_eq_scaled (h : n.Short) (hn : n.WellFormed) :
    n.toBinary64? = (Binary64.scaled? 4 (Binary64.ofNat n.decimal.digits) n.decimal.exponent).map
      fun x => Binary64.ofMagnitude n.negative x.magnitude := by
  -- all digits are taken, so none before the point is left out and all behind it are counted
  have hword : n.decimal.digits < wordLimit := (h.digits_lt hn).trans (by decide)
  have hdigits : n.decimal.digits = Nat.ofDigitChars 10 n.fraction (Decimal.ofDigits n.whole) :=
    Decimal.ofDigits_append _ _
  have hwhole : wholeDigits n.whole = (Decimal.ofDigits n.whole, 0) :=
    wholeDigits_eq (lt_of_le_of_lt (Decimal.le_ofDigitChars _ _) (hdigits ▸ hword))
  have hfraction : fractionDigits (Decimal.ofDigits n.whole) n.fraction =
      (n.decimal.digits, n.fraction.length) := by
    rw [fractionDigits_eq (hdigits ▸ hword), ← hdigits]
  have hscale := h.scale
  have hlength := h.digits
  unfold toBinary64?
  rw [hwhole]
  dsimp only
  rw [hfraction]
  dsimp only
  -- the exponent is far below the limit, since the places it takes are few
  cases he : n.exponent with
  | none =>
    have hexponent : n.decimal.exponent = ((0 : Nat) : Int) - n.fraction.length := by
      rw [decimal, he]
      rfl
    rw [hexponent]
  | some e =>
    obtain ⟨negative, ds⟩ := e
    have hexponent : n.decimal.exponent =
        exponentValue (some (negative, ds)) - n.fraction.length := by
      rw [decimal, he]
    rw [hexponent] at hscale ⊢
    cases negative with
    | false =>
      simp only [exponentValue, Bool.false_eq_true, if_false] at hscale ⊢
      rw [if_neg (by unfold exponentLimit; omega)]
      congr 2
      omega
    | true =>
      simp only [exponentValue, if_true] at hscale ⊢
      rw [if_neg (by unfold exponentLimit; omega)]
      congr 2
      omega

/-- **A short numeral is read as the number nearest to the decimal it spells.** -/
theorem Short.toBinary64?_eq (h : n.Short) (hn : n.WellFormed)
    (hfinite : n.decimal.magnitude < Binary64.infinity) :
    n.toBinary64? = some (Binary64.ofMagnitude n.negative n.decimal.magnitude) := by
  have hlt := h.digits_lt hn
  have hexact := Binary64.isNat_ofNat (hlt.trans (by decide))
  have hcount := (Decimal.digitCount_le_iff (by decide)).mpr hlt
  obtain ⟨y, hy, hmagnitude⟩ := hexact.scaled? hcount h.scale hfinite
  rw [h.toBinary64?_eq_scaled hn, hy, Option.map_some, hmagnitude]

end Json.Numeral

/-- **A number that JSON keeps**: it is finite, and its numeral is read as the number itself. -/
structure Binary64.Kept (x : Binary64) : Prop where
  finite : x.isFinite = true
  numeral : (Json.Numeral.ofBinary64 x).toBinary64? = some x

open Json.Numeral in
/-- **A finite number with a short numeral is kept.** -/
theorem Binary64.kept_of_short {x : Binary64} (hx : x.isFinite = true)
    (h : (Json.Numeral.ofBinary64 x).Short) : x.Kept := by
  have hmagnitude := magnitude_decimal_ofBinary64 hx
  have hsign : (Json.Numeral.ofBinary64 x).negative = x.negative := by
    unfold Json.Numeral.ofBinary64
    dsimp only
    split <;> rfl
  refine ⟨hx, ?_⟩
  rw [h.toBinary64?_eq (wellFormed_ofBinary64 hx) (by rw [hmagnitude]; exact isFinite_iff.mp hx),
    hmagnitude, hsign, ofMagnitude_magnitude]

end Searchbar
