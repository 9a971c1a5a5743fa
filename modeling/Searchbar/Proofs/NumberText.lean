import Mathlib.Algebra.Order.Field.Power
import Mathlib.Data.List.TakeWhile
import Mathlib.Data.Rat.Cast.Order
import Mathlib.Tactic.FieldSimp
import Mathlib.Tactic.Linarith
import Mathlib.Tactic.NormNum
import Mathlib.Tactic.Positivity
import Mathlib.Tactic.Ring
import Searchbar.Number.Layout

/-!
# Numbers and their text

A finite number is written as the shortest decimal that rounds to it, in positional notation, and
the text is read back to the same number, the sign of zero included (`Binary64.ofText?_text`).

* `nearest_of_eq`: rounding keeps a ratio that the format can hold. The argument is over rational
  numbers: a ratio lies in one binade only, and `lastPlace` finds it.
* `Binary64.magnitude_shortest`: the shortest decimal reads back. Either the search for it has
  tested that, or it is the exact expansion, whose ratio the format holds.
* `Decimal.ofChars?_positional`: positional text is read back, up to the zeros that a large exponent
  is written out with.
-/

namespace Searchbar

/-! ### Rounding an exact ratio -/

/-- A quotient without remainder rounds to itself. -/
theorem roundDiv_mul_self (m : Nat) {den : Nat} (h : 0 < den) : roundDiv (m * den) den = m := by
  unfold roundDiv
  have hq : m * den / den = m := Nat.mul_div_cancel m h
  have hr : m * den % den = 0 := Nat.mul_mod_left m den
  simp only [hq, hr, Nat.mul_zero, h, if_true]

/-- An integer power of two as a ratio of natural powers. -/
theorem two_zpow_mul (e : Int) : (2 : ℚ) ^ e * 2 ^ (-e).toNat = 2 ^ e.toNat := by
  rcases le_total 0 e with h | h
  · lift e to ℕ using h
    simp
  · obtain ⟨k, rfl⟩ : ∃ k : ℕ, e = -(k : Int) := ⟨(-e).toNat, by omega⟩
    simp

/-- The comparison by which `lastPlace` decides is the comparison of the ratio with `2 ^ e`. -/
theorem ratio_lt_zpow_iff {num den : Nat} (hden : 0 < den) (e : Int) :
    num * Nat.pow 2 (-e).toNat < den * Nat.pow 2 e.toNat ↔ (num / den : ℚ) < 2 ^ e := by
  have hd : (0 : ℚ) < den := by exact_mod_cast hden
  have hp : (0 : ℚ) < 2 ^ (-e).toNat := by positivity
  rw [div_lt_iff₀ hd, ← mul_lt_mul_iff_of_pos_right hp, mul_right_comm, two_zpow_mul e,
    mul_comm _ (den : ℚ)]
  simp only [Nat.pow_eq]
  exact_mod_cast Iff.rfl

/-- The binary logarithm places a positive number between two powers of two. -/
theorem zpow_log2_le {n : Nat} (h : n ≠ 0) :
    (2 : ℚ) ^ (n.log2 : Int) ≤ n ∧ (n : ℚ) < 2 ^ ((n.log2 : Int) + 1) := by
  have low : 2 ^ n.log2 ≤ n := Nat.log2_self_le h
  have high : n < 2 ^ (n.log2 + 1) := Nat.lt_log2_self
  constructor
  · rw [zpow_natCast]; exact_mod_cast low
  · rw [← Nat.cast_succ, zpow_natCast]; exact_mod_cast high

/-- Only one binade holds a number. -/
theorem binade_unique {r : ℚ} {i j : Int} (hi : (2 : ℚ) ^ i ≤ r ∧ r < 2 ^ (i + 1))
    (hj : (2 : ℚ) ^ j ≤ r ∧ r < 2 ^ (j + 1)) : i = j := by
  have hij : i < j + 1 := (zpow_lt_zpow_iff_right₀ one_lt_two).mp (hi.1.trans_lt hj.2)
  have hji : j < i + 1 := (zpow_lt_zpow_iff_right₀ one_lt_two).mp (hj.1.trans_lt hi.2)
  omega

/-- **The last place of a ratio** is 52 places below its binade, or the last place of the subnormal
numbers if that is higher. -/
theorem lastPlace_eq {num den : Nat} (hnum : num ≠ 0) (hden : 0 < den) {k : Int}
    (hk : (2 : ℚ) ^ k ≤ num / den ∧ (num / den : ℚ) < 2 ^ (k + 1)) :
    lastPlace num den = max (k - 52) (-1074) := by
  obtain ⟨numLow, numHigh⟩ := zpow_log2_le hnum
  obtain ⟨denLow, denHigh⟩ := zpow_log2_le hden.ne'
  have hd : (0 : ℚ) < den := by exact_mod_cast hden
  set a : Int := (num.log2 : Int)
  set b : Int := (den.log2 : Int)
  -- the logarithms leave two binades for the ratio, and `lastPlace` compares to tell them apart
  have low : (2 : ℚ) ^ (a - b - 1) ≤ num / den := by
    rw [le_div_iff₀ hd]
    calc (2 : ℚ) ^ (a - b - 1) * den ≤ 2 ^ (a - b - 1) * 2 ^ (b + 1) := by gcongr
      _ = 2 ^ a := by rw [← zpow_add₀ two_ne_zero]; congr 1; omega
      _ ≤ num := numLow
  have high : (num / den : ℚ) < 2 ^ (a - b + 1) := by
    rw [div_lt_iff₀ hd]
    calc (num : ℚ) < 2 ^ (a + 1) := numHigh
      _ = 2 ^ (a - b + 1) * 2 ^ b := by rw [← zpow_add₀ two_ne_zero]; congr 1; omega
      _ ≤ 2 ^ (a - b + 1) * den := by gcongr
  unfold lastPlace
  simp only [ratio_lt_zpow_iff hden]
  split
  · next hlt =>
    have : a - b - 1 = k := binade_unique ⟨low, by simpa using hlt⟩ hk
    omega
  · next hge =>
    have : a - b = k := binade_unique ⟨not_lt.mp hge, high⟩ hk
    omega

/-- **A number of the format is its own nearest number.** The ratio is given as an equation between
whole numbers; the significand is normal, or the exponent is that of the subnormal numbers. -/
theorem nearest_of_eq {num den m : Nat} {q : Int} (hden : 0 < den) (hm : 0 < m)
    (hlt : m < Nat.pow 2 53) (hq : -1074 ≤ q) (normal : q = -1074 ∨ Nat.pow 2 52 ≤ m)
    (h : num * Nat.pow 2 (-q).toNat = m * (den * Nat.pow 2 q.toNat)) :
    nearest num den = min Binary64.infinity ((q + 1074).toNat * Binary64.binade + m) := by
  have hpow : ∀ n, 0 < Nat.pow 2 n := fun n => Nat.pow_pos (by decide)
  have hnum : num ≠ 0 := by
    rintro rfl
    have : 0 < m * (den * Nat.pow 2 q.toNat) := by
      exact Nat.mul_pos hm (Nat.mul_pos hden (hpow _))
    omega
  -- the equation says that the ratio is `m * 2 ^ q`
  have ratio : (num / den : ℚ) = m * 2 ^ q := by
    have hd : (den : ℚ) ≠ 0 := by exact_mod_cast hden.ne'
    have hp : (2 : ℚ) ^ (-q).toNat ≠ 0 := by positivity
    have cast : (num : ℚ) * 2 ^ (-q).toNat = m * (den * 2 ^ q.toNat) := by
      simp only [Nat.pow_eq] at h
      exact_mod_cast h
    rw [div_eq_iff hd]
    apply mul_right_cancel₀ hp
    rw [cast, ← two_zpow_mul q]
    ring
  -- so its binade is that of `m`, moved by `q`
  have binade : (2 : ℚ) ^ (m.log2 + q) ≤ num / den ∧ (num / den : ℚ) < 2 ^ (m.log2 + q + 1) := by
    obtain ⟨low, high⟩ := zpow_log2_le hm.ne'
    have hp : (0 : ℚ) < 2 ^ q := by positivity
    rw [ratio, zpow_add₀ two_ne_zero, add_right_comm, zpow_add₀ two_ne_zero]
    exact ⟨by gcongr, by gcongr⟩
  -- a normal significand fills its binade, and below that the subnormal place is reached
  have place : lastPlace num den = q := by
    rw [lastPlace_eq hnum hden binade]
    have high : m.log2 < 53 := (Nat.log2_lt hm.ne').mpr hlt
    rcases normal with rfl | hnormal
    · omega
    · have low : 52 ≤ m.log2 := (Nat.le_log2 hm.ne').mpr hnormal
      omega
  unfold nearest
  rw [if_neg hnum, place]
  simp only [h, roundDiv_mul_self m (Nat.mul_pos hden (hpow _))]

namespace Decimal

/-! ### How many digits a product has -/

theorem digitCount_le_iff {n k : Nat} (hk : 0 < k) : digitCount n ≤ k ↔ n < 10 ^ k :=
  Nat.length_toDigits_le_iff (by decide) hk

theorem ten_pow_eq (k : Nat) : 10 ^ k = 2 ^ k * 5 ^ k := mul_pow 2 5 k

theorem digitCount_pos (n : Nat) : 0 < digitCount n := Nat.length_toDigits_pos

/-- A multiple of `5 ^ k = 10 ^ k / 2 ^ k` has almost `k` digits: `c` fewer, if `2 ^ k` is at most
`10 ^ c`. -/
theorem le_digitCount_mul_five_pow {m k c : Nat} (hm : 0 < m) (hc : 2 ^ k ≤ 10 ^ c) :
    k ≤ digitCount (m * 5 ^ k) + c := by
  by_contra hlt
  obtain ⟨j, rfl⟩ : ∃ j, k = j + c := ⟨k - c, by omega⟩
  have hj : digitCount (m * 5 ^ (j + c)) ≤ j := by omega
  have hpos := digitCount_pos (m * 5 ^ (j + c))
  rw [digitCount_le_iff (by omega)] at hj
  -- fewer digits would make the product smaller than it is
  have large : 10 ^ j * 10 ^ c ≤ m * 5 ^ (j + c) * 10 ^ c :=
    calc 10 ^ j * 10 ^ c = 5 ^ (j + c) * 2 ^ (j + c) := by
          rw [← pow_add, ten_pow_eq, mul_comm]
      _ ≤ 5 ^ (j + c) * 10 ^ c := by gcongr
      _ ≤ m * 5 ^ (j + c) * 10 ^ c := by
          gcongr
          exact Nat.le_mul_of_pos_left _ hm
  have : 10 ^ j ≤ m * 5 ^ (j + c) := Nat.le_of_mul_le_mul_right large (by positivity)
  omega

end Decimal

namespace Binary64

variable {x : Binary64}

/-! ### The parts of a finite number -/

theorem significand_pos (h : x.magnitude ≠ 0) : 0 < x.significand := by
  unfold significand binade
  split <;> omega

theorem significand_lt : x.significand < Nat.pow 2 53 := by
  unfold significand binade
  have : Nat.pow 2 53 = 0x20000000000000 := by decide
  split <;> omega

/-- A significand is normal unless the exponent is that of the subnormal numbers. -/
theorem exponent_or_significand : x.exponent = -1074 ∨ Nat.pow 2 52 ≤ x.significand := by
  unfold exponent significand binade
  have : Nat.pow 2 52 = 0x10000000000000 := by decide
  split <;> omega

theorem exponent_ge : -1074 ≤ x.exponent := by
  unfold exponent
  omega

theorem isFinite_iff : x.isFinite = true ↔ x.magnitude < infinity := decide_eq_true_iff

theorem exponent_le (h : x.isFinite = true) : x.exponent ≤ 971 := by
  rw [isFinite_iff, infinity] at h
  unfold exponent binade
  omega

/-- The magnitude counts whole binades and then the places of the significand. -/
theorem binades_add_significand :
    (x.exponent + 1074).toNat * binade + x.significand = x.magnitude := by
  unfold exponent significand binade
  split <;> omega

/-- **Rounding keeps a finite number**, however its absolute value is written as a ratio. -/
theorem nearest_eq_magnitude (hx : x.isFinite = true) (h0 : x.magnitude ≠ 0) {num den : Nat}
    (hden : 0 < den)
    (h : num * Nat.pow 2 (-x.exponent).toNat =
      x.significand * (den * Nat.pow 2 x.exponent.toNat)) :
    nearest num den = x.magnitude := by
  rw [nearest_of_eq hden (significand_pos h0) significand_lt exponent_ge
    exponent_or_significand h, binades_add_significand]
  rw [isFinite_iff] at hx
  omega

/-! ### The exact expansion -/

/-- The digits of an expansion reach neither beyond the largest finite number nor far below the
smallest one, so that reading them back takes no short cut. -/
theorem expansion_top (hx : x.isFinite = true) (h0 : x.magnitude ≠ 0) :
    -330 ≤ x.expansion.exponent + Decimal.digitCount x.expansion.digits ∧
      x.expansion.exponent + Decimal.digitCount x.expansion.digits ≤ 310 := by
  have hm := significand_pos h0
  have hlt := significand_lt (x := x)
  have low := exponent_ge (x := x)
  have high := exponent_le hx
  simp only [expansion, Nat.pow_eq] at hlt ⊢
  rcases le_total 0 x.exponent with hq | hq
  · -- a whole number: at most `2 ^ 1024`
    obtain ⟨k, hk⟩ : ∃ k : Nat, x.exponent = k := ⟨x.exponent.toNat, by omega⟩
    have small : x.significand * 2 ^ k < 10 ^ 310 :=
      calc x.significand * 2 ^ k < 2 ^ 53 * 2 ^ k := by gcongr
        _ = 2 ^ (53 + k) := by rw [pow_add]
        _ ≤ 10 ^ 310 :=
            (Nat.pow_le_pow_right (by decide) (by omega : 53 + k ≤ 1024)).trans
              (by decide +kernel)
    have := (Decimal.digitCount_le_iff (by decide)).mpr small
    simp only [hk, Int.toNat_natCast, Int.toNat_neg_natCast, pow_zero, mul_one]
    omega
  · -- a fraction with at most 1074 binary places: multiplied out, a multiple of a power of five
    obtain ⟨k, hk⟩ : ∃ k : Nat, x.exponent = -k := ⟨(-x.exponent).toNat, by omega⟩
    have small : x.significand * 5 ^ k < 10 ^ (16 + k) :=
      calc x.significand * 5 ^ k < 2 ^ 53 * 5 ^ k := by gcongr
        _ ≤ 10 ^ 16 * 10 ^ k :=
            Nat.mul_le_mul (by norm_num) (Nat.pow_le_pow_left (by decide) k)
        _ = 10 ^ (16 + k) := by rw [pow_add]
    have upper := (Decimal.digitCount_le_iff (by omega)).mpr small
    have lower := Decimal.le_digitCount_mul_five_pow hm
      ((Nat.pow_le_pow_right (by decide) (by omega : k ≤ 1074)).trans
        (by decide +kernel : 2 ^ 1074 ≤ 10 ^ 330))
    simp only [hk, Int.toNat_natCast, Int.toNat_neg_natCast, neg_neg, pow_zero, mul_one]
    omega

/-- The exact expansion reads back. -/
theorem magnitude_expansion (hx : x.isFinite = true) (h0 : x.magnitude ≠ 0) :
    x.expansion.magnitude = x.magnitude := by
  obtain ⟨low, high⟩ := expansion_top hx h0
  have hm := significand_pos h0
  have hdigits : x.expansion.digits ≠ 0 := by
    simp only [expansion, Nat.pow_eq]
    positivity
  unfold Decimal.magnitude
  simp only [hdigits, if_false]
  rw [if_neg (by omega), if_neg (by omega)]
  refine nearest_eq_magnitude hx h0 (Nat.pow_pos (by decide)) ?_
  simp only [expansion, Nat.pow_eq]
  have hpos : (min x.exponent 0).toNat = 0 := by omega
  have hneg : (-min x.exponent 0).toNat = (-x.exponent).toNat := by omega
  rw [hpos, hneg, Decimal.ten_pow_eq (-x.exponent).toNat]
  ring

/-- **Reading back the shortest decimal** gives the number it was made from. -/
theorem magnitude_shortest (hx : x.isFinite = true) (tie : Tie) :
    (x.shortest tie).magnitude = x.magnitude := by
  by_cases h0 : x.magnitude = 0
  · simp [shortest, h0, Decimal.magnitude]
  by_cases hit : ((List.range 17).findSome? fun i => x.onGrid? tie (i + 1)).isSome
  · exact magnitude_shortest_of_hit hit h0
  · -- no decimal of up to 17 digits was found, so all digits are written
    rw [Option.not_isSome_iff_eq_none] at hit
    simp only [shortest, h0, if_false, hit, Option.getD_none]
    exact magnitude_expansion hx h0

end Binary64

namespace Decimal

/-! ### Reading positional text -/

/-- The decimal that positional text spells: a positive exponent is written out as zeros. -/
def writtenOut (d : Decimal) : Decimal :=
  ⟨d.digits * Nat.pow 10 d.exponent.toNat, min d.exponent 0⟩

theorem ofDigits_eq (cs : List Char) : ofDigits cs = Nat.ofDigitChars 10 cs 0 := rfl

theorem isDigit_of_mem_digitChars {d : Decimal} {c : Char} (h : c ∈ d.digitChars) :
    c.isDigit = true :=
  Nat.isDigit_of_mem_toDigits (by decide) (by decide) h

theorem isDigit_of_mem_replicate {n : Nat} {c : Char} (h : c ∈ List.replicate n '0') :
    c.isDigit = true := by
  rw [List.eq_of_mem_replicate h]
  rfl

theorem wholePart_ne_nil (d : Decimal) : d.wholePart ≠ [] := by
  unfold wholePart
  have hpos : 0 < d.digitChars.length := Nat.length_toDigits_pos
  dsimp only
  split
  · simp
  · next h =>
    have : 0 < d.point.toNat := by omega
    intro hnil
    have := congrArg List.length hnil
    simp only [List.length_append, List.length_take, List.length_replicate, List.length_nil] at this
    omega

theorem isDigit_of_mem_wholePart {d : Decimal} {c : Char} (h : c ∈ d.wholePart) :
    c.isDigit = true := by
  unfold wholePart at h
  dsimp only at h
  split at h
  · rw [List.mem_singleton.mp h]
    rfl
  · rcases List.mem_append.mp h with h | h
    · exact isDigit_of_mem_digitChars (List.mem_of_mem_take h)
    · exact isDigit_of_mem_replicate h

theorem isDigit_of_mem_fractionPart {d : Decimal} {c : Char} (h : c ∈ d.fractionPart) :
    c.isDigit = true := by
  rcases List.mem_append.mp h with h | h
  · exact isDigit_of_mem_replicate h
  · exact isDigit_of_mem_digitChars (List.mem_of_mem_drop h)

theorem length_fractionPart (d : Decimal) : d.fractionPart.length = (-d.exponent).toNat := by
  unfold fractionPart point
  simp only [List.length_append, List.length_replicate, List.length_drop]
  omega

/-- The digits around the point spell the digits of the decimal, with zeros before and after. -/
theorem ofDigits_parts (d : Decimal) :
    ofDigits (d.wholePart ++ d.fractionPart) = d.digits * Nat.pow 10 d.exponent.toNat := by
  have digits : Nat.ofDigitChars 10 d.digitChars 0 = d.digits :=
    Nat.ofDigitChars_toDigits (by decide) (by decide)
  have hpos : 0 < d.digitChars.length := Nat.length_toDigits_pos
  have hpoint : d.point = d.digitChars.length + d.exponent := rfl
  rw [ofDigits_eq]
  unfold wholePart fractionPart
  dsimp only
  split
  · -- the point stands before all digits
    next h =>
    have hexp : d.exponent.toNat = 0 := by omega
    have hdrop : d.point.toNat = 0 := by omega
    rw [hexp, hdrop, List.drop_zero, ← List.append_assoc, ← List.replicate_one,
      List.replicate_append_replicate, Nat.ofDigitChars_append, Nat.ofDigitChars_replicate_zero]
    simp [digits]
  · next h =>
    have hzeros : (-d.point).toNat = 0 := by omega
    rw [hzeros, List.replicate_zero, List.nil_append]
    rcases le_total d.exponent 0 with he | he
    · -- the point stands inside the digits
      have hexp : d.exponent.toNat = 0 := by omega
      have hnone : d.point.toNat - d.digitChars.length = 0 := by omega
      rw [hexp, hnone, List.replicate_zero, List.append_nil, List.take_append_drop, digits]
      simp
    · -- all digits stand before the point, and zeros follow
      have hall : d.digitChars.length ≤ d.point.toNat := by omega
      have hmore : d.point.toNat - d.digitChars.length = d.exponent.toNat := by omega
      rw [List.take_of_length_le hall, List.drop_of_length_le hall, List.append_nil, hmore,
        Nat.ofDigitChars_append, digits, Nat.ofDigitChars_replicate_zero, Nat.pow_eq, mul_comm]

/-- A digit ends neither the digits before the point nor those after it. -/
theorem ofChars?_of_isDigit {whole fraction : List Char} (hw : ∀ c ∈ whole, c.isDigit = true)
    (hf : ∀ c ∈ fraction, c.isDigit = true) (hne : whole ≠ []) :
    ofChars? (whole ++ (if fraction.isEmpty then [] else '.' :: fraction)) =
      some ⟨ofDigits (whole ++ fraction), -(fraction.length : Int)⟩ := by
  have hempty : whole.isEmpty = false := by simpa using hne
  unfold ofChars?
  by_cases h : fraction = []
  · subst h
    simp [List.takeWhile_eq_self_iff.mpr hw, List.dropWhile_eq_nil_iff.mpr hw, hempty,
      exponentOfChars?]
  · have hfe : fraction.isEmpty = false := by simpa using h
    have htake : (whole ++ '.' :: fraction).takeWhile Char.isDigit = whole := by
      rw [List.takeWhile_append_of_pos hw, List.takeWhile_cons_of_neg (by decide), List.append_nil]
    have hdrop : (whole ++ '.' :: fraction).dropWhile Char.isDigit = '.' :: fraction := by
      rw [List.dropWhile_append_of_pos hw, List.dropWhile_cons_of_neg (by decide)]
    simp [htake, hdrop, hempty, hfe, List.takeWhile_eq_self_iff.mpr hf,
      List.dropWhile_eq_nil_iff.mpr hf, exponentOfChars?]

/-- **Positional text is read back** with its zeros written out. -/
theorem ofChars?_positional (d : Decimal) : ofChars? d.positional = some d.writtenOut := by
  unfold positional
  dsimp only
  rw [ofChars?_of_isDigit (fun _ => isDigit_of_mem_wholePart)
    (fun _ => isDigit_of_mem_fractionPart) d.wholePart_ne_nil, ofDigits_parts,
    length_fractionPart]
  have : -((-d.exponent).toNat : Int) = min d.exponent 0 := by omega
  rw [this]
  rfl

theorem digitCount_mul_ten_pow {n : Nat} (h : 0 < n) (k : Nat) :
    digitCount (n * 10 ^ k) = digitCount n + k := by
  induction k with
  | zero => simp
  | succ k ih =>
    have next := Nat.toDigits_append_toDigits (b := 10) (n := n * 10 ^ k) (d := 0) (by decide)
      (by positivity) (by decide)
    have := congrArg List.length next
    rw [List.length_append] at this
    unfold digitCount at ih ⊢
    rw [show n * 10 ^ (k + 1) = 10 * (n * 10 ^ k) + 0 by ring, ← this, ih]
    rfl

/-- Writing out the zeros does not change the number that a decimal rounds to. -/
theorem magnitude_writtenOut (d : Decimal) : d.writtenOut.magnitude = d.magnitude := by
  rcases le_total d.exponent 0 with he | he
  · -- there are no zeros to write
    have hexp : d.exponent.toNat = 0 := by omega
    have same : d.writtenOut = d := by
      simp [writtenOut, hexp, min_eq_left he]
    rw [same]
  · by_cases h0 : d.digits = 0
    · simp [magnitude, writtenOut, h0]
    · -- the zeros move from the exponent to the digits, and the short cuts see the same length
      obtain ⟨k, hk⟩ : ∃ k : Nat, d.exponent = k := ⟨d.exponent.toNat, by omega⟩
      have hcount := digitCount_mul_ten_pow (Nat.pos_of_ne_zero h0) k
      simp only [magnitude, writtenOut, hk, Int.toNat_natCast, Nat.pow_eq, hcount]
      have hmin : min (k : Int) 0 = 0 := by omega
      simp only [hmin, h0, mul_eq_zero, Nat.pow_eq_zero, false_or, if_false,
        Int.toNat_zero, neg_zero, pow_zero, mul_one]
      rw [show (0 : Int) + ↑(digitCount d.digits + k) = k + digitCount d.digits by push_cast; ring]
      simp

end Decimal

namespace Binary64

variable {x : Binary64}

/-! ### The text of a number -/

theorem positional_eq_cons (d : Decimal) :
    ∃ c cs, d.positional = c :: cs ∧ c.isDigit = true := by
  obtain ⟨c, cs, h⟩ := List.exists_cons_of_ne_nil d.wholePart_ne_nil
  refine ⟨c, cs ++ (if d.fractionPart.isEmpty then [] else '.' :: d.fractionPart), ?_, ?_⟩
  · simp [Decimal.positional, h]
  · have hc : c ∈ d.wholePart := by rw [h]; exact List.mem_cons_self
    exact Decimal.isDigit_of_mem_wholePart hc

theorem toList_text (hx : x.isFinite = true) :
    x.text.toList =
      if x.negative then '-' :: (x.shortest .up).positional else (x.shortest .up).positional := by
  have hfin := isFinite_iff.mp hx
  have hnan : x.isNaN = false := decide_eq_false (by omega)
  simp [text, hnan, hx, signed]

/-- **A finite number reads back from its text**, the sign of zero included. -/
theorem ofText?_text (hx : x.isFinite = true) : ofText? x.text = some x := by
  have unsigned : magnitudeOfChars? (x.shortest .up).positional = some x.magnitude := by
    simp only [magnitudeOfChars?, Decimal.ofChars?_positional, Decimal.magnitude_writtenOut,
      magnitude_shortest hx]
  obtain ⟨c, cs, hcons, hdigit⟩ := positional_eq_cons (x.shortest .up)
  have same := ofMagnitude_magnitude x
  unfold ofText?
  rw [toList_text hx]
  cases hneg : x.negative with
  | true =>
    rw [hneg] at same
    simp only [if_true, unsigned, Option.map_some, same]
  | false =>
    rw [hneg] at same
    simp only [Bool.false_eq_true, if_false, hcons]
    -- the first character is a digit, so it is not taken for a sign
    split
    · next h => cases h; exact absurd hdigit (by decide)
    · next h => cases h; exact absurd hdigit (by decide)
    · rw [← hcons, unsigned, Option.map_some, same]

/-- Which characters the text of a finite number has. -/
theorem mem_text (hx : x.isFinite = true) {c : Char} (h : c ∈ x.text.toList) :
    c = '-' ∨ c = '.' ∨ c.isDigit = true := by
  have digits : c ∈ (x.shortest .up).positional → c = '.' ∨ c.isDigit = true := by
    intro hc
    rcases List.mem_append.mp hc with hc | hc
    · exact .inr (Decimal.isDigit_of_mem_wholePart hc)
    · split at hc
      · cases hc
      · rcases List.mem_cons.mp hc with rfl | hc
        · exact .inl rfl
        · exact .inr (Decimal.isDigit_of_mem_fractionPart hc)
  rw [toList_text hx] at h
  split at h
  · rcases List.mem_cons.mp h with rfl | h
    · exact .inl rfl
    · exact .inr (digits h)
  · exact .inr (digits h)

theorem text_ne_empty (hx : x.isFinite = true) : x.text ≠ "" := by
  obtain ⟨c, cs, hcons, -⟩ := positional_eq_cons (x.shortest .up)
  intro h
  have := congrArg String.toList h
  rw [toList_text hx, hcons] at this
  split at this <;> simp at this

end Binary64

end Searchbar
