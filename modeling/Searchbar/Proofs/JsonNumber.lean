import Searchbar.Json.Fields
import Searchbar.Proofs.JsonLexeme
import Searchbar.Proofs.NumberText

/-!
# The numerals of numbers

The numerals that are written for numbers are well-formed: their digits are those of a number, so
the first one is zero only if it stands alone before the point (`Numeral.wellFormed_ofNat`,
`Numeral.wellFormed_ofBinary64`).
-/

namespace Searchbar

/-! ### Leading digits -/

/-- The digits of a positive number start with one that is not zero. -/
theorem exists_toDigits_eq_cons {n : Nat} (h : 0 < n) :
    ∃ c cs, Nat.toDigits 10 n = c :: cs ∧ c ≠ '0' := by
  induction n using Nat.strong_induction_on with
  | _ n ih =>
    rcases Nat.lt_or_ge n 10 with hlt | hge
    · have nonzero : ∀ d < 10, 0 < d → d.digitChar ≠ '0' := by decide
      exact ⟨n.digitChar, [], Nat.toDigits_of_lt_base hlt, nonzero n hlt h⟩
    · -- the last digit is written behind those of the tenth part
      obtain ⟨c, cs, hcs, hc⟩ := ih (n / 10) (by omega) (by omega)
      refine ⟨c, cs ++ [(n % 10).digitChar], ?_, hc⟩
      rw [Nat.toDigits_of_base_le (by decide) hge, hcs, List.cons_append]

namespace Decimal

variable {d : Decimal}

/-- Before the point, zero stands alone or not at all in front. -/
theorem wholePart_ne_zero_cons (h : d.digits ≠ 0) (c : Char) (rest : List Char) :
    d.wholePart ≠ '0' :: c :: rest := by
  obtain ⟨first, others, hdigits, hfirst⟩ := exists_toDigits_eq_cons (Nat.pos_of_ne_zero h)
  unfold wholePart
  dsimp only
  split
  · simp
  · next hpoint =>
    obtain ⟨k, hk⟩ : ∃ k, d.point.toNat = k + 1 := ⟨d.point.toNat - 1, by omega⟩
    rw [digitChars, hdigits, hk, List.take_succ_cons, List.cons_append]
    intro heq
    exact hfirst (List.cons.inj heq).1

theorem digits_ne_zero_of_magnitude (h : d.magnitude ≠ 0) : d.digits ≠ 0 := by
  intro hzero
  exact h (by simp [magnitude, hzero])

end Decimal

theorem Binary64.digits_shortest_ne_zero {x : Binary64} (hx : x.isFinite = true)
    (h0 : x.magnitude ≠ 0) (tie : Tie) : (x.shortest tie).digits ≠ 0 :=
  Decimal.digits_ne_zero_of_magnitude (by rwa [magnitude_shortest hx])

namespace Json.Numeral

/-! ### Natural numbers -/

theorem wellFormed_ofNat (n : Nat) : (ofNat n).WellFormed where
  whole_ne := Nat.toDigits_ne_nil
  whole := fun _ => Nat.isDigit_of_mem_toDigits (by decide) (by decide)
  leading := by
    intro d rest heq
    rcases Nat.eq_zero_or_pos n with rfl | hpos
    · exact absurd heq (by simp [ofNat])
    · obtain ⟨c, cs, hcs, hc⟩ := exists_toDigits_eq_cons hpos
      exact hc (List.cons.inj (hcs.symm.trans heq)).1
  fraction := by simp [ofNat]
  exponent_ne := by simp [ofNat]
  exponent := by simp [ofNat]

/-- **A natural number is read back if it fits into 64 bits**, and refused otherwise. -/
theorem toNat?_ofNat (n : Nat) : (ofNat n).toNat? = if n < wordLimit then some n else none := by
  have hdigits : Decimal.ofDigits (Nat.toDigits 10 n) = n := by
    rw [Decimal.ofDigits_eq]
    exact Nat.ofDigitChars_toDigits (by decide) (by decide)
  simp [toNat?, isWhole, ofNat, hdigits]

/-! ### Numbers of the format -/

/-- The numeral of a finite number that is written with a point and no exponent. -/
theorem wellFormed_positional {d : Decimal} (negative : Bool)
    (hleading : ∀ c rest, d.wholePart ≠ '0' :: c :: rest) :
    WellFormed ⟨negative, d.wholePart,
      (if d.fractionPart.isEmpty then ['0'] else d.fractionPart), none⟩ where
  whole_ne := d.wholePart_ne_nil
  whole := fun _ => Decimal.isDigit_of_mem_wholePart
  leading := hleading
  fraction := by
    intro c hc
    dsimp only at hc
    split at hc
    · rw [List.mem_singleton.mp hc]
      rfl
    · exact Decimal.isDigit_of_mem_fractionPart hc
  exponent_ne := by simp
  exponent := by simp

/-- The numeral of a finite number that is written with an exponent. -/
theorem wellFormed_scientific (d : Decimal) (negative below : Bool) (e : Nat) :
    WellFormed ⟨negative, d.digitChars.take 1, d.digitChars.drop 1,
      some (below, Nat.toDigits 10 e)⟩ where
  whole_ne := by simp [Decimal.digitChars]
  whole := fun _ hc => Decimal.isDigit_of_mem_digitChars (List.mem_of_mem_take hc)
  leading := by
    intro c rest heq
    have hlength := congrArg List.length heq
    simp at hlength
    omega
  fraction := fun _ hc => Decimal.isDigit_of_mem_digitChars (List.mem_of_mem_drop hc)
  exponent_ne := by
    rintro e ⟨⟩
    exact Nat.toDigits_ne_nil
  exponent := by
    rintro e ⟨⟩ c hc
    exact Nat.isDigit_of_mem_toDigits (by decide) (by decide) hc

/-- **The numeral of a finite number is well-formed.** -/
theorem wellFormed_ofBinary64 {x : Binary64} (hx : x.isFinite = true) :
    (ofBinary64 x).WellFormed := by
  unfold ofBinary64
  dsimp only
  split
  · apply wellFormed_positional
    by_cases h0 : x.magnitude = 0
    · simp [Binary64.shortest, h0, Decimal.wholePart, Decimal.point, Decimal.digitChars]
    · exact Decimal.wholePart_ne_zero_cons (Binary64.digits_shortest_ne_zero hx h0 .even)
  · exact wellFormed_scientific _ _ _ _

end Json.Numeral

end Searchbar
