import Dataflow.Number.Binary
import Mathlib

/-!
# Floats keep their value

A number of the single format is one of the double format as well (`Representable.widen`), and rounding the
wider number again finds it where it was, as nothing of it is cut off: `narrow_widen`. A finite number is a
significand of bounded size times the gap at its size, and the significand is short only where the gap is one
unit. That is what an encoding stores, so a word tells which number it encodes: `ofBits_toBits`, and with it
`toBits_inj`.
-/

namespace Dataflow

namespace FloatFormat

variable {f : FloatFormat} {u : Nat}

theorem lt_two_pow_gapExponent (f : FloatFormat) (u : Nat) : u < 2 ^ (f.gapExponent u + f.precision) := by
  refine lt_of_lt_of_le Nat.lt_log2_self (Nat.pow_le_pow_right (by omega) ?_)
  unfold gapExponent
  omega

theorem le_of_gapExponent_pos (h : 0 < f.gapExponent u) : 2 ^ (f.gapExponent u + f.fractionBits) ≤ u := by
  unfold gapExponent precision at h ⊢
  have hu : u ≠ 0 := by
    rintro rfl
    simp at h
  refine le_trans (Nat.pow_le_pow_right (by omega) ?_) (Nat.log2_self_le hu)
  omega

theorem gapExponent_le_of_lt {n : Nat} (h : u < 2 ^ (n + f.precision)) : f.gapExponent u ≤ n := by
  unfold gapExponent
  by_cases hu : u = 0
  · subst hu
    unfold precision
    simp
  · have hl := (Nat.log2_lt hu).mpr h
    omega

theorem lt_two_pow_of_le_largest (h : u ≤ f.largest) : u < 2 ^ (2 ^ f.exponentBits - 3 + f.precision) := by
  unfold largest at h
  rw [Nat.add_comm, pow_add]
  have hp := Nat.two_pow_pos f.precision
  exact lt_of_le_of_lt h (Nat.mul_lt_mul_of_pos_right (by omega) (Nat.two_pow_pos _))

/-- A representable magnitude is its significand times the gap. -/
theorem Representable.eq_mul (h : f.Representable u) : u = u / 2 ^ f.gapExponent u * 2 ^ f.gapExponent u :=
  (Nat.div_mul_cancel (Nat.dvd_of_mod_eq_zero h.2)).symm

theorem Representable.widen (h : single.Representable u) :
    double.Representable (u * 2 ^ Binary.unitRatio) := by
  constructor
  · have hlt := lt_two_pow_of_le_largest h.1
    calc u * 2 ^ Binary.unitRatio
        ≤ 2 ^ (2 ^ single.exponentBits - 3 + single.precision) * 2 ^ Binary.unitRatio :=
          Nat.mul_le_mul_right _ hlt.le
      _ = 1 * 2 ^ (2 ^ single.exponentBits - 3 + single.precision + Binary.unitRatio) := by
          rw [pow_add _ _ Binary.unitRatio, Nat.one_mul]
      _ ≤ double.largest := by
          unfold largest
          exact Nat.mul_le_mul (by decide) (Nat.pow_le_pow_right (by decide) (by decide))
  · have hgap : double.gapExponent (u * 2 ^ Binary.unitRatio) ≤ single.gapExponent u + Binary.unitRatio := by
      apply gapExponent_le_of_lt
      calc u * 2 ^ Binary.unitRatio
          < 2 ^ (single.gapExponent u + single.precision) * 2 ^ Binary.unitRatio :=
            Nat.mul_lt_mul_of_pos_right (lt_two_pow_gapExponent single u) (Nat.two_pow_pos _)
        _ = 2 ^ (single.gapExponent u + single.precision + Binary.unitRatio) := (pow_add ..).symm
        _ ≤ 2 ^ (single.gapExponent u + Binary.unitRatio + double.precision) := by
            refine Nat.pow_le_pow_right (by decide) ?_
            have hp : single.precision ≤ double.precision := by decide
            omega
    apply Nat.mod_eq_zero_of_dvd
    calc 2 ^ double.gapExponent (u * 2 ^ Binary.unitRatio)
        ∣ 2 ^ (single.gapExponent u + Binary.unitRatio) := pow_dvd_pow 2 hgap
      _ = 2 ^ single.gapExponent u * 2 ^ Binary.unitRatio := pow_add ..
      _ ∣ u * 2 ^ Binary.unitRatio := Nat.mul_dvd_mul_right (Nat.dvd_of_mod_eq_zero h.2) _

end FloatFormat

theorem roundHalfEven_mul (q : Nat) {d : Nat} (hd : 0 < d) : roundHalfEven (q * d) d = q := by
  simp [roundHalfEven, Nat.mul_div_cancel q hd, hd]

namespace Binary

open FloatFormat

variable {f : FloatFormat} {u : Nat}

theorem ofUnits_of_representable (h : f.Representable u) (negative : Bool) :
    ofUnits f negative u = .finite negative u h := by
  unfold ofUnits
  rw [dif_pos h]

/-- Widening a float loses nothing. -/
theorem narrow_widen (x : Binary .single) : x.widen.narrow = x := by
  cases x with
  | nan => rfl
  | infinite negative => rfl
  | finite negative u h =>
    have hratio : 0 < 2 ^ unitRatio := Nat.two_pow_pos _
    have hgap : 0 < 2 ^ single.gapExponent u := Nat.two_pow_pos _
    have hmul : u * 2 ^ unitRatio =
        u / 2 ^ single.gapExponent u * (2 ^ unitRatio * 2 ^ single.gapExponent u) :=
      calc u * 2 ^ unitRatio
          = u / 2 ^ single.gapExponent u * 2 ^ single.gapExponent u * 2 ^ unitRatio := by rw [← h.eq_mul]
        _ = u / 2 ^ single.gapExponent u * (2 ^ unitRatio * 2 ^ single.gapExponent u) := by ring
    show (ofUnits .double negative (u * 2 ^ unitRatio)).narrow = _
    rw [ofUnits_of_representable h.widen]
    show ofUnitRatio .single negative (u * 2 ^ unitRatio) (2 ^ unitRatio) = _
    unfold ofUnitRatio
    rw [Nat.mul_div_cancel u hratio]
    show ofUnits .single negative (roundHalfEven (u * 2 ^ unitRatio)
      (2 ^ unitRatio * 2 ^ single.gapExponent u) * 2 ^ single.gapExponent u) = _
    rw [hmul, roundHalfEven_mul _ (Nat.mul_pos hratio hgap), ← h.eq_mul, ofUnits_of_representable h]

/-! ### Words -/

/-- The datum of a word whose three fields are given. -/
theorem ofBits_fields (f : FloatFormat) (negative : Bool) {exponent fraction : Nat}
    (he : exponent < 2 ^ f.exponentBits) (hf : fraction < 2 ^ f.fractionBits) :
    ofBits f (signWord f negative + exponent * 2 ^ f.fractionBits + fraction) =
      if exponent = 2 ^ f.exponentBits - 1 then
        if fraction = 0 then .infinite negative else .nan
      else if exponent = 0 then ofUnits f negative fraction
      else ofUnits f negative ((2 ^ f.fractionBits + fraction) * 2 ^ (exponent - 1)) := by
  have hsign : signWord f negative = negative.toNat * 2 ^ f.exponentBits * 2 ^ f.fractionBits := by
    cases negative <;> simp [signWord, pow_add]
  obtain ⟨word, hword⟩ : ∃ word, word = signWord f negative + exponent * 2 ^ f.fractionBits + fraction :=
    ⟨_, rfl⟩
  have hshift : word = 2 ^ f.fractionBits * (2 ^ f.exponentBits * negative.toNat + exponent) + fraction := by
    rw [hword, hsign]
    ring
  have hlow : word % 2 ^ f.fractionBits = fraction := by
    rw [hshift, Nat.mul_add_mod, Nat.mod_eq_of_lt hf]
  have hhigh : word / 2 ^ f.fractionBits = 2 ^ f.exponentBits * negative.toNat + exponent := by
    rw [hshift, Nat.mul_add_div (Nat.two_pow_pos _), Nat.div_eq_of_lt hf, Nat.add_zero]
  have hexp : word / 2 ^ f.fractionBits % 2 ^ f.exponentBits = exponent := by
    rw [hhigh, Nat.mul_add_mod, Nat.mod_eq_of_lt he]
  have htop : word / 2 ^ (f.exponentBits + f.fractionBits) = negative.toNat := by
    rw [Nat.add_comm, pow_add, ← Nat.div_div_eq_div_mul, hhigh, Nat.mul_add_div (Nat.two_pow_pos _),
      Nat.div_eq_of_lt he, Nat.add_zero]
  have hneg : (word / 2 ^ (f.exponentBits + f.fractionBits) % 2 == 1) = negative := by
    rw [htop]
    cases negative <;> rfl
  rw [← hword]
  unfold ofBits
  simp only [hlow, hexp, hneg]

/-- Encoding a datum and decoding the word gives it back. -/
theorem ofBits_toBits (x : Binary f) : ofBits f x.toBits = x := by
  cases x with
  | nan => cases f <;> rfl
  | infinite negative =>
    have hlt : 2 ^ f.exponentBits - 1 < 2 ^ f.exponentBits := Nat.sub_lt (Nat.two_pow_pos _) Nat.one_pos
    have h := ofBits_fields f negative hlt (Nat.two_pow_pos f.fractionBits)
    rwa [Nat.add_zero, if_pos rfl, if_pos rfl] at h
  | finite negative u h =>
    obtain ⟨g, hg⟩ : ∃ g, g = f.gapExponent u := ⟨_, rfl⟩
    obtain ⟨q, hq⟩ : ∃ q, q = u / 2 ^ g := ⟨_, rfl⟩
    have hu : u = q * 2 ^ g := by
      rw [hq, hg]
      exact h.eq_mul
    have hword : toBits (.finite negative u h) = signWord f negative + g * 2 ^ f.fractionBits + q := by
      rw [hq, hg]
      rfl
    have hle : g ≤ 2 ^ f.exponentBits - 3 := by
      rw [hg]
      exact gapExponent_le_of_lt (lt_two_pow_of_le_largest h.1)
    have hexp : 8 ≤ 2 ^ f.exponentBits := by cases f <;> decide
    have hlt : q < 2 ^ f.fractionBits + 2 ^ f.fractionBits := by
      have hlt := lt_two_pow_gapExponent f u
      rw [← hg, Nat.add_comm, pow_add] at hlt
      have := Nat.div_lt_of_lt_mul (Nat.mul_comm (2 ^ f.precision) _ ▸ hlt)
      rw [← hq] at this
      unfold precision at this
      omega
    rw [hword]
    by_cases hshort : q < 2 ^ f.fractionBits
    · -- A short significand: the gap is one unit, and the exponent field is zero.
      have hzero : g = 0 := by
        by_contra hne
        have hge := le_of_gapExponent_pos (f := f) (u := u) (by omega)
        rw [← hg, pow_add, hu, Nat.mul_comm q] at hge
        have := Nat.le_of_mul_le_mul_left hge (Nat.two_pow_pos _)
        omega
      subst hzero
      rw [ofBits_fields f negative (by omega) hshort, if_neg (by omega), if_pos rfl]
      rw [← ofUnits_of_representable h, hu, pow_zero, Nat.mul_one]
    · obtain ⟨fraction, rfl⟩ : ∃ fraction, q = 2 ^ f.fractionBits + fraction :=
        ⟨q - 2 ^ f.fractionBits, by omega⟩
      have hfields : signWord f negative + g * 2 ^ f.fractionBits + (2 ^ f.fractionBits + fraction) =
          signWord f negative + (g + 1) * 2 ^ f.fractionBits + fraction := by
        ring
      rw [hfields, ofBits_fields f negative (by omega) (by omega), if_neg (by omega), if_neg (by omega)]
      rw [Nat.add_sub_cancel, ← hu, ofUnits_of_representable h]

/-- Data are the same iff their words are. -/
theorem toBits_inj {x y : Binary f} : x.toBits = y.toBits ↔ x = y :=
  (Function.LeftInverse.injective ofBits_toBits).eq_iff

end Binary
end Dataflow
