import Mathlib
import ScopedScript.Number.Binary

/-!
# Patterns of numbers

A number and its pattern tell each other, as long as the pattern is none of the many that stand for
no number: making a number of sixty-four bits unpacks them into sign, exponent and significand and
packs these again.
-/

namespace ScopedScript.Binary

open Float.Model Float.Model.UnpackedFloat

/-! ## Packing -/

theorem toBitVec_ofBitVec (b : BitVec 1) : (Sign.ofBitVec b).toBitVec = b := by
  revert b
  decide

/-- Bits are made of the parts that they are unpacked into. -/
theorem packComponents_parts (b : BitVec (Format.numBits .binary64)) :
    packComponents .binary64 (.ofBitVec (unpackSign b)) (unpackExponent b) (unpackMantissa b) =
      b := by
  simp only [packComponents, toBitVec_ofBitVec, unpackSign, unpackExponent, unpackMantissa,
    BitVec.extractLsb]
  ext i hi
  grind

section Packing

variable {b : BitVec (Format.numBits .binary64)}

theorem pack_subnormal {sign : Sign} {m : Nat} {e : Int} (hpos : 0 < m) (hlt : m < 2 ^ 52)
    (he : e = -1074) : UnpackedFloat.pack .binary64 (.finite sign m e hpos) =
      packComponents .binary64 sign 0#11 (BitVec.ofNat 52 m) := by
  have hlog : m.log2 < 52 := (Nat.log2_lt (Nat.ne_of_gt hpos)).mpr hlt
  have hbits : Format.mantissaBits .binary64 = 53 := rfl
  subst he
  simp only [UnpackedFloat.pack]
  rw [if_neg (by decide), if_neg (by omega)]

theorem pack_normal {sign : Sign} {field m n : Nat} {e : Int} (hpos : 0 < n) (hn : n = 2 ^ 52 + m)
    (hlt : m < 2 ^ 52) (he : e = (field : Int) - 1075) (hfield : field < 2047) :
    UnpackedFloat.pack .binary64 (.finite sign n e hpos) =
      packComponents .binary64 sign (BitVec.ofNat 11 field) (BitVec.ofNat 52 m) := by
  have hlog : n.log2 = 52 := (Nat.log2_eq_iff (by omega)).mpr ⟨by omega, by omega⟩
  have hbias : (e + (Format.exponentBias .binary64 : Nat) + (52 : Nat)).toNat = field := by
    rw [show Format.exponentBias .binary64 = 1023 from rfl]
    omega
  have hdrop : BitVec.ofNat 52 n = BitVec.ofNat 52 m := by
    apply BitVec.eq_of_toNat_eq
    rw [BitVec.toNat_ofNat, BitVec.toNat_ofNat, hn, Nat.add_mod_left]
  simp only [UnpackedFloat.pack]
  rw [hbias, if_neg (by omega), if_pos (by rw [hlog]; rfl), hdrop]

/-- Packing what was unpacked changes nothing, unless that is no number. -/
theorem pack_unpack (h : unpackExponent b = -1#11 → unpackMantissa b = 0#52) :
    UnpackedFloat.pack .binary64 (UnpackedFloat.unpack .binary64 b) = b := by
  have hparts := packComponents_parts b
  have hm : (unpackMantissa b).toNat < 2 ^ 52 := (unpackMantissa b).isLt
  have he : (unpackExponent b).toNat < 2 ^ 11 := (unpackExponent b).isLt
  simp only [UnpackedFloat.unpack]
  split
  · next hones =>
    rw [if_pos (h hones)]
    rw [hones, h hones] at hparts
    exact hparts
  · next hones =>
    split
    · next hzero =>
      rw [hzero] at hparts
      split
      · next hmantissa =>
        rw [hmantissa] at hparts
        exact hparts
      · next hmantissa =>
        have hpos : 0 < (unpackMantissa b).toNat := by
          rw [Nat.pos_iff_ne_zero]
          intro hnat
          exact hmantissa (BitVec.eq_of_toNat_eq (by simpa using hnat))
        have hexponent : ((unpackExponent b).toNat : Int) -
            ((Format.exponentBias .binary64 : Nat) + (52 : Nat)) + 1 = -1074 := by
          rw [hzero]
          decide
        refine (pack_subnormal hpos hm hexponent).trans ?_
        simpa only [BitVec.ofNat_toNat, BitVec.setWidth_eq] using hparts
    · next hzero =>
      have hlt : (unpackExponent b).toNat < 2047 := by
        have hne : (unpackExponent b).toNat ≠ 2047 := by
          intro hnat
          exact hones (BitVec.eq_of_toNat_eq (by simpa using hnat))
        omega
      have happend : (1#1 ++ unpackMantissa b).toNat = 2 ^ 52 + (unpackMantissa b).toNat := by
        rw [BitVec.toNat_append, ← Nat.shiftLeft_add_eq_or_of_lt hm]
        rfl
      refine (pack_normal _ happend hm rfl hlt).trans ?_
      simpa only [BitVec.ofNat_toNat, BitVec.setWidth_eq] using hparts

end Packing

/-! ## Bits and numbers -/

theorem toNat_unpackMantissa (b : BitVec (Format.numBits .binary64)) :
    (unpackMantissa b).toNat = b.toNat % 2 ^ 52 := by
  simp [unpackMantissa, BitVec.extractLsb]

theorem toNat_unpackExponent (b : BitVec (Format.numBits .binary64)) :
    (unpackExponent b).toNat = b.toNat / 2 ^ 52 % 2 ^ 11 := by
  simp [unpackExponent, BitVec.extractLsb, Nat.shiftRight_eq_div_pow]

theorem toNat_unpackSign (b : BitVec (Format.numBits .binary64)) :
    (unpackSign b).toNat = b.toNat / 2 ^ 63 := by
  have hlt : b.toNat < 2 ^ 64 := b.isLt
  simp only [unpackSign, BitVec.extractLsb, BitVec.toNat_cast, BitVec.extractLsb'_toNat,
    Nat.shiftRight_eq_div_pow]
  exact Nat.mod_eq_of_lt (by omega)

/-- Bits that stand for a number, or for an infinity, are kept. -/
theorem toBits_ofBits {bits : UInt64} (h : bits.toNat % signUnit ≤ infinity) :
    (Float.ofBits bits).toBits = bits := by
  have hpack : UnpackedFloat.pack .binary64 (UnpackedFloat.unpack .binary64 bits.toBitVec) =
      bits.toBitVec := by
    apply pack_unpack
    intro hones
    have hfield : bits.toNat / 2 ^ 52 % 2 ^ 11 = 2047 := by
      rw [← UInt64.toNat_toBitVec, ← toNat_unpackExponent, hones]
      rfl
    have hrest : bits.toNat % 2 ^ 52 = 0 := by
      simp only [signUnit, infinity, exponentUnit, Nat.pow_eq] at h
      omega
    apply BitVec.eq_of_toNat_eq
    rw [toNat_unpackMantissa, UInt64.toNat_toBitVec, hrest]
    rfl
  exact congrArg UInt64.ofBitVec hpack

theorem toNat_toBits_ofMagnitude {pattern : Nat} (h : pattern ≤ infinity) :
    (ofMagnitude false pattern).toBits.toNat = pattern := by
  have hsize : infinity < signUnit := by decide
  have hlt : pattern < UInt64.size := Nat.lt_of_le_of_lt h (by decide)
  have hbits : (UInt64.ofNat pattern).toNat = pattern := UInt64.toNat_ofNat_of_lt' hlt
  rw [ofMagnitude, if_neg (by decide), toBits_ofBits, hbits]
  rw [hbits, Nat.mod_eq_of_lt]
  · exact h
  · exact Nat.lt_of_le_of_lt h hsize

/-- A pattern up to that of infinity is the magnitude of its number. -/
theorem magnitude_ofMagnitude {pattern : Nat} (h : pattern ≤ infinity) :
    magnitude (ofMagnitude false pattern) = pattern := by
  have hsize : infinity < signUnit := by decide
  rw [magnitude, toNat_toBits_ofMagnitude h, Nat.mod_eq_of_lt]
  exact Nat.lt_of_le_of_lt h hsize

theorem isNegative_ofMagnitude {pattern : Nat} (h : pattern ≤ infinity) :
    isNegative (ofMagnitude false pattern) = false := by
  have hsize : infinity < signUnit := by decide
  rw [isNegative, toNat_toBits_ofMagnitude h]
  exact decide_eq_false (Nat.not_le.mpr (Nat.lt_of_le_of_lt h hsize))

/-- Different patterns up to that of infinity stand for different numbers. -/
theorem ofMagnitude_inj {a b : Nat} (ha : a ≤ infinity) (hb : b ≤ infinity) :
    ofMagnitude false a = ofMagnitude false b ↔ a = b := by
  constructor
  · intro h
    rw [← magnitude_ofMagnitude ha, h, magnitude_ofMagnitude hb]
  · rintro rfl
    rfl

end ScopedScript.Binary
