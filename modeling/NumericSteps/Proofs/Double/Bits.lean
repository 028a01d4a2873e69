import Mathlib
import NumericSteps.Double

namespace NumericSteps.Double

open Float.Model (Format)
open Float.Model.UnpackedFloat

theorem toNat_append (a : BitVec 12) (m : BitVec 52) :
    (a ++ m).toNat = a.toNat * 2 ^ 52 + m.toNat := by
  rw [BitVec.toNat_append, ← Nat.shiftLeft_add_eq_or_of_lt m.isLt, Nat.shiftLeft_eq]

theorem toNat_packComponents (s : Sign) (e : BitVec 11) (m : BitVec 52) :
    (packComponents .binary64 s e m).toNat =
      (s.toBitVec.toNat * 2 ^ 11 + e.toNat) * 2 ^ 52 + m.toNat := by
  change (s.toBitVec ++ e ++ m).toNat = _
  rw [toNat_append, BitVec.toNat_append, ← Nat.shiftLeft_add_eq_or_of_lt e.isLt, Nat.shiftLeft_eq]

theorem toNat_ofBitVec (v : BitVec 1) : (Sign.ofBitVec v).toBitVec.toNat = v.toNat := by
  revert v
  decide

section Fields

variable (b : BitVec Format.binary64.numBits)

theorem toNat_sign : (unpackSign b).toNat = b.toNat / 2 ^ 63 := by
  have hb : b.toNat < 2 ^ 64 := b.isLt
  simp [unpackSign, BitVec.extractLsb, Nat.shiftRight_eq_div_pow]
  omega

theorem toNat_exponent :
    (unpackExponent b).toNat = b.toNat / 2 ^ 52 % 2 ^ 11 := by
  simp [unpackExponent, BitVec.extractLsb, Nat.shiftRight_eq_div_pow]

theorem toNat_mantissa : (unpackMantissa b).toNat = b.toNat % 2 ^ 52 := by
  simp [unpackMantissa, BitVec.extractLsb]

variable {b}

/-- Fields that are those of the bits make up the bits again. -/
theorem packComponents_eq {e : BitVec 11} {m : BitVec 52}
    (he : e.toNat = b.toNat / 2 ^ 52 % 2 ^ 11) (hm : m.toNat = b.toNat % 2 ^ 52) :
    packComponents .binary64 (Sign.ofBitVec (unpackSign b)) e m = b := by
  apply BitVec.eq_of_toNat_eq
  rw [toNat_packComponents, toNat_ofBitVec, toNat_sign, he, hm]
  have hb : b.toNat < 2 ^ 64 := b.isLt
  omega

theorem pack_unpack_largest (h : Format.binary64.Valid b) (he : unpackExponent b = -1#11) :
    pack .binary64 (unpack .binary64 b) = b := by
  have hex := toNat_exponent b
  have hma := toNat_mantissa b
  unfold unpack
  dsimp only
  rw [if_pos he]
  rw [he] at hex
  split
  · rename_i hzero
    rw [hzero] at hma
    exact packComponents_eq hex hma
  · rename_i hnan
    exact (h.eq_packedNaN he hnan).symm

/-- A subnormal has the exponent of the least normal one. -/
theorem pack_unpack_smallest (he : unpackExponent b = 0#11) :
    pack .binary64 (unpack .binary64 b) = b := by
  have hex := toNat_exponent b
  have hma := toNat_mantissa b
  unfold unpack
  dsimp only
  rw [if_neg (by simp [he]), if_pos he]
  rw [he] at hex
  split
  · rename_i hzero
    rw [hzero] at hma
    exact packComponents_eq hex hma
  · rename_i hzero
    have hpos : (unpackMantissa b).toNat ≠ 0 :=
      fun hn => hzero (BitVec.eq_of_toNat_eq hn)
    have hlog : (unpackMantissa b).toNat.log2 < 52 :=
      (Nat.log2_lt hpos).2 (unpackMantissa b).isLt
    unfold pack
    dsimp only
    rw [he, if_neg (by decide), if_neg]
    · refine packComponents_eq hex ?_
      rw [BitVec.toNat_ofNat, hma]
      omega
    · change ¬ _ + 1 = 53
      omega

theorem pack_unpack_normal (he : unpackExponent b ≠ -1#11) (hz : unpackExponent b ≠ 0#11) :
    pack .binary64 (unpack .binary64 b) = b := by
  have hex := toNat_exponent b
  have hma := toNat_mantissa b
  have htop : b.toNat / 2 ^ 52 % 2 ^ 11 ≠ 2047 := by
    rw [← hex]
    exact fun hn => he (BitVec.eq_of_toNat_eq hn)
  have hlead : (1#1 ++ unpackMantissa b).toNat = 2 ^ 52 + b.toNat % 2 ^ 52 := by
    rw [BitVec.toNat_append, ← Nat.shiftLeft_add_eq_or_of_lt (unpackMantissa b).isLt, hma]
    rfl
  have hlog : (1#1 ++ unpackMantissa b).toNat.log2 = 52 := by
    rw [hlead, Nat.log2_eq_iff (by omega)]
    omega
  have hback (n k l : Nat) : ((n : Int) - (k + l) + k + l).toNat = n := by omega
  unfold unpack
  dsimp only
  rw [if_neg he, if_neg hz]
  unfold pack
  dsimp only
  rw [hback, if_neg, if_pos]
  · refine packComponents_eq ?_ ?_
    · rw [BitVec.toNat_ofNat, hex]
      omega
    · rw [BitVec.toNat_ofNat, hlead]
      omega
  · rw [hlog]
    rfl
  · omega

theorem pack_unpack (h : Format.binary64.Valid b) :
    pack .binary64 (unpack .binary64 b) = b := by
  by_cases he : unpackExponent b = -1#11
  · exact pack_unpack_largest h he
  · by_cases hz : unpackExponent b = 0#11
    · exact pack_unpack_smallest hz
    · exact pack_unpack_normal he hz

theorem toNat_exponent_code : (unpackExponent b).toNat = b.toNat % signBit / normalCode := by
  rw [toNat_exponent]
  unfold signBit normalCode
  omega

theorem toNat_mantissa_code : (unpackMantissa b).toNat = b.toNat % signBit % normalCode := by
  rw [toNat_mantissa]
  unfold signBit normalCode
  omega

theorem unpack_infinity (h : b.toNat % signBit = infinityCode) :
    ∃ s, unpack .binary64 b = .infinity s := by
  have hex := toNat_exponent_code (b := b)
  have hma := toNat_mantissa_code (b := b)
  rw [h] at hex hma
  refine ⟨Sign.ofBitVec (unpackSign b), ?_⟩
  unfold unpack
  dsimp only
  rw [if_pos (BitVec.eq_of_toNat_eq hex), if_pos (BitVec.eq_of_toNat_eq hma)]

theorem unpack_zero (h : b.toNat % signBit = 0) : ∃ s, unpack .binary64 b = .zero s := by
  have hex := toNat_exponent_code (b := b)
  have hma := toNat_mantissa_code (b := b)
  rw [h] at hex hma
  have hzero : unpackExponent b = 0#11 := BitVec.eq_of_toNat_eq hex
  refine ⟨Sign.ofBitVec (unpackSign b), ?_⟩
  unfold unpack
  dsimp only
  rw [hzero, if_neg (by decide), if_pos rfl, dif_pos (BitVec.eq_of_toNat_eq hma)]

theorem unpack_finite (hz : b.toNat % signBit ≠ 0) (h : b.toNat % signBit < infinityCode) :
    ∃ s hm, unpack .binary64 b =
      .finite s (mantissa (b.toNat % signBit)) (exponent (b.toNat % signBit)) hm := by
  have hex := toNat_exponent_code (b := b)
  have hma := toNat_mantissa_code (b := b)
  generalize b.toNat % signBit = c at *
  refine ⟨Sign.ofBitVec (unpackSign b), mantissa_pos hz, ?_⟩
  have htop : unpackExponent b ≠ -1#11 := by
    intro he
    rw [he] at hex
    change 2047 = _ at hex
    unfold infinityCode normalCode at *
    omega
  unfold unpack
  dsimp only
  rw [if_neg htop]
  split
  · rename_i hzero
    rw [hzero] at hex ⊢
    have hlow : c < normalCode := (Nat.div_eq_zero_iff_lt (by decide)).1 hex.symm
    rw [Nat.mod_eq_of_lt hlow] at hma
    rw [dif_neg fun hm => hz (hma.symm.trans (congrArg BitVec.toNat hm))]
    refine (finite.injEq ..).mpr ⟨rfl, ?_, ?_⟩
    · rw [mantissa, if_pos hlow, hma]
    · rw [exponent, if_pos hlow]
      rfl
  · rename_i hzero
    have hlow : ¬ c < normalCode := by
      intro hlt
      exact hzero (BitVec.eq_of_toNat_eq (hex.trans (Nat.div_eq_of_lt hlt)))
    refine (finite.injEq ..).mpr ⟨rfl, ?_, ?_⟩
    · rw [mantissa, if_neg hlow, BitVec.toNat_append, ← Nat.shiftLeft_add_eq_or_of_lt (unpackMantissa b).isLt, hma]
      rfl
    · rw [exponent, if_neg hlow, hex]
      rfl

theorem unpack_nan (h : infinityCode < b.toNat % signBit) : unpack .binary64 b = .notANumber := by
  have hex := toNat_exponent_code (b := b)
  have hma := toNat_mantissa_code (b := b)
  have hlt : b.toNat % signBit < signBit := Nat.mod_lt _ (by decide)
  generalize b.toNat % signBit = c at *
  unfold infinityCode signBit normalCode at *
  have htop : unpackExponent b = -1#11 := by
    apply BitVec.eq_of_toNat_eq
    change _ = 2047
    omega
  have hrest : unpackMantissa b ≠ 0#52 := by
    intro hzero
    rw [hzero] at hma
    change 0 = _ at hma
    omega
  unfold unpack
  dsimp only
  rw [if_pos htop, if_neg hrest]

theorem isFinite_of_lt (h : b.toNat % signBit < infinityCode) :
    (unpack .binary64 b).isFinite = true ∧ (unpack .binary64 b).isNaN = false := by
  by_cases hz : b.toNat % signBit = 0
  · obtain ⟨s, hs⟩ := unpack_zero hz
    rw [hs]
    exact ⟨rfl, rfl⟩
  · obtain ⟨s, hm, hs⟩ := unpack_finite hz h
    rw [hs]
    exact ⟨rfl, rfl⟩

theorem isNaN_unpack : (unpack .binary64 b).isNaN = true ↔ infinityCode < b.toNat % signBit := by
  rcases lt_trichotomy (b.toNat % signBit) infinityCode with h | h | h
  · rw [(isFinite_of_lt h).2]
    exact iff_of_false Bool.false_ne_true h.not_gt
  · obtain ⟨s, hs⟩ := unpack_infinity h
    rw [hs]
    exact iff_of_false Bool.false_ne_true h.not_gt
  · rw [unpack_nan h]
    exact iff_of_true rfl h

theorem isFinite_unpack :
    (unpack .binary64 b).isFinite = true ↔ b.toNat % signBit < infinityCode := by
  rcases lt_trichotomy (b.toNat % signBit) infinityCode with h | h | h
  · exact iff_of_true (isFinite_of_lt h).1 h
  · obtain ⟨s, hs⟩ := unpack_infinity h
    rw [hs]
    exact iff_of_false Bool.false_ne_true h.not_lt
  · rw [unpack_nan h]
    exact iff_of_false Bool.false_ne_true h.not_gt

end Fields

theorem ofBits_toBits (x : Float) : Float.ofBits x.toBits = x := by
  obtain ⟨⟨bits, h⟩⟩ := x
  have hp := pack_unpack h
  simp only [Float.ofBits, Float.toBits, Float.Model.ofBits, Float.Model.pack, hp]

/-- Bits that are not those of the one value that is not a number are kept. -/
theorem toBits_ofBits {b : UInt64} (h : (Float.ofBits b).isNaN = false) :
    (Float.ofBits b).toBits = b := by
  have hvalid : Format.binary64.Valid b.toBitVec := by
    refine ⟨fun he hm => ?_⟩
    have hnan : unpack .binary64 b.toBitVec = .notANumber := by
      unfold unpack
      dsimp only
      rw [if_pos he, if_neg hm]
    change (unpack .binary64 (pack .binary64 (unpack .binary64 b.toBitVec))).isNaN = false at h
    rw [hnan] at h
    cases h
  change UInt64.ofBitVec (pack .binary64 (unpack .binary64 b.toBitVec)) = b
  rw [pack_unpack hvalid]
theorem ofCode_code (x : Float) : ofCode (isNegative x) (code x) = x := by
  have hx : x.toBits.toNat < 2 ^ 64 := x.toBits.toNat_lt
  have hsum : (code x + if isNegative x then signBit else 0) = x.toBits.toNat := by
    unfold code isNegative signBit
    by_cases h : 0x8000000000000000 ≤ x.toBits.toNat
    · simp only [h, decide_true, if_true]
      omega
    · simp only [h, decide_false, Bool.false_eq_true, if_false]
      omega
  rw [ofCode, hsum, UInt64.ofNat_toNat, ofBits_toBits]

theorem isNaN_iff (x : Float) : x.isNaN = true ↔ infinityCode < code x :=
  isNaN_unpack

theorem isFinite_iff (x : Float) : x.isFinite = true ↔ code x < infinityCode :=
  isFinite_unpack

theorem isInf_of_finite {x : Float} (h : x.isFinite = true) : x.isInf = false := by
  change x.toModel.unpack.isFinite = true at h
  change x.toModel.unpack.isInf = false
  cases hx : x.toModel.unpack <;> rw [hx] at h
  case infinity => cases h
  all_goals rfl

/-- There is one value that is not a number. -/
theorem eq_nan {x : Float} (h : x.isNaN = true) : x = 0.0 / 0.0 := by
  have hu : unpack .binary64 x.toBits.toBitVec = .notANumber := by
    change (unpack .binary64 x.toBits.toBitVec).isNaN = true at h
    unfold isNaN at h
    split at h
    · assumption
    · cases h
  rw [← ofBits_toBits x]
  unfold Float.ofBits Float.Model.ofBits
  rw [hu]
  rfl

end NumericSteps.Double
