import Toal.Proofs.Rounding
import Mathlib

/-!
# Numbers and their bits

A number is 64 bits: a sign, a field for the exponent and the fraction, that is the mantissa
without its first bit where that is implied. What `magnitude` reads off the bits is the
magnitude that the number is computed with (`unpack_toModel`), and with its sign it determines
the number (`packed_magnitude`). A magnitude whose exponent is too large is packed as infinity
(`packed_of_lt`).

What is known about taking words apart and putting them together is not to be had from single
files of Mathlib.
-/

namespace Toal.Number

open Float.Model (Format UnpackedFloat)
open Float.Model.UnpackedFloat (Sign packComponents unpackSign unpackExponent unpackMantissa
  packComponents_unpackSign_unpackExponent_unpackMantissa)

/-! ## Fields -/

/-- The magnitude that the fields for the exponent and the fraction stand for. -/
def ofFields (field fraction : ℕ) : Magnitude :=
  if field = 0 then ⟨fraction, leastExponent⟩
  else ⟨2 ^ 52 + fraction, leastExponent + field - 1⟩

variable {field fraction : ℕ}

/-- Fields stand for a canonical magnitude. -/
theorem canonical_ofFields (hfraction : fraction < 2 ^ 52) :
    (ofFields field fraction).Canonical := by
  unfold ofFields
  split
  · exact ⟨by dsimp only; omega, le_refl _, .inr rfl⟩
  · exact ⟨by dsimp only; omega, by dsimp only; omega, .inl (Nat.le_add_right _ _)⟩

/-- If the field for the exponent is not full, the exponent is not too large. -/
theorem exponent_ofFields (hfield : field < 2 ^ 11 - 1) :
    (ofFields field fraction).exponent ≤ 971 := by
  unfold ofFields
  split
  · dsimp only [leastExponent]
    omega
  · dsimp only [leastExponent]
    omega

/-- The field for the exponent of a magnitude. -/
def Magnitude.exponentField (a : Magnitude) : ℕ :=
  if a.mantissa < 2 ^ 52 then 0 else (a.exponent - leastExponent + 1).toNat

/-- A canonical magnitude is what its fields stand for. -/
theorem ofFields_field {a : Magnitude} (h : a.Canonical) :
    ofFields a.exponentField (a.mantissa % 2 ^ 52) = a := by
  have hmax := h.mantissa_lt
  have hleast := h.le_exponent
  have hfull := h.full
  rcases a with ⟨m, q⟩
  unfold ofFields Magnitude.exponentField
  dsimp only at *
  by_cases hm : m < 2 ^ 52
  · rw [if_pos hm, if_pos rfl, Nat.mod_eq_of_lt hm, hfull.resolve_left (by omega)]
  · have hmod : m % 2 ^ 52 = m - 2 ^ 52 := by omega
    have hmantissa : 2 ^ 52 + (m - 2 ^ 52) = m := by omega
    have hexponent : leastExponent + ((q - leastExponent + 1).toNat : ℤ) - 1 = q := by omega
    rw [if_neg hm, if_neg (by omega), hmod, hmantissa, hexponent]

/-! ## Packing -/

section Parts

variable (b : BitVec Format.binary64.numBits)

/-- The fraction is in the last bits. -/
theorem toNat_unpackMantissa : (unpackMantissa b).toNat = b.toNat % 2 ^ 52 := by
  simp [unpackMantissa]

/-- The exponent is in the bits before the fraction. -/
theorem toNat_unpackExponent : (unpackExponent b).toNat = b.toNat / 2 ^ 52 % 2 ^ 11 := by
  simp [unpackExponent, Nat.shiftRight_eq_div_pow]

/-- The sign is the first bit. -/
theorem toNat_unpackSign : (unpackSign b).toNat = b.toNat / 2 ^ 63 := by
  have hlt : b.toNat < 2 ^ 64 := b.isLt
  simp [unpackSign, Nat.shiftRight_eq_div_pow]
  omega

end Parts

theorem finite_congr {s : Sign} {m m' : ℕ} {q q' : ℤ} {hm : 0 < m} {hm' : 0 < m'} (h : m = m')
    (h' : q = q') : UnpackedFloat.finite s m q hm = .finite s m' q' hm' := by
  cases h
  cases h'
  rfl

theorem Magnitude.unpacked_of_pos (s : Sign) {a : Magnitude} (h : 0 < a.mantissa) :
    a.unpacked s = .finite s a.mantissa a.exponent h := dif_neg h.ne'

theorem exponentBias_eq : (Format.binary64.exponentBias : ℤ) = 1023 := rfl

/-- A word whose exponent is not full is the magnitude that its fields stand for. -/
theorem unpack_packComponents (s : Sign) {e : BitVec 11} (he : e ≠ -1#11) (m : BitVec 52) :
    UnpackedFloat.unpack Format.binary64 (packComponents Format.binary64 s e m) =
      (ofFields e.toNat m.toNat).unpacked s := by
  have hm : m.toNat < 2 ^ 52 := m.isLt
  unfold UnpackedFloat.unpack
  simp only [Float.Model.UnpackedFloat.unpackMantissa_packComponents,
    Float.Model.UnpackedFloat.unpackExponent_packComponents,
    Float.Model.UnpackedFloat.unpackSign_packComponents, Sign.ofBitVec_toBitVec]
  rw [if_neg he]
  -- A zero exponent field marks the mantissas whose first bit is not implied.
  split
  · next hzero =>
    have hfields : ofFields e.toNat m.toNat = ⟨m.toNat, leastExponent⟩ :=
      if_pos (by rw [hzero]; rfl)
    rw [hfields]
    split
    · next hmantissa => rw [hmantissa]; rfl
    · next hmantissa =>
      have hpos : 0 < m.toNat :=
        Nat.pos_of_ne_zero fun h => hmantissa (BitVec.eq_of_toNat_eq h)
      rw [Magnitude.unpacked_of_pos s hpos]
      exact finite_congr rfl (by rw [hzero]; rfl)
  · next hzero =>
    have hne : e.toNat ≠ 0 := fun h => hzero (BitVec.eq_of_toNat_eq h)
    have hfields : ofFields e.toNat m.toNat =
        ⟨2 ^ 52 + m.toNat, leastExponent + e.toNat - 1⟩ := if_neg hne
    have hpos : 0 < 2 ^ 52 + m.toNat := by omega
    rw [hfields, Magnitude.unpacked_of_pos s hpos]
    refine finite_congr ?_ ?_
    · rw [BitVec.toNat_append, ← Nat.shiftLeft_add_eq_or_of_lt m.isLt]
      rfl
    · rw [exponentBias_eq, leastExponent]
      dsimp only
      omega

/-- A magnitude that is not too large is packed into its fields. -/
theorem pack_unpacked (s : Sign) {a : Magnitude} (h : a.Canonical) (hexponent : a.exponent ≤ 971) :
    UnpackedFloat.pack Format.binary64 (a.unpacked s) =
      packComponents Format.binary64 s (BitVec.ofNat 11 a.exponentField)
        (BitVec.ofNat 52 a.mantissa) := by
  have hmax := h.mantissa_lt
  have hleast := h.le_exponent
  rw [leastExponent] at hleast
  rcases Nat.eq_zero_or_pos a.mantissa with hzero | hpos
  · have hfield : a.exponentField = 0 := if_pos (by omega)
    rw [hfield, hzero, Magnitude.unpacked, dif_pos hzero]
    rfl
  · rw [Magnitude.unpacked_of_pos s hpos]
    unfold UnpackedFloat.pack
    dsimp only
    rw [exponentBias_eq, if_neg (by omega)]
    unfold Magnitude.exponentField
    -- The first bit of a full mantissa is not stored.
    by_cases hsmall : a.mantissa < 2 ^ 52
    · have hlog : a.mantissa.log2 < 52 := (Nat.log2_lt hpos.ne').2 hsmall
      rw [if_pos hsmall, if_neg]
      change ¬a.mantissa.log2 + 1 = 53
      omega
    · have hlog : a.mantissa.log2 = 52 := by
        have hlt := (Nat.log2_lt hpos.ne').2 hmax
        have hle := (Nat.le_log2 hpos.ne').2 (not_lt.1 hsmall)
        omega
      have hfield : (a.exponent + 1023 + 52).toNat = (a.exponent - leastExponent + 1).toNat := by
        rw [leastExponent]
        omega
      rw [if_neg hsmall, if_pos (by rw [hlog]; rfl)]
      exact congrArg (fun k => packComponents Format.binary64 s (BitVec.ofNat 11 k) _) hfield

/-- The field of an exponent that is not too large is not full. -/
theorem exponentField_lt {a : Magnitude} (h : a.Canonical) (hexponent : a.exponent ≤ 971) :
    a.exponentField < 2 ^ 11 - 1 := by
  have hleast := h.le_exponent
  unfold Magnitude.exponentField
  rw [leastExponent] at *
  split <;> omega

theorem ofNat_ne_full {k : ℕ} (h : k < 2 ^ 11 - 1) : BitVec.ofNat 11 k ≠ -1#11 := by
  intro heq
  have hnat := congrArg BitVec.toNat heq
  rw [BitVec.toNat_ofNat, Nat.mod_eq_of_lt (by omega)] at hnat
  change k = 2047 at hnat
  omega

/-- Packing loses nothing. -/
theorem unpack_pack_unpacked (s : Sign) {a : Magnitude} (h : a.Canonical)
    (hexponent : a.exponent ≤ 971) :
    UnpackedFloat.unpack Format.binary64 (UnpackedFloat.pack Format.binary64 (a.unpacked s)) =
      a.unpacked s := by
  have hfield := exponentField_lt h hexponent
  have hfields := ofFields_field h
  rw [pack_unpacked s h hexponent, unpack_packComponents s (ofNat_ne_full hfield),
    BitVec.toNat_ofNat, BitVec.toNat_ofNat, Nat.mod_eq_of_lt (by omega), hfields]

/-- A magnitude that is too large is packed as infinity. -/
theorem pack_unpacked_of_lt (s : Sign) {a : Magnitude} (h : a.Canonical)
    (hexponent : 971 < a.exponent) :
    UnpackedFloat.pack Format.binary64 (a.unpacked s) =
      Float.Model.UnpackedFloat.packedInfinity Format.binary64 s := by
  have hpos : 0 < a.mantissa := by
    rcases h.full with hfull | hleast
    · omega
    · rw [leastExponent] at hleast
      omega
  rw [Magnitude.unpacked_of_pos s hpos]
  unfold UnpackedFloat.pack
  dsimp only
  rw [exponentBias_eq, if_pos (by omega)]

/-! ## Numbers -/

/-- The bits of a number. -/
def word (x : Float) : BitVec Format.binary64.numBits := x.toBits.toBitVec

/-- The sign of a number. -/
def signOf (x : Float) : Sign := if isNegative x then .negative else .positive

/-- The number with the sign and the magnitude, or infinity if that is too large. -/
def packed (s : Sign) (a : Magnitude) : Float := .ofModel (.pack (a.unpacked s))

section Numbers

variable {x : Float} {a : Magnitude}

theorem ofModel_unpack (x : Float) : .ofModel (.pack x.toModel.unpack) = x := Float.ofBits_toBits x

/-- The magnitude of a number is what its fields stand for. -/
theorem magnitude_eq (x : Float) :
    magnitude x = ofFields (unpackExponent (word x)).toNat
      (unpackMantissa (word x)).toNat := by
  rw [toNat_unpackExponent, toNat_unpackMantissa]
  rfl

/-- The sign of a number is its first bit. -/
theorem signOf_eq (x : Float) :
    signOf x = Sign.ofBitVec (unpackSign (word x)) := by
  have hsign := toNat_unpackSign (word x)
  have hlt : (word x).toNat < 2 ^ 64 := (word x).isLt
  unfold signOf Sign.ofBitVec isNegative
  change x.toBits.toNat < 2 ^ 64 at hlt
  change _ = x.toBits.toNat / 2 ^ 63 at hsign
  change (if decide (2 ^ 63 ≤ x.toBits.toNat) = true then Sign.negative else .positive) = _
  by_cases hnegative : 2 ^ 63 ≤ x.toBits.toNat
  · rw [if_pos (decide_eq_true hnegative), if_neg]
    intro hzero
    rw [hzero] at hsign
    change 0 = _ at hsign
    omega
  · rw [if_neg (by simpa using hnegative), if_pos]
    apply BitVec.eq_of_toNat_eq
    rw [hsign]
    change x.toBits.toNat / 2 ^ 63 = 0
    omega

/-- The field for the exponent of a finite number is not full. -/
theorem unpackExponent_ne_full (h : x.isFinite = true) :
    unpackExponent (word x) ≠ -1#11 := by
  intro hfull
  change (UnpackedFloat.unpack Format.binary64 (word x)).isFinite = true at h
  unfold UnpackedFloat.unpack at h
  dsimp only at h
  rw [if_pos hfull] at h
  split at h <;> cases h

/-- The magnitude of a finite number is one that numbers have. -/
theorem canonical_magnitude (x : Float) : (magnitude x).Canonical := by
  rw [magnitude_eq]
  exact canonical_ofFields (unpackMantissa (word x)).isLt

/-- The exponent of a finite number is not too large. -/
theorem exponent_magnitude (h : x.isFinite = true) : (magnitude x).exponent ≤ 971 := by
  rw [magnitude_eq]
  refine exponent_ofFields ?_
  have hlt : (unpackExponent (word x)).toNat < 2 ^ 11 :=
    (unpackExponent (word x)).isLt
  have hne : (unpackExponent (word x)).toNat ≠ 2047 :=
    fun heq => unpackExponent_ne_full h (BitVec.eq_of_toNat_eq heq)
  omega

/-- A finite number is computed with by its sign and its magnitude. -/
theorem unpack_toModel (h : x.isFinite = true) :
    x.toModel.unpack = (magnitude x).unpacked (signOf x) := by
  have hunpack := unpack_packComponents (Sign.ofBitVec (unpackSign (word x)))
    (unpackExponent_ne_full h) (unpackMantissa (word x))
  rw [packComponents_unpackSign_unpackExponent_unpackMantissa, ← magnitude_eq, ← signOf_eq]
    at hunpack
  exact hunpack

/-- A finite number is its sign and its magnitude. -/
theorem packed_magnitude (h : x.isFinite = true) : packed (signOf x) (magnitude x) = x := by
  rw [packed, ← unpack_toModel h]
  exact ofModel_unpack x

/-- The number with the opposite sign. -/
theorem neg_packed (h : a.Canonical) (hexponent : a.exponent ≤ 971) :
    -packed .positive a = packed .negative a := by
  have hunpack : (packed .positive a).toModel.unpack = a.unpacked .positive :=
    unpack_pack_unpacked .positive h hexponent
  have hneg : (a.unpacked .positive).neg = a.unpacked .negative := by
    unfold Magnitude.unpacked
    split <;> rfl
  change Float.ofModel (.pack (packed .positive a).toModel.unpack.neg) = _
  rw [hunpack, hneg]
  rfl

/-- A magnitude whose exponent is not too large is packed into a finite number. -/
theorem isFinite_packed (s : Sign) (h : a.Canonical) (hexponent : a.exponent ≤ 971) :
    (packed s a).isFinite = true := by
  change (UnpackedFloat.unpack Format.binary64
    (UnpackedFloat.pack Format.binary64 (a.unpacked s))).isFinite = true
  rw [unpack_pack_unpacked s h hexponent, Magnitude.unpacked]
  split <;> rfl

theorem Magnitude.Canonical.exponent_of_zero (h : a.Canonical) (hzero : a.mantissa = 0) :
    a.exponent = leastExponent := by
  refine h.full.resolve_left ?_
  rw [hzero]
  decide

/-- A canonical magnitude and its sign can be read off what is computed with. -/
theorem Magnitude.unpacked_inj {b : Magnitude} {s t : Sign} (ha : a.Canonical) (hb : b.Canonical)
    (h : a.unpacked s = b.unpacked t) : s = t ∧ a = b := by
  rcases a with ⟨m, q⟩
  rcases b with ⟨n, p⟩
  rcases Nat.eq_zero_or_pos m with rfl | hm
  · rcases Nat.eq_zero_or_pos n with rfl | hn
    · cases h
      cases ha.exponent_of_zero rfl
      cases hb.exponent_of_zero rfl
      exact ⟨rfl, rfl⟩
    · rw [unpacked_of_pos t hn] at h
      cases h
  · rcases Nat.eq_zero_or_pos n with rfl | hn
    · rw [unpacked_of_pos s hm] at h
      cases h
    · rw [unpacked_of_pos s hm, unpacked_of_pos t hn] at h
      cases h
      exact ⟨rfl, rfl⟩

/-- A number has the sign and the magnitude that it is packed from. -/
theorem parts_packed (s : Sign) (h : a.Canonical) (hexponent : a.exponent ≤ 971) :
    signOf (packed s a) = s ∧ magnitude (packed s a) = a :=
  Magnitude.unpacked_inj (canonical_magnitude _) h
    ((unpack_toModel (isFinite_packed s h hexponent)).symm.trans
      (unpack_pack_unpacked s h hexponent))

/-! ## Infinity -/

/-- A magnitude that is too large gives infinity. -/
theorem packed_of_lt (s : Sign) (h : a.Canonical) (hexponent : 971 < a.exponent) :
    packed s a = .ofModel (.pack (.infinity s)) := by
  unfold packed Float.Model.pack
  congr 3
  exact pack_unpacked_of_lt s h hexponent

/-- There is one infinity for each sign. -/
theorem eq_of_isInf (h : x.isInf = true) : x = .ofModel (.pack (.infinity (signOf x))) := by
  have hunpack : x.toModel.unpack = .infinity (signOf x) := by
    change (UnpackedFloat.unpack Format.binary64 (word x)).isInf = true at h
    change UnpackedFloat.unpack Format.binary64 (word x) = _
    rw [signOf_eq]
    unfold UnpackedFloat.unpack at h ⊢
    dsimp only at h ⊢
    split at h
    · split at h
      · next hexponent hmantissa => rw [if_pos hexponent, if_pos hmantissa]
      · cases h
    · split at h
      · split at h
        · cases h
        · cases h
      · cases h
  rw [← hunpack, ofModel_unpack]

/-- A finite number is neither infinite nor none. -/
theorem not_isInf_of_isFinite (h : x.isFinite = true) : x.isNaN = false ∧ x.isInf = false := by
  have hunpack := unpack_toModel h
  change x.toModel.unpack.isNaN = false ∧ x.toModel.unpack.isInf = false
  rw [hunpack, Magnitude.unpacked]
  split
  · exact ⟨rfl, rfl⟩
  · exact ⟨rfl, rfl⟩

end Numbers

end Toal.Number
