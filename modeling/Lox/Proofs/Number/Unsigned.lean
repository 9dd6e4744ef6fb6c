import Lox.Number

/-!
What reading a number can give: a number that has no sign, or infinity. Each operation that reading is made of keeps
to these, and the bits of a number tell the same.
-/
namespace Lox.Number

open Float.Model (Format UnpackedFloat)
open Float.Model.UnpackedFloat

/-- A number that is not negative, or infinity. -/
def Plus : UnpackedFloat → Prop
  | .infinity sign | .zero sign | .finite sign _ _ _ => sign = .positive
  | .notANumber => False

/-- A positive number. -/
def Positive : UnpackedFloat → Bool
  | .finite .positive _ _ _ => true
  | _ => false

section Operations

theorem plus_finite (mantissa : Nat) (exponent : Int) :
    Plus (if zero : mantissa = 0 then .zero .positive
      else .finite .positive mantissa exponent (Nat.pos_of_ne_zero zero)) := by
  by_cases zero : mantissa = 0
  · rw [dif_pos zero]
    rfl
  · rw [dif_neg zero]
    rfl

theorem plus_roundWithAccuracy (spec : Format) (mantissa : Nat) (exponent : Int) (accuracy : Accuracy) :
    Plus (roundWithAccuracy spec .positive mantissa exponent accuracy) := by
  unfold roundWithAccuracy
  exact plus_finite _ _

theorem plus_ofNat (spec : Format) (number : Nat) : Plus (ofNat spec number) := by
  unfold ofNat ofInt UnpackedFloat.normalize
  split
  · rename_i less
    rw [Int.compare_eq_lt] at less
    omega
  · rfl
  · exact plus_roundWithAccuracy _ _ _ _

theorem finite_of_positive {number : UnpackedFloat} (positive : Positive number = true) :
    ∃ mantissa exponent more, number = .finite .positive mantissa exponent more := by
  cases number with
  | finite sign =>
    cases sign with
    | positive => exact ⟨_, _, _, rfl⟩
    | negative => cases positive
  | notANumber | infinity | zero => cases positive

theorem plus_div (spec : Format) {first second : UnpackedFloat} (plus : Plus first)
    (positive : Positive second = true) : Plus (div spec first second) := by
  obtain ⟨_, _, _, rfl⟩ := finite_of_positive positive
  cases first with
  | notANumber => exact plus
  | infinity | zero =>
    cases plus
    rfl
  | finite =>
    cases plus
    exact plus_roundWithAccuracy _ _ _ _

theorem plus_mul (spec : Format) {first second : UnpackedFloat} (positive : Positive first = true)
    (positive' : Positive second = true) : Plus (mul spec first second) := by
  obtain ⟨_, _, _, rfl⟩ := finite_of_positive positive
  obtain ⟨_, _, _, rfl⟩ := finite_of_positive positive'
  exact plus_roundWithAccuracy _ _ _ _

theorem plus_ofScientific (spec : Format) (digits : Nat) (exponent : Int) :
    Plus (UnpackedFloat.ofScientific spec digits exponent) := by
  unfold UnpackedFloat.ofScientific
  by_cases zero : digits = 0
  · rw [dif_pos zero]
    rfl
  · rw [dif_neg zero]
    refine iteInduction (fun _ => rfl) fun _ => iteInduction (fun _ => rfl) fun _ => ?_
    exact iteInduction (fun _ => plus_mul spec rfl rfl) fun _ => plus_div spec rfl rfl

end Operations

section Packed

theorem unpackSign_eq {spec : Format} (bits : BitVec spec.numBits) : unpackSign bits =
    (bits.extractLsb (spec.mantissaBitsWithoutImplicit + spec.exponentBits)
      (spec.mantissaBitsWithoutImplicit + spec.exponentBits)).cast (by omega) := rfl

theorem unpackSign_packComponents {spec : Format} (sign : Sign) (exponent : BitVec spec.exponentBits)
    (mantissa : BitVec spec.mantissaBitsWithoutImplicit) :
    unpackSign (packComponents spec sign exponent mantissa) = sign.toBitVec := by
  ext place short
  have one : place = 0 := by omega
  subst one
  have above : ¬ spec.mantissaBitsWithoutImplicit + spec.exponentBits < spec.mantissaBitsWithoutImplicit := by omega
  simp [unpackSign_eq, packComponents, BitVec.getLsbD_eq_getElem, BitVec.getLsbD_append, BitVec.getElem_append, above]

theorem plus_unpack {spec : Format} {bits : BitVec spec.numBits} (sign : unpackSign bits = 0#1)
    (number : unpackExponent bits = -1#_ → unpackMantissa bits = 0#_) : Plus (unpack spec bits) := by
  have positive : Sign.ofBitVec (unpackSign bits) = .positive := by
    rw [sign]
    rfl
  unfold unpack
  dsimp only
  refine iteInduction (fun last => ?_) fun _ => iteInduction (fun _ => ?_) fun _ => positive
  · rw [if_pos (number last)]
    exact positive
  · by_cases empty : unpackMantissa bits = 0#_
    · rw [dif_pos empty]
      exact positive
    · rw [dif_neg empty]
      exact positive

/-- Packing keeps that a number has no sign. -/
theorem plus_unpack_pack {unpacked : UnpackedFloat} (plus : Plus unpacked) :
    Plus (unpack .binary64 (pack .binary64 unpacked)) := by
  fun_cases pack with
  | case1 => exact plus.elim
  | case2 sign | case3 sign | case4 sign =>
    cases plus
    exact plus_unpack (unpackSign_packComponents _ _ _) fun _ => unpackMantissa_packComponents
  | case5 sign mantissa exponent positive length biased small normal =>
    cases plus
    refine plus_unpack (unpackSign_packComponents _ _ _) fun last => ?_
    have same := congrArg BitVec.toNat last
    rw [unpackExponent_packComponents, BitVec.toNat_ofNat] at same
    have less : biased + 1 < 2048 := Nat.not_le.mp small
    change biased % 2048 = 2047 at same
    omega
  | case6 sign =>
    cases plus
    refine plus_unpack (unpackSign_packComponents _ _ _) fun last => ?_
    rw [unpackExponent_packComponents] at last
    exact absurd last (by decide)

end Packed

/-- Whether a number is none that is negative, and is a number. -/
def Unsigned (number : Float) : Prop := Plus number.toModel.unpack

variable {number : Float}

section Reading

theorem positive_powersOfTen : ∀ (power : Nat) (small : power < Float.exactlyRepresentablePowersOfTen.size),
    Positive (Float.exactlyRepresentablePowersOfTen[power]).toModel.unpack = true := by
  decide +kernel

/-- A number that is read is none with a sign. -/
theorem unsigned_read (text : List Char) : Unsigned (read text) := by
  unfold read Float.ofScientific
  dsimp only
  split
  · rw [if_pos rfl]
    exact plus_unpack_pack (plus_div _ (plus_unpack_pack (plus_ofNat _ _)) (positive_powersOfTen _ _))
  · exact plus_unpack_pack (plus_ofScientific _ _ _)

end Reading

section Bits

theorem sign_of_plus {spec : Format} {bits : BitVec spec.numBits} (plus : Plus (unpack spec bits)) :
    unpackSign bits = 0#1 := by
  have sign : Sign.ofBitVec (unpackSign bits) = .positive := by
    unfold unpack at plus
    dsimp only at plus
    by_cases last : unpackExponent bits = -1#_
    · rw [if_pos last] at plus
      by_cases empty : unpackMantissa bits = 0#_
      · rwa [if_pos empty] at plus
      · rw [if_neg empty] at plus
        exact plus.elim
    rw [if_neg last] at plus
    by_cases first : unpackExponent bits = 0#_
    · rw [if_pos first] at plus
      by_cases empty : unpackMantissa bits = 0#_
      · rwa [dif_pos empty] at plus
      · rwa [dif_neg empty] at plus
    · rwa [if_neg first] at plus
  unfold Sign.ofBitVec at sign
  split at sign
  · assumption
  · cases sign

theorem toNat_unpackSign (bits : BitVec 64) :
    (@unpackSign .binary64 bits).toNat = bits.toNat / Nat.pow 2 63 % 2 := by
  simp [unpackSign_eq, Nat.shiftRight_eq_div_pow]

theorem Unsigned.isNaN (unsigned : Unsigned number) : number.isNaN = false := by
  change number.toModel.unpack.isNaN = false
  unfold Unsigned at unsigned
  cases same : number.toModel.unpack with
  | notANumber =>
    rw [same] at unsigned
    exact unsigned.elim
  | infinity | zero | finite => rfl

theorem Unsigned.bits_lt (unsigned : Unsigned number) : number.toBits.toNat < Nat.pow 2 63 := by
  have sign := toNat_unpackSign number.toModel.toBits.toBitVec
  have size : number.toBits.toNat < 2 ^ 64 := number.toBits.toNat_lt
  rw [sign_of_plus unsigned] at sign
  change 0 = number.toBits.toNat / 2 ^ 63 % 2 at sign
  change number.toBits.toNat < 2 ^ 63
  omega

end Bits

end Lox.Number
