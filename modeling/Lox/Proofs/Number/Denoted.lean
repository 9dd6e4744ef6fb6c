import Lox.Number
import Lox.Proofs.Decimal.Shortest
import Mathlib.Data.List.TakeWhile

/-!
What the text of a decimal denotes. Both notations denote the decimal that they are made from: the point and the
exponent make up for each other.
-/
namespace Lox.Number

/-- The exponent that a text denotes, without which it is zero. -/
def power : List Char → Int
  | '-' :: digits => -(ofDigits digits : Int)
  | '+' :: digits => ofDigits digits
  | _ => 0

/-- The number that a text denotes: digits, possibly with a point and further digits, possibly with an exponent. -/
def denoted (text : List Char) : ℚ :=
  let mantissa := text.takeWhile (· ≠ 'e')
  let places := (mantissa.dropWhile isDigit).drop 1
  ofDigits (mantissa.takeWhile isDigit ++ places) *
    10 ^ (power ((text.dropWhile (· ≠ 'e')).drop 1) - (places.length : Int))

/-- The characters that numbers are written with. -/
def isMark (char : Char) : Bool := isDigit char || ['.', 'e', '+', '-'].contains char

/-- A text that starts with a digit and that has only characters of numbers. -/
def Numeral (text : List Char) : Prop :=
  (∃ first, text.head? = some first ∧ isDigit first = true) ∧ ∀ char ∈ text, isMark char = true

/-- A text of digits. -/
def Digits (text : List Char) : Prop := ∀ char ∈ text, isDigit char = true

variable {digits whole places : List Char} {exponent : Int}

section Digits

theorem ofDigits_eq (digits : List Char) : ofDigits digits = Nat.ofDigitChars 10 digits 0 :=
  Nat.ofDigitChars_eq_foldl.symm

theorem ofDigits_append (first rest : List Char) :
    ofDigits (first ++ rest) = 10 ^ rest.length * ofDigits first + ofDigits rest := by
  rw [ofDigits_eq, ofDigits_eq, ofDigits_eq, Nat.ofDigitChars_append, Nat.ofDigitChars_eq_ofDigitChars_zero]

theorem ofDigits_zeros (count : Nat) : ofDigits (List.replicate count '0') = 0 := by
  rw [ofDigits_eq, Nat.ofDigitChars_replicate_zero, Nat.mul_zero]

theorem ofDigits_toDigits (number : Nat) : ofDigits (Nat.toDigits 10 number) = number := by
  rw [ofDigits_eq, Nat.ofDigitChars_ten_toDigits]

theorem digits_toDigits (number : Nat) : Digits (Nat.toDigits 10 number) := by
  intro char member
  have digit := Nat.isDigit_of_mem_toDigits (by decide) (by decide) member
  rw [Char.isDigit_iff_toNat] at digit
  simpa [isDigit, Char.le_def, UInt32.le_iff_toNat_le] using digit

theorem digits_zeros (count : Nat) : Digits (List.replicate count '0') := by
  intro char member
  rw [List.eq_of_mem_replicate member]
  rfl

theorem digits_zero : Digits ['0'] := digits_zeros 1

theorem Digits.append {first rest : List Char} (digits : Digits first) (digits' : Digits rest) :
    Digits (first ++ rest) := by
  intro char member
  exact (List.mem_append.mp member).elim (digits char) (digits' char)

theorem Digits.notMem (digits : Digits whole) {char : Char} (other : isDigit char = false) : char ∉ whole := by
  intro member
  rw [digits char member] at other
  cases other

end Digits

section Denoted

theorem split_exponent {mantissa tail : List Char} (none : 'e' ∉ mantissa) (ends : tail.head?.all (· = 'e') = true) :
    (mantissa ++ tail).takeWhile (· ≠ 'e') = mantissa ∧ (mantissa ++ tail).dropWhile (· ≠ 'e') = tail := by
  have all : ∀ char ∈ mantissa, decide (char ≠ 'e') = true := by
    intro char member
    exact decide_eq_true fun same => none (same ▸ member)
  rw [List.takeWhile_append_of_pos all, List.dropWhile_append_of_pos all]
  cases tail with
  | nil => exact ⟨List.append_nil _, rfl⟩
  | cons first rest =>
    have same : first = 'e' := by simpa using ends
    simp [same]

/-- Without an exponent, only the point counts. -/
theorem denoted_of_notMem {text : List Char} (none : 'e' ∉ text) :
    let places := (text.dropWhile isDigit).drop 1
    denoted text = ofDigits (text.takeWhile isDigit ++ places) * 10 ^ (-places.length : Int) := by
  obtain ⟨before, behind⟩ := @split_exponent text [] none rfl
  rw [List.append_nil] at before behind
  have one : power ([].drop 1) = 0 := rfl
  rw [denoted, before, behind, one, zero_sub]

/-- An exponent multiplies what stands before it. -/
theorem denoted_append {mantissa tail : List Char} (none : 'e' ∉ mantissa) (ends : tail.head?.all (· = 'e') = true) :
    denoted (mantissa ++ tail) = denoted mantissa * 10 ^ power (tail.drop 1) := by
  obtain ⟨before, behind⟩ := split_exponent none ends
  rw [denoted_of_notMem none, denoted, before, behind, sub_eq_neg_add, zpow_add₀ (by norm_num), mul_assoc]

theorem denoted_digits (digits : Digits whole) : denoted whole = ofDigits whole := by
  rw [denoted_of_notMem (digits.notMem (by decide)), List.takeWhile_eq_self_iff.mpr digits,
    List.dropWhile_eq_nil_iff.mpr digits]
  simp

/-- Digits after a point count for less the more of them there are. -/
theorem denoted_point (digits : Digits whole) (digits' : Digits places) :
    denoted (whole ++ '.' :: places) = ofDigits (whole ++ places) * 10 ^ (-places.length : Int) := by
  have before := digits.notMem (show isDigit 'e' = false by decide)
  have behind := digits'.notMem (show isDigit 'e' = false by decide)
  have none : 'e' ∉ whole ++ '.' :: places := by simp [before, behind]
  rw [denoted_of_notMem none, List.takeWhile_append_of_pos digits, List.dropWhile_append_of_pos digits,
    List.takeWhile_cons_of_neg (by decide), List.dropWhile_cons_of_neg (by decide), List.append_nil, List.drop_one,
    List.tail_cons]

end Denoted

section Layout

theorem positional_of_neg (negative : exponent < 0) : positional digits exponent =
    ['0'] ++ '.' :: (List.replicate (-exponent - 1).toNat '0' ++ digits) := by
  rw [positional, if_pos negative]
  rfl

/-- Digits that do not reach the point are filled up with zeros. -/
theorem positional_of_le (short : digits.length ≤ exponent.toNat + 1) (nonnegative : 0 ≤ exponent) :
    positional digits exponent =
      (digits ++ List.replicate (exponent.toNat + 1 - digits.length) '0') ++ '.' :: ['0'] := by
  have length : (digits ++ List.replicate (exponent.toNat + 1 - digits.length) '0').length = exponent.toNat + 1 := by
    rw [List.length_append, List.length_replicate]
    omega
  rw [positional, if_neg (by omega)]
  refine congrArg₂ (· ++ '.' :: ·) (List.take_of_length_le length.le) ?_
  exact if_pos (List.isEmpty_iff.mpr (List.drop_eq_nil_of_le length.le))

/-- Digits that reach further have the point among them. -/
theorem positional_of_lt (long : exponent.toNat + 1 < digits.length) (nonnegative : 0 ≤ exponent) :
    positional digits exponent =
      digits.take (exponent.toNat + 1) ++ '.' :: digits.drop (exponent.toNat + 1) := by
  have full : digits ++ List.replicate (exponent.toNat + 1 - digits.length) '0' = digits := by
    rw [Nat.sub_eq_zero_of_le long.le, List.replicate_zero, List.append_nil]
  have some_ : ¬ (digits.drop (exponent.toNat + 1)).isEmpty = true := by
    rw [List.isEmpty_iff, List.drop_eq_nil_iff]
    omega
  rw [positional, if_neg (by omega)]
  change (digits ++ List.replicate _ '0').take _ ++ '.' ::
    (if ((digits ++ List.replicate _ '0').drop _).isEmpty then _ else (digits ++ List.replicate _ '0').drop _) = _
  rw [full, if_neg some_]

/-- Positional notation denotes the digits with the first one at its power. -/
theorem denoted_positional (all : Digits digits) (exponent : Int) :
    denoted (positional digits exponent) = ofDigits digits * 10 ^ (exponent + 1 - digits.length) := by
  rcases lt_or_ge exponent 0 with negative | nonnegative
  · have places := (digits_zeros (-exponent - 1).toNat).append all
    have length : -(((-exponent - 1).toNat + digits.length : Nat) : Int) = exponent + 1 - digits.length := by omega
    rw [positional_of_neg negative, denoted_point digits_zero places, ofDigits_append, ofDigits_append,
      ofDigits_zeros, List.length_append, List.length_replicate, length]
    simp [ofDigits]
  rcases Nat.lt_or_ge (exponent.toNat + 1) digits.length with long | short
  · rw [positional_of_lt long nonnegative, denoted_point (fun char member => all char (List.mem_of_mem_take member))
      (fun char member => all char (List.mem_of_mem_drop member)), List.take_append_drop, List.length_drop]
    congr 2
    omega
  · have filled := denoted_point (all.append (digits_zeros (exponent.toNat + 1 - digits.length))) digits_zero
    have length : ((exponent.toNat + 1 - digits.length : Nat) : Int) = exponent + 1 - digits.length := by omega
    have one : ofDigits ['0'] = 0 := rfl
    rw [positional_of_le short nonnegative, filled, ofDigits_append, ofDigits_append, ofDigits_zeros, one,
      List.length_replicate, List.length_singleton, ← length, zpow_natCast, Nat.cast_one, zpow_neg_one]
    push_cast
    ring

/-- The digits before the exponent, of which the first one stands before the point. -/
def mantissa (digits : List Char) : List Char :=
  digits.take 1 ++ (if (digits.drop 1).isEmpty then [] else '.' :: digits.drop 1)

/-- The sign and the digits of an exponent. -/
def suffix (exponent : Int) : List Char :=
  let digits := Nat.toDigits 10 exponent.natAbs
  (if exponent < 0 then '-' else '+') :: (List.replicate (2 - digits.length) '0' ++ digits)

theorem scientific_eq (digits : List Char) (exponent : Int) :
    scientific digits exponent = mantissa digits ++ 'e' :: suffix exponent := by
  unfold scientific
  dsimp only
  rw [List.append_assoc]
  rfl

theorem power_suffix (exponent : Int) : power (suffix exponent) = exponent := by
  unfold suffix
  dsimp only
  split
  · rw [power, ofDigits_append, ofDigits_zeros, ofDigits_toDigits]
    omega
  · rw [power, ofDigits_append, ofDigits_zeros, ofDigits_toDigits]
    omega

theorem denoted_mantissa (all : Digits digits) (some_ : digits ≠ []) :
    'e' ∉ mantissa digits ∧ denoted (mantissa digits) = ofDigits digits * 10 ^ (1 - digits.length : Int) := by
  obtain ⟨first, rest, rfl⟩ := List.exists_cons_of_ne_nil some_
  obtain ⟨one, more⟩ := List.forall_mem_cons.mp all
  have head : Digits [first] := List.forall_mem_singleton.mpr one
  rcases eq_or_ne rest [] with rfl | longer
  · refine ⟨head.notMem (by decide), (denoted_digits head).trans ?_⟩
    simp
  · have text : mantissa (first :: rest) = [first] ++ '.' :: rest := by
      rw [mantissa, List.drop_one, List.tail_cons, if_neg (by simpa using longer)]
      rfl
    rw [text, denoted_point head more]
    constructor
    · have none := head.notMem (show isDigit 'e' = false by decide)
      have none' := Digits.notMem more (show isDigit 'e' = false by decide)
      simpa using ⟨by simpa using none, none'⟩
    · rw [List.singleton_append, List.length_cons]
      congr 2
      push_cast
      ring

theorem denoted_scientific (all : Digits digits) (some_ : digits ≠ []) (exponent : Int) :
    denoted (scientific digits exponent) = ofDigits digits * 10 ^ (exponent + 1 - digits.length) := by
  obtain ⟨none, before⟩ := denoted_mantissa all some_
  have exponents : 1 - (digits.length : Int) + exponent = exponent + 1 - digits.length := by ring
  rw [scientific_eq, denoted_append none rfl, List.drop_one, List.tail_cons, power_suffix, before, mul_assoc,
    ← zpow_add₀ (by norm_num), exponents]

/-- The text of a decimal denotes it. -/
theorem denoted_layout (decimal : Decimal) : denoted (layout decimal) = decimal.value := by
  have digits := digits_toDigits decimal.digits
  have power : decimal.exponent + (Nat.toDigits 10 decimal.digits).length - 1 + 1 -
      (Nat.toDigits 10 decimal.digits).length = decimal.exponent := by ring
  unfold layout
  dsimp only
  split
  · rw [denoted_positional digits, ofDigits_toDigits, power, Decimal.value]
  · rw [denoted_scientific digits Nat.toDigits_ne_nil, ofDigits_toDigits, power, Decimal.value]

end Layout

section Numerals

theorem isMark_of_isDigit {char : Char} (digit : isDigit char = true) : isMark char = true := by simp [isMark, digit]

theorem Digits.numeral (all : Digits digits) (some_ : digits ≠ []) : Numeral digits := by
  obtain ⟨first, rest, rfl⟩ := List.exists_cons_of_ne_nil some_
  exact ⟨⟨first, rfl, all first List.mem_cons_self⟩, fun char member => isMark_of_isDigit (all char member)⟩

theorem Numeral.append {first rest : List Char} (numeral : Numeral first) (marks : ∀ char ∈ rest, isMark char = true) :
    Numeral (first ++ rest) := by
  obtain ⟨⟨head, starts, digit⟩, marks'⟩ := numeral
  refine ⟨⟨head, by rw [List.head?_append, starts]; rfl, digit⟩, fun char member => ?_⟩
  exact (List.mem_append.mp member).elim (marks' char) (marks char)

theorem Digits.marks_point (all : Digits places) : ∀ char ∈ '.' :: places, isMark char = true :=
  List.forall_mem_cons.mpr ⟨rfl, fun char member => isMark_of_isDigit (all char member)⟩

theorem numeral_positional (all : Digits digits) (some_ : digits ≠ []) (exponent : Int) :
    Numeral (positional digits exponent) := by
  rcases lt_or_ge exponent 0 with negative | nonnegative
  · rw [positional_of_neg negative]
    exact (digits_zero.numeral (by simp)).append ((digits_zeros _).append all).marks_point
  rcases Nat.lt_or_ge (exponent.toNat + 1) digits.length with long | short
  · rw [positional_of_lt long nonnegative]
    have first : Digits (digits.take (exponent.toNat + 1)) := fun char member => all char (List.mem_of_mem_take member)
    refine (first.numeral (by simpa using some_)).append (Digits.marks_point fun char member => ?_)
    exact all char (List.mem_of_mem_drop member)
  · rw [positional_of_le short nonnegative]
    exact ((all.append (digits_zeros _)).numeral (by simp [some_])).append digits_zero.marks_point

theorem numeral_scientific (all : Digits digits) (some_ : digits ≠ []) (exponent : Int) :
    Numeral (scientific digits exponent) := by
  obtain ⟨first, rest, rfl⟩ := List.exists_cons_of_ne_nil some_
  obtain ⟨one, more⟩ := List.forall_mem_cons.mp all
  have head : Digits [first] := List.forall_mem_singleton.mpr one
  rw [scientific_eq]
  refine Numeral.append ((head.numeral (by simp)).append ?_) ?_
  · rw [List.drop_one, List.tail_cons]
    split
    · simp
    · exact Digits.marks_point more
  · refine List.forall_mem_cons.mpr ⟨rfl, List.forall_mem_cons.mpr ⟨?_, ?_⟩⟩
    · split <;> rfl
    · exact fun char member => isMark_of_isDigit ((digits_zeros _).append (digits_toDigits _) char member)

theorem numeral_layout (decimal : Decimal) : Numeral (layout decimal) := by
  have digits := digits_toDigits decimal.digits
  unfold layout
  dsimp only
  split
  · exact numeral_positional digits Nat.toDigits_ne_nil _
  · exact numeral_scientific digits Nat.toDigits_ne_nil _

end Numerals

end Lox.Number
