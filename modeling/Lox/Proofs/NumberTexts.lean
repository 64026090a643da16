import Mathlib
import Lox.Proofs.JoinedTexts

/-!
The text of a number is read as the same number. Rounding to the nearest magnitude depends on the
quotient alone and leaves a magnitude as it is, so what is read does not depend on how many zeros a
decimal ends with; and the decimal that is chosen for a text is one that reads back.
-/

namespace Lox.Number

open Region (IsDigit IsNumber isDigit_iff)

/-! ### Rounding -/

theorem roundedQuotient_scaled {k : Nat} (positive : 0 < k) (dividend divisor : Nat) :
    roundedQuotient (dividend * k) (divisor * k) = roundedQuotient dividend divisor := by
  have same : dividend * k / (divisor * k) = dividend / divisor :=
    Nat.mul_div_mul_right dividend divisor positive
  have remainder : 2 * (dividend * k % (divisor * k)) = 2 * (dividend % divisor) * k := by
    rw [Nat.mul_mod_mul_right, Nat.mul_assoc]
  unfold roundedQuotient
  simp only [same, remainder, Nat.mul_lt_mul_right positive]

theorem roundedQuotient_exact {k : Nat} (positive : 0 < k) (n : Nat) :
    roundedQuotient (n * k) k = n := by
  simp [roundedQuotient, positive]

/-- The nearest magnitude is that of a quotient, however it is written. -/
theorem nearest_scaled {k : Nat} (positive : 0 < k) (dividend divisor : Nat) :
    nearest (dividend * k) (divisor * k) = nearest dividend divisor := by
  have scaled : dividend * k * one = dividend * one * k := Nat.mul_right_comm dividend k one
  unfold nearest
  simp only [scaled, Nat.mul_div_mul_right _ _ positive, Nat.mul_right_comm divisor k,
    roundedQuotient_scaled positive]

theorem pow_positive {base : Nat} (positive : 0 < base) (k : Nat) : 0 < Nat.pow base k :=
  Nat.pow_pos positive

theorem one_positive : 0 < one := by
  unfold one
  apply pow_positive
  decide

/-- A magnitude is the nearest to itself. -/
theorem nearest_units {bits : Nat} (finite : bits < infinite) : nearest (units bits) one = bits := by
  have scale : units bits * one / one = units bits := Nat.mul_div_cancel _ one_positive
  have quotient (shift : Nat) : roundedQuotient (units bits * one) (one * Nat.pow 2 shift) =
      roundedQuotient (units bits) (2 ^ shift) := by
    rw [Nat.mul_comm one]
    exact roundedQuotient_scaled one_positive (units bits) (2 ^ shift)
  unfold nearest
  simp only [scale, quotient]
  have fractions_eq : fractions = 2 ^ 52 := rfl
  by_cases subnormal : bits / fractions = 0
  · have small : bits < 2 ^ 52 := (Nat.div_eq_zero_iff_lt (Nat.two_pow_pos 52)).1 subnormal
    have same : units bits = bits := if_pos subnormal
    have shift : bits.log2 - 52 = 0 := by
      by_cases zero : bits = 0
      · rw [zero]
        rfl
      · have below : bits.log2 < 52 := (Nat.log2_lt zero).2 small
        omega
    have exact_ := roundedQuotient_exact Nat.one_pos bits
    rw [Nat.mul_one] at exact_
    rw [same, shift, Nat.zero_mul, Nat.zero_add, pow_zero, exact_]
    exact Nat.min_eq_right finite.le
  · have same : units bits = (fractions + bits % fractions) * 2 ^ (bits / fractions - 1) :=
      if_neg subnormal
    have below : bits % fractions < fractions := Nat.mod_lt bits (Nat.two_pow_pos 52)
    have log : (units bits).log2 = 52 + (bits / fractions - 1) := by
      rw [same, Nat.log2_eq_iff (Nat.mul_pos (by omega) (Nat.two_pow_pos _)).ne']
      constructor
      · rw [Nat.pow_add]
        exact Nat.mul_le_mul_right _ (by omega)
      · rw [show 52 + (bits / fractions - 1) + 1 = 53 + (bits / fractions - 1) by omega, Nat.pow_add]
        exact Nat.mul_lt_mul_of_pos_right (by omega) (Nat.two_pow_pos _)
    have shift : (units bits).log2 - 52 = bits / fractions - 1 := by omega
    rw [shift, same, roundedQuotient_exact (Nat.two_pow_pos _)]
    have parts := Nat.div_add_mod bits fractions
    have whole : (bits / fractions - 1) * fractions + (fractions + bits % fractions) = bits := by
      obtain ⟨e, known⟩ := Nat.exists_eq_succ_of_ne_zero subnormal
      rw [known, Nat.mul_succ, Nat.mul_comm] at parts
      rw [known, Nat.succ_sub_one]
      omega
    rw [whole]
    exact Nat.min_eq_right finite.le

namespace Decimal

/-! ### Decimals that are read alike -/

/-- A zero at the end changes nothing but the exponent. -/
theorem magnitude_shift (n : Nat) (e : Int) :
    magnitude ⟨n * 10, e⟩ = magnitude ⟨n, e + 1⟩ := by
  unfold magnitude
  by_cases nonneg : 0 ≤ e
  · have next : (e + 1).toNat = e.toNat + 1 := by omega
    have same : n * 10 * Nat.pow 10 e.toNat = n * Nat.pow 10 (e.toNat + 1) := by
      rw [Nat.mul_assoc]
      exact congrArg (n * ·) Nat.pow_succ'.symm
    simp only [if_pos nonneg, if_pos (show 0 ≤ e + 1 by omega), next, same]
  · rw [if_neg nonneg]
    by_cases last : e = -1
    · subst last
      simpa using nearest_scaled (k := 10) (by decide) n 1
    · have next : (-e).toNat = (-(e + 1)).toNat + 1 := by omega
      rw [if_neg (show ¬ 0 ≤ e + 1 by omega), next]
      exact nearest_scaled (by decide) n (10 ^ (-(e + 1)).toNat)

theorem magnitude_zeros (n k : Nat) (e : Int) :
    magnitude ⟨n * 10 ^ k, e⟩ = magnitude ⟨n, e + k⟩ := by
  induction k generalizing e with
  | zero => simp
  | succ k ih =>
    rw [Nat.pow_succ, ← Nat.mul_assoc, magnitude_shift, ih]
    congr 2
    omega

theorem strip_magnitude (d : Decimal) : d.strip.magnitude = d.magnitude := by
  fun_induction strip d with
  | case1 => rfl
  | case2 d more ih =>
    have tens : d.digits / 10 * 10 = d.digits := by omega
    rw [ih, ← magnitude_shift, tens]

/-! ### The decimal chosen for a magnitude -/

variable {bits : Nat} {tie : Tie}

theorem magnitude_negative (n : Nat) {k : Nat} (positive : 0 < k) :
    magnitude ⟨n, -k⟩ = nearest n (Nat.pow 10 k) := by
  have below : ¬ (0 : Int) ≤ -k := by omega
  have places : (- -(k : Int)).toNat = k := by omega
  unfold magnitude
  rw [if_neg below, places]

theorem magnitude_whole (n : Nat) : magnitude ⟨n, 0⟩ = nearest n 1 := by
  unfold magnitude
  rw [if_pos le_rfl]
  congr 1
  exact Nat.mul_one n

theorem nearest_fives (n k : Nat) :
    nearest (n * Nat.pow 5 k) (Nat.pow 10 k) = nearest n (Nat.pow 2 k) := by
  have tens : Nat.pow 10 k = Nat.pow 2 k * Nat.pow 5 k := Nat.mul_pow 2 5 k
  rw [tens]
  exact nearest_scaled (pow_positive (by decide) k) n (Nat.pow 2 k)

theorem exact_magnitude (finite : bits < infinite) : (exact bits).magnitude = bits := by
  have read : (exact bits).magnitude = nearest (units bits * Nat.pow 5 1074) (Nat.pow 10 1074) :=
    magnitude_negative _ (show 0 < 1074 by decide)
  rw [read, nearest_fives]
  exact nearest_units finite

theorem neighbour?_magnitude {e : Int} {d : Decimal} (chosen : neighbour? tie bits e = some d) :
    d.magnitude = bits := by
  unfold neighbour? at chosen
  extract_lets dividend divisor low high twice at chosen
  clear_value low high
  by_cases isLow : low.magnitude = bits
  · rw [if_pos isLow] at chosen
    split at chosen
    · rename_i both
      rw [← Option.some.inj chosen]
      exact both.1
    · rw [← Option.some.inj chosen]
      exact isLow
  · rw [if_neg isLow] at chosen
    split at chosen
    · rename_i isHigh
      rw [← Option.some.inj chosen]
      exact isHigh
    · exact absurd chosen (by simp)

/-- The decimal of fewest digits is read as the magnitude that it was chosen for. -/
theorem shortest_magnitude (finite : bits < infinite) : (shortest tie bits).magnitude = bits := by
  unfold shortest
  rw [strip_magnitude]
  generalize found : List.findSome? _ _ = choice
  cases choice with
  | none => exact exact_magnitude finite
  | some d =>
    obtain ⟨digit, -, chosen⟩ := List.exists_of_findSome?_eq_some found
    exact neighbour?_magnitude chosen

/-! ### Digits -/

variable {whole part : List Char}

theorem ofLiteral_whole (digits : ∀ c ∈ whole, IsDigit c) :
    ofLiteral whole = ⟨Nat.ofDigitChars 10 whole 0, 0⟩ := by
  have all : ∀ c ∈ whole, c.isDigit = true := fun c among => isDigit_iff.2 (digits c among)
  unfold ofLiteral
  rw [List.takeWhile_eq_self_iff.2 all, List.dropWhile_eq_nil_iff.2 all]
  simp [Nat.ofDigitChars_eq_foldl]

theorem ofLiteral_point (digits : ∀ c ∈ whole, IsDigit c) :
    ofLiteral (whole ++ '.' :: part) =
      ⟨Nat.ofDigitChars 10 (whole ++ part) 0, -part.length⟩ := by
  have all : ∀ c ∈ whole, c.isDigit = true := fun c among => isDigit_iff.2 (digits c among)
  unfold ofLiteral
  rw [List.takeWhile_append_of_pos all, List.dropWhile_append_of_pos all]
  simp [Nat.ofDigitChars_eq_foldl]

theorem toDigits_isDigit (n : Nat) : ∀ c ∈ Nat.toDigits 10 n, IsDigit c := by
  intro c among
  exact isDigit_iff.1 (Nat.isDigit_of_mem_toDigits (by decide) (by decide) among)

theorem ofDigitChars_toDigits (n : Nat) : Nat.ofDigitChars 10 (Nat.toDigits 10 n) 0 = n :=
  Nat.ofDigitChars_toDigits (by decide) (by decide)

theorem zeros_isDigit (k : Nat) : ∀ c ∈ List.replicate k '0', IsDigit c := by
  intro c among
  rw [List.eq_of_mem_replicate among]
  exact isDigit_iff.1 rfl

/-- Positional digits are a literal, and are read as the decimal that they are the digits of. -/
theorem positional_reads (d : Decimal) :
    IsNumber d.positional ∧ (ofLiteral d.positional).magnitude = d.magnitude := by
  obtain ⟨n, e⟩ := d
  have digits := toDigits_isDigit n
  have value := ofDigitChars_toDigits n
  unfold positional
  simp only
  by_cases nonneg : 0 ≤ e
  · have all : ∀ c ∈ Nat.toDigits 10 n ++ List.replicate e.toNat '0', IsDigit c :=
      List.forall_mem_append.2 ⟨digits, zeros_isDigit e.toNat⟩
    rw [if_pos nonneg]
    constructor
    · exact ⟨_, by simp [Nat.toDigits_ne_nil], all, .inl rfl⟩
    · rw [ofLiteral_whole all, Nat.ofDigitChars_append, value, Nat.ofDigitChars_replicate_zero,
        Nat.mul_comm, magnitude_zeros]
      congr 2
      omega
  · rw [if_neg nonneg]
    generalize known : (-e).toNat = places
    obtain rfl : e = -places := by omega
    have some : 0 < (Nat.toDigits 10 n).length := Nat.length_toDigits_pos
    by_cases short : (Nat.toDigits 10 n).length ≤ places
    · have zero : ∀ c ∈ ['0'], IsDigit c := zeros_isDigit 1
      have all : ∀ c ∈ List.replicate (places - (Nat.toDigits 10 n).length) '0' ++
          Nat.toDigits 10 n, IsDigit c :=
        List.forall_mem_append.2 ⟨zeros_isDigit _, digits⟩
      rw [if_pos short, List.cons_append, List.cons_append, ← List.singleton_append]
      constructor
      · exact ⟨_, by simp, zero, .inr ⟨_, by simp [Nat.toDigits_ne_nil], all, rfl⟩⟩
      · have nothing : Nat.ofDigitChars 10 ['0'] 0 = 0 := rfl
        rw [ofLiteral_point zero, Nat.ofDigitChars_append, Nat.ofDigitChars_append,
          Nat.ofDigitChars_replicate_zero, nothing, Nat.mul_zero, value, List.length_append,
          List.length_replicate]
        congr 2
        omega
    · rw [if_neg short]
      generalize cut : (Nat.toDigits 10 n).length - places = k
      have before : ∀ c ∈ (Nat.toDigits 10 n).take k, IsDigit c :=
        fun c among => digits c (List.mem_of_mem_take among)
      have behind : ∀ c ∈ (Nat.toDigits 10 n).drop k, IsDigit c :=
        fun c among => digits c (List.mem_of_mem_drop among)
      have split : (Nat.toDigits 10 n).take k ≠ [] ∧ (Nat.toDigits 10 n).drop k ≠ [] := by
        rw [← List.length_pos_iff, ← List.length_pos_iff, List.length_take, List.length_drop]
        omega
      constructor
      · exact ⟨_, split.1, before, .inr ⟨_, split.2, behind, rfl⟩⟩
      · rw [ofLiteral_point before, List.take_append_drop, value, List.length_drop]
        congr 2
        omega

end Decimal

/-! ### Texts -/

variable {n : Pattern}

theorem ofMagnitude_magnitude (positive : isNegative n = false) : ofMagnitude (magnitude n) = n := by
  have small : n.toNat < signBit := by simpa [isNegative] using positive
  rw [ofMagnitude, magnitude, Nat.mod_eq_of_lt small]
  exact UInt64.ofNat_toNat

theorem sign_positive (positive : isNegative n = false) : sign n = [] := by
  rw [sign, positive]
  rfl

theorem wholePart_magnitude (whole : isWhole n = true) :
    Decimal.magnitude ⟨wholePart n, 0⟩ = magnitude n := by
  obtain ⟨finite, exact_⟩ : magnitude n < infinite ∧ units (magnitude n) % one = 0 :=
    of_decide_eq_true whole
  have back : wholePart n * one = units (magnitude n) :=
    Nat.div_mul_cancel (Nat.dvd_of_mod_eq_zero exact_)
  rw [Decimal.magnitude_whole, ← nearest_scaled one_positive, back, Nat.one_mul]
  exact nearest_units finite

/-- The fewest digits, after the sign, are a literal for the magnitude. -/
theorem shortestText_reads (finite : magnitude n < infinite) :
    ∃ digits, shortestText n = sign n ++ digits ∧ IsNumber digits ∧
      (Decimal.ofLiteral digits).magnitude = magnitude n := by
  obtain ⟨digits, reads⟩ := (Decimal.shortest .up (magnitude n)).positional_reads
  refine ⟨_, ?_, digits, reads.trans (Decimal.shortest_magnitude finite)⟩
  rw [shortestText, if_neg finite.not_gt, if_neg finite.ne]

/-- What a tree shows of a number that is not negative is a literal for this number. -/
theorem treeText_reads (positive : isNegative n = false) (finite : magnitude n < infinite) :
    IsNumber (treeText n).toList ∧ (Decimal.ofLiteral (treeText n).toList).toPattern = n := by
  have text : IsNumber (treeText n).toList ∧
      (Decimal.ofLiteral (treeText n).toList).magnitude = magnitude n := by
    rw [treeText, String.toList_ofList]
    by_cases whole : isWhole n = true
    · have digits : ∀ c ∈ wholeDigits n, IsDigit c := Decimal.toDigits_isDigit (wholePart n)
      have shape : sign n ++ wholeDigits n ++ ".0".toList = wholeDigits n ++ '.' :: ['0'] := by
        rw [sign_positive positive, List.nil_append]
        rfl
      rw [if_pos whole, shape]
      constructor
      · exact ⟨_, Nat.toDigits_ne_nil, digits,
          .inr ⟨['0'], by simp, Decimal.zeros_isDigit 1, rfl⟩⟩
      · have value : Nat.ofDigitChars 10 (wholeDigits n ++ ['0']) 0 = wholePart n * 10 := by
          rw [Nat.ofDigitChars_append, wholeDigits, Decimal.ofDigitChars_toDigits]
          simp [Nat.ofDigitChars_eq_foldl, Nat.mul_comm]
        rw [Decimal.ofLiteral_point digits, value, Decimal.magnitude_shift]
        exact wholePart_magnitude whole
    · rw [if_neg whole]
      obtain ⟨digits, same, literal⟩ := shortestText_reads finite
      rw [same, sign_positive positive]
      exact literal
  obtain ⟨digits, reads⟩ := text
  exact ⟨digits, (congrArg ofMagnitude reads).trans (ofMagnitude_magnitude positive)⟩

/-- What a program prints of a number is its sign and a literal for its magnitude. -/
theorem text_reads (finite : magnitude n < infinite) :
    ∃ digits, (text n).toList = sign n ++ digits ∧ IsNumber digits ∧
      (Decimal.ofLiteral digits).magnitude = magnitude n := by
  rw [text, String.toList_ofList]
  by_cases short : isShortWhole n = true
  · have whole : isWhole n = true := (of_decide_eq_true short).1
    have digits : ∀ c ∈ wholeDigits n, IsDigit c := Decimal.toDigits_isDigit (wholePart n)
    refine ⟨wholeDigits n, if_pos short, ⟨_, Nat.toDigits_ne_nil, digits, .inl rfl⟩, ?_⟩
    rw [Decimal.ofLiteral_whole digits, wholeDigits, Decimal.ofDigitChars_toDigits]
    exact wholePart_magnitude whole
  · rw [if_neg short]
    exact shortestText_reads finite

/-- A literal alone is one token. -/
theorem items_of_number {digits : List Char} (number : IsNumber digits) :
    Scan.items (String.ofList digits) =
      [.ok ⟨.number (Decimal.ofLiteral digits).toPattern, String.ofList digits, 1⟩,
        .ok ⟨.endOfText, "", 1⟩] := by
  have longest : Region.Longest IsNumber digits [] := by
    refine ⟨number, fun longer _ leads => ?_⟩
    rw [List.append_nil] at leads
    exact leads.length_le
  have parts : Region.Decomposes (digits ++ []) [⟨.number, digits⟩] :=
    .next (r := ⟨.number, digits⟩) longest .done
  rw [List.append_nil] at parts
  have line : Region.newlines digits = 0 := List.count_eq_zero.2 (number.unbroken rfl)
  rw [Scan.items_eq, String.toList_ofList, Region.decomposes_iff.1 parts]
  simp only [Scan.itemsFrom, line]
  rfl

/-- A printed number is a literal for the same number: a minus exactly if the number has the sign,
and then a text that scans, with no error, as one token whose value is the number without it. -/
theorem text_rescans (n : Pattern) (finite : magnitude n < infinite) :
    ∃ literal : String, text n = (if isNegative n then "-" else "") ++ literal ∧
      Scan.items literal =
        [.ok ⟨.number (ofMagnitude (magnitude n)), literal, 1⟩, .ok ⟨.endOfText, "", 1⟩] := by
  obtain ⟨digits, same, number, reads⟩ := text_reads finite
  refine ⟨String.ofList digits, ?_, ?_⟩
  · rw [← String.toList_inj, same, sign, String.toList_append, String.toList_ofList]
    split <;> rfl
  · rw [items_of_number number, Decimal.toPattern, reads]

/-- Negative zero keeps its sign, and the literal behind it is zero. -/
theorem text_rescans_negativeZero :
    magnitude 0x8000000000000000 < infinite ∧
      ∃ literal : String, text 0x8000000000000000 = "-" ++ literal ∧
        Scan.items literal = [.ok ⟨.number 0, literal, 1⟩, .ok ⟨.endOfText, "", 1⟩] := by
  have finite : magnitude 0x8000000000000000 < infinite := by decide
  exact ⟨finite, text_rescans 0x8000000000000000 finite⟩

end Lox.Number
