-- The law of decimals: the text of a decimal is read back as the decimal it was
-- written from, so no two have one text, and it has no point and no place that it
-- could do without. The rate of a vault has such a text, cut off after eighteen
-- places.
import YieldVault.Decimal
import YieldVault.Proofs.Exchange

namespace YieldVault

/-! ## Digits -/

namespace Text

theorem numberOf_eq_ofDigitChars (cs : List Char) : numberOf cs = Nat.ofDigitChars 10 cs 0 := rfl

theorem naturalChars?_of_digits {cs : List Char} (hsome : cs ≠ []) (hdigits : ∀ c ∈ cs, c.isDigit) :
    naturalChars? cs = some (numberOf cs) := by
  have hall : cs.all Char.isDigit := List.all_eq_true.2 hdigits
  simp [naturalChars?, hsome, hall]

theorem naturalChars?_toDigits (n : Nat) : naturalChars? (Nat.toDigits 10 n) = some n := by
  have hdigits : ∀ c ∈ Nat.toDigits 10 n, c.isDigit := fun c hc =>
    Nat.isDigit_of_mem_toDigits (by decide) (by decide) hc
  rw [naturalChars?_of_digits Nat.toDigits_ne_nil hdigits, numberOf_eq_ofDigitChars,
    Nat.ofDigitChars_ten_toDigits]

end Text

namespace Decimal

/-! ## Places -/

theorem digit_eq (n : Nat) : Char.ofNat (48 + n % 10) = (n % 10).digitChar := by
  have hlt : n % 10 < 10 := Nat.mod_lt n (by decide)
  generalize n % 10 = digit at hlt
  decide +revert

theorem length_paddedDigits (width n : Nat) : (paddedDigits width n).length = width := by
  induction width generalizing n with
  | zero => rfl
  | succ width ih => simp [paddedDigits, ih]

theorem isDigit_of_mem_paddedDigits {width n : Nat} {c : Char} (hc : c ∈ paddedDigits width n) :
    c.isDigit := by
  induction width generalizing n with
  | zero => cases hc
  | succ width ih =>
    rw [paddedDigits, digit_eq] at hc
    rcases List.mem_append.1 hc with hc | hc
    · exact ih hc
    · rw [List.mem_singleton.1 hc, Nat.isDigit_digitChar]
      exact decide_eq_true (Nat.mod_lt n (by decide))

theorem numberOf_paddedDigits (width n : Nat) :
    Text.numberOf (paddedDigits width n) = n % 10 ^ width := by
  induction width generalizing n with
  | zero => simp [paddedDigits, Text.numberOf, Nat.mod_one]
  | succ width ih =>
    have hlt : n % 10 < 10 := Nat.mod_lt n (by decide)
    have hahead := ih (n / 10)
    rw [Text.numberOf_eq_ofDigitChars] at hahead ⊢
    rw [paddedDigits, digit_eq, Nat.ofDigitChars_append, hahead,
      Nat.ofDigitChars_cons_digitChar_of_lt_ten hlt, Nat.ofDigitChars_nil, Nat.pow_succ',
      Nat.mod_mul]
    exact Nat.add_comm _ _

/-! ## Closing zeros -/

theorem exists_closing_zeros (cs : List Char) :
    ∃ count, cs = dropClosingZeros cs ++ List.replicate count '0' := by
  have hzeros : ∀ c ∈ (cs.reverse.takeWhile (· = '0')).reverse, c = '0' := by
    intro c hc
    simpa using List.all_eq_true.1 List.all_takeWhile c (List.mem_reverse.1 hc)
  refine ⟨(cs.reverse.takeWhile (· = '0')).length, ?_⟩
  calc cs = (cs.reverse.takeWhile (· = '0') ++ cs.reverse.dropWhile (· = '0')).reverse := by
        rw [List.takeWhile_append_dropWhile, List.reverse_reverse]
    _ = dropClosingZeros cs ++ (cs.reverse.takeWhile (· = '0')).reverse := List.reverse_append
    _ = dropClosingZeros cs ++ List.replicate _ '0' := by
        rw [List.eq_replicate_of_mem hzeros, List.length_reverse]

theorem getLast?_dropClosingZeros (cs : List Char) : (dropClosingZeros cs).getLast? ≠ some '0' := by
  intro hlast
  have hhead := List.head?_dropWhile_not (· = '0') cs.reverse
  rw [dropClosingZeros, List.getLast?_reverse] at hlast
  rw [hlast] at hhead
  simp at hhead

/-- Unless a fraction is nothing, some of its places are written. -/
theorem dropClosingZeros_ne_nil {cs : List Char} (hsome : Text.numberOf cs ≠ 0) :
    dropClosingZeros cs ≠ [] := by
  intro hnil
  obtain ⟨count, hcs⟩ := exists_closing_zeros cs
  rw [hnil, List.nil_append] at hcs
  rw [hcs, Text.numberOf_eq_ofDigitChars, Nat.ofDigitChars_replicate_zero, Nat.mul_zero] at hsome
  exact hsome rfl

/-! ## Reading -/

/-- The fraction that is written after a whole part, if anything is: a point and at most eighteen
places, the others being zeros. -/
def fraction? : List Char → Option Nat
  | [] => some 0
  | _ :: digits =>
    if digits.length ≤ places then
      Text.naturalChars? (digits ++ List.replicate (places - digits.length) '0')
    else none

/-- The decimal that characters write: a whole part, and a fraction from the point on. -/
def ofChars? (cs : List Char) : Option Decimal := do
  let whole ← Text.naturalChars? (cs.takeWhile (· ≠ '.'))
  let fraction ← fraction? (cs.dropWhile (· ≠ '.'))
  some ⟨whole * one + fraction⟩

/-- The decimal that a text writes. -/
def ofText? (text : String) : Option Decimal := ofChars? text.toList

theorem fraction?_dropClosingZeros {n : Nat} (hlt : n < one) :
    fraction? ('.' :: dropClosingZeros (paddedDigits places n)) = some n := by
  obtain ⟨count, hzeros⟩ := exists_closing_zeros (paddedDigits places n)
  have hlength := congrArg List.length hzeros
  rw [length_paddedDigits, List.length_append, List.length_replicate] at hlength
  have hcount : places - (dropClosingZeros (paddedDigits places n)).length = count := by omega
  have hpadded : paddedDigits places n ≠ [] := by
    intro hnil
    have := length_paddedDigits places n
    rw [hnil] at this
    cases this
  rw [fraction?, if_pos (by omega), hcount, ← hzeros,
    Text.naturalChars?_of_digits hpadded fun c hc => isDigit_of_mem_paddedDigits hc,
    numberOf_paddedDigits]
  exact congrArg some (Nat.mod_eq_of_lt hlt)

/-! ## Writing -/

variable {d : Decimal}

theorem toList_text_of_whole (h : d.scaled % one = 0) :
    d.text.toList = Nat.toDigits 10 (d.scaled / one) := by
  simp [text, h]

theorem toList_text_of_fraction (h : d.scaled % one ≠ 0) :
    d.text.toList = Nat.toDigits 10 (d.scaled / one) ++
      '.' :: dropClosingZeros (paddedDigits places (d.scaled % one)) := by
  simp [text, h]

/-! ## There and back -/

theorem ne_point_of_mem_toDigits {n : Nat} {c : Char} (hc : c ∈ Nat.toDigits 10 n) : c ≠ '.' := by
  rintro rfl
  exact absurd (Nat.isDigit_of_mem_toDigits (by decide) (by decide) hc) (by decide)

/-- Characters that begin with a number are read on from its end, where a point stands if anything
does. -/
theorem ofChars?_toDigits (n : Nat) {rest : List Char} (hrest : ∀ c ∈ rest.head?, c = '.') :
    ofChars? (Nat.toDigits 10 n ++ rest) =
      (fraction? rest).map fun fraction => ⟨n * one + fraction⟩ := by
  have hwhole : ∀ c ∈ Nat.toDigits 10 n, decide (c ≠ '.') = true := fun c hc =>
    decide_eq_true (ne_point_of_mem_toDigits hc)
  have htake : rest.takeWhile (· ≠ '.') = [] := by
    cases rest with
    | nil => rfl
    | cons c digits => simp [hrest c rfl]
  have hdrop : rest.dropWhile (· ≠ '.') = rest := by
    cases rest with
    | nil => rfl
    | cons c digits => simp [hrest c rfl]
  rw [ofChars?, List.takeWhile_append_of_pos hwhole, List.dropWhile_append_of_pos hwhole, htake,
    hdrop, List.append_nil, Text.naturalChars?_toDigits]
  cases fraction? rest <;> rfl

/-- What is written is read back. -/
theorem ofText?_text (d : Decimal) : ofText? d.text = some d := by
  have hsplit : d.scaled / one * one + d.scaled % one = d.scaled := Nat.div_add_mod' _ _
  by_cases h : d.scaled % one = 0
  · have hread : ofChars? (Nat.toDigits 10 (d.scaled / one) ++ []) = some ⟨d.scaled / one * one + 0⟩ :=
      ofChars?_toDigits _ (by simp)
    rw [List.append_nil] at hread
    rw [ofText?, toList_text_of_whole h, hread]
    rw [h] at hsplit
    exact congrArg (fun scaled => some (mk scaled)) hsplit
  · have hlt : d.scaled % one < one := Nat.mod_lt _ (by decide)
    rw [ofText?, toList_text_of_fraction h, ofChars?_toDigits _ (by simp),
      fraction?_dropClosingZeros hlt]
    exact congrArg (fun scaled => some (mk scaled)) hsplit

/-! ## No more than is needed -/

theorem point_mem_text_iff : '.' ∈ d.text.toList ↔ d.scaled % one ≠ 0 := by
  by_cases h : d.scaled % one = 0
  · rw [toList_text_of_whole h]
    simp only [h, ne_eq, not_true_eq_false, iff_false]
    exact fun hpoint => ne_point_of_mem_toDigits hpoint rfl
  · rw [toList_text_of_fraction h]
    simp [h]

/-- A text ends in a digit, and after a point not in a zero. -/
theorem exists_last_of_text (d : Decimal) :
    ∃ c, d.text.toList.getLast? = some c ∧ c.isDigit ∧ ('.' ∈ d.text.toList → c ≠ '0') := by
  rw [point_mem_text_iff]
  by_cases h : d.scaled % one = 0
  · have hsome : Nat.toDigits 10 (d.scaled / one) ≠ [] := Nat.toDigits_ne_nil
    rw [toList_text_of_whole h]
    exact ⟨_, List.getLast?_eq_some_getLast hsome,
      Nat.isDigit_of_mem_toDigits (by decide) (by decide) (List.getLast_mem hsome),
      fun hfraction => absurd h hfraction⟩
  · have hnumber : Text.numberOf (paddedDigits places (d.scaled % one)) ≠ 0 := by
      rw [numberOf_paddedDigits]
      exact fun hzero => h ((Nat.mod_eq_of_lt (Nat.mod_lt _ (by decide))).symm.trans hzero)
    have hsome := dropClosingZeros_ne_nil hnumber
    have hnot := getLast?_dropClosingZeros (paddedDigits places (d.scaled % one))
    obtain ⟨count, hzeros⟩ := exists_closing_zeros (paddedDigits places (d.scaled % one))
    generalize hkept : dropClosingZeros (paddedDigits places (d.scaled % one)) = kept at *
    have hmem : kept.getLast hsome ∈ paddedDigits places (d.scaled % one) := by
      rw [hzeros]
      exact List.mem_append_left _ (List.getLast_mem hsome)
    have hlast : kept.getLast? = some (kept.getLast hsome) := List.getLast?_eq_some_getLast hsome
    rw [toList_text_of_fraction h, hkept]
    refine ⟨kept.getLast hsome, ?_, isDigit_of_mem_paddedDigits hmem, fun _ hzero => ?_⟩
    · simp [List.getLast?_append, List.getLast?_cons, hlast]
    · rw [hlast, hzero] at hnot
      exact hnot rfl

/-! ## Rates -/

theorem ofRatio_of_ne_zero {numerator denominator : UInt64} (hd : denominator ≠ 0) :
    ofRatio numerator denominator = .ok ⟨numerator.toNat * one / denominator.toNat⟩ := by
  have hone : (BitVec.ofNat 128 one).toNat = one := by decide
  have hroom : (Wide.ofWord numerator).toNat * (BitVec.ofNat 128 one).toNat < 2 ^ 128 := by
    rw [Wide.toNat_ofWord, hone]
    calc numerator.toNat * one
        ≤ UInt64.size * one := Nat.mul_le_mul_right one numerator.toNat_lt.le
      _ < 2 ^ 128 := by decide
  obtain ⟨product, hproduct, hproductNat⟩ := Wide.exists_mul?_eq_ok hroom
  rw [Wide.toNat_ofWord, hone] at hproductNat
  rw [ofRatio, if_neg hd, hproduct]
  show Except.ok (mk (product / Wide.ofWord denominator).toNat) = _
  rw [BitVec.toNat_udiv, hproductNat, Wide.toNat_ofWord]

end Decimal

namespace ExchangeRate

/-- What a share of a vault is worth, exactly; one unit if the vault is empty on either side. -/
def exact (total supply : UInt64) : ℚ :=
  if total = 0 ∨ supply = 0 then 1 else total.toNat / supply.toNat

theorem exact_eq_side (total supply : UInt64) :
    exact total supply = side total supply / side supply total := by
  unfold exact side
  by_cases hsome : total = 0 ∨ supply = 0
  · simp [hsome, hsome.symm]
  · rw [if_neg hsome, if_neg hsome, if_neg (mt Or.symm hsome)]

/-- The rate of any vault has a decimal: the exact rate, cut off after the last place. -/
theorem decimal_ofTotals (total supply : UInt64) :
    (ofTotals total supply).decimal = .ok ⟨⌊exact total supply * 10 ^ 18⌋₊⟩ := by
  have hplaces : (Decimal.one : ℚ) = 10 ^ 18 := by norm_num [Decimal.one, Decimal.places]
  rw [decimal, Decimal.ofRatio_of_ne_zero (ne_zero_of_ofTotals total supply).2,
    toNat_value_ofTotals, toNat_shares_ofTotals, exact_eq_side, ← hplaces, div_mul_eq_mul_div,
    ← Nat.cast_mul, Rat.natFloor_natCast_div_natCast]

end ExchangeRate

/-! ## The law -/

/-- The text of a decimal is read back as that decimal, and no other decimal has it. It has a point
only before a fraction, and does not end in a point, or after one in a zero. The rate of any vault
is such a text: the exact quotient, cut off after eighteen places. -/
theorem a_decimal_is_read_back_from_its_text :
    (∀ d : Decimal, Decimal.ofText? d.text = some d) ∧
    Function.Injective Decimal.text ∧
    (∀ d : Decimal, ('.' ∈ d.text.toList ↔ d.scaled % 10 ^ 18 ≠ 0) ∧
      ('.' ∈ d.text.toList → d.text.toList.getLast? ≠ some '0') ∧
      d.text.toList.getLast? ≠ some '.') ∧
    ∀ total supply, ∃ d, (ExchangeRate.ofTotals total supply).decimal = .ok d ∧
      Decimal.ofText? d.text = some ⟨⌊ExchangeRate.exact total supply * 10 ^ 18⌋₊⟩ := by
  refine ⟨Decimal.ofText?_text, ?_, fun d => ⟨Decimal.point_mem_text_iff, ?_, ?_⟩, ?_⟩
  · intro d e h
    have hread := Decimal.ofText?_text d
    rw [h, Decimal.ofText?_text] at hread
    exact (Option.some.inj hread).symm
  · intro hpoint hlast
    obtain ⟨c, hc, -, hnot⟩ := d.exists_last_of_text
    rw [hc, Option.some.injEq] at hlast
    exact hnot hpoint hlast
  · intro hlast
    obtain ⟨c, hc, hdigit, -⟩ := d.exists_last_of_text
    rw [hc, Option.some.injEq] at hlast
    rw [hlast] at hdigit
    exact absurd hdigit (by decide)
  · intro total supply
    exact ⟨_, ExchangeRate.decimal_ofTotals total supply, Decimal.ofText?_text _⟩

/-- A fraction keeps the zeros ahead of its places, and loses those behind them. -/
example : Decimal.text ⟨50000000000000000⟩ = "0.05" ∧ Decimal.text ⟨12000000000000000000⟩ = "12" := by
  decide +kernel

end YieldVault
