import LedgerZond.Review
import LedgerZond.Lib.Decimal

/-! # What a rendered amount reads as

`convert_amount_to_eth` cuts the numeral of its argument, in units of
`10 ^ 18`, to the size of its destination; where the digits fit, the text
shown denotes the amount exactly. -/
namespace LedgerZond.AmountText
open LedgerZond.CTypes LedgerZond.Types LedgerZond.Amount LedgerZond.Review
open Lib.BigEndian Lib.Decimal

/-! ## The conversion to decimal -/

/-- The C string of a conversion is the numeral of its bytes. -/
theorem uint8ArrayToDecimal_text (bytes : List UInt8) (len : Nat) :
    (uint8ArrayToDecimal bytes len).text = Nat.toDigits 10 (value (bytes.take len)) := by
  have hresult := uint8ArrayToDecimal_result bytes len
  have hchars : (uint8ArrayToDecimal bytes len).result.map Prod.snd =
      Nat.toDigits 10 (value (bytes.take len)) := by
    rw [hresult, placed, List.map_map]
    exact List.zipIdx_map_fst 0 _
  have hnul : ∀ c ∈ Nat.toDigits 10 (value (bytes.take len)), (c != '\x00') = true := by
    intro c hc
    have hdigit := Nat.isDigit_of_mem_toDigits (by decide) (by decide) hc
    rw [bne_iff_ne]
    rintro rfl
    exact absurd hdigit (by decide)
  have hout : (uint8ArrayToDecimal bytes len).out.map Prod.snd =
      Nat.toDigits 10 (value (bytes.take len)) ++ ['\x00'] := by
    rw [← hchars]
    simp [uint8ArrayToDecimal, List.map_map, Function.comp_def]
  rw [DecimalWrites.text, hout, List.takeWhile_append_of_pos hnul]
  simp

/-! ## The decimal point -/

/-- What `format_with_decimals` builds of a numeral before it trims it: the
digits before the last eighteen, a point, and these. -/
def pointed (v : Nat) : List Char := Nat.toDigits 10 (v / 10 ^ 18) ++ '.' :: lastDigits 18 v

theorem copyBounded_fits {buffer src : List Char} (h : buffer.length + src.length ≤ 49) :
    copyBounded buffer src = buffer ++ src := by
  rw [copyBounded, maxResultLen, List.take_of_length_le (by omega)]

theorem trimZeros_point (zeros rest : List Char) :
    trimZeros (zeros ++ '.' :: rest) = zeros.dropWhile (· == '0') ++ '.' :: rest := by
  induction zeros with
  | nil => rfl
  | cons c zeros ih =>
    by_cases hc : c = '0'
    · subst hc
      obtain ⟨d, tail, hd⟩ : ∃ d tail, zeros ++ '.' :: rest = d :: tail := by
        cases zeros with
        | nil => exact ⟨_, _, rfl⟩
        | cons d tail => exact ⟨_, _, rfl⟩
      rw [List.cons_append, hd, trimZeros, ← hd, ih]
      rfl
    · have hb : (c == '0') = false := by simpa using hc
      rw [List.dropWhile_cons, hb, List.cons_append]
      unfold trimZeros
      split
      · rename_i heq
        exact absurd (List.cons.inj heq).1 hc
      · rfl

/-- The trimmed text is the numeral. -/
theorem trim_pointed (v : Nat) :
    (trimPoint (trimZeros (pointed v).reverse)).reverse = fixedPoint 18 v := by
  have hrev : (pointed v).reverse =
      (lastDigits 18 v).reverse ++ '.' :: (Nat.toDigits 10 (v / 10 ^ 18)).reverse := by
    simp [pointed]
  have htrim : (lastDigits 18 v).reverse.dropWhile (· == '0') =
      (trimEnd (lastDigits 18 v)).reverse := by
    rw [trimEnd, List.rdropWhile, List.reverse_reverse]
  rw [hrev, trimZeros_point, htrim, fixedPoint]
  cases hlast : (trimEnd (lastDigits 18 v)).reverse with
  | nil =>
    have hnil : trimEnd (lastDigits 18 v) = [] := by simpa using hlast
    simp [hnil, trimPoint]
  | cons c rest =>
    have hne : trimEnd (lastDigits 18 v) ≠ [] := by
      intro hnil
      simp [hnil] at hlast
    have hdigit : c.isDigit = true := by
      refine lastDigits_isDigit 18 v c ((List.rdropWhile_prefix (· == '0') _).subset ?_)
      rw [← List.mem_reverse]
      show c ∈ (trimEnd (lastDigits 18 v)).reverse
      rw [hlast]
      exact List.mem_cons_self
    have hpoint : trimPoint (c :: rest ++ '.' :: (Nat.toDigits 10 (v / 10 ^ 18)).reverse) =
        c :: rest ++ '.' :: (Nat.toDigits 10 (v / 10 ^ 18)).reverse := by
      unfold trimPoint
      split
      · rename_i heq
        rw [(List.cons.inj heq).1] at hdigit
        exact absurd hdigit (by decide)
      · rfl
    rw [hpoint, ← hlast, if_neg hne]
    simp

theorem raw_length_le_iff {v : Nat} : (Nat.toDigits 10 v).length ≤ 18 ↔ v < 10 ^ 18 :=
  Nat.length_toDigits_le_iff (by decide) (by decide)

/-- The buffer of a numeral that is all decimals. -/
theorem buffer_small {v : Nat} (h : v < 10 ^ 18) :
    copyBounded (copyBounded ['0', '.']
        (List.replicate (18 - (Nat.toDigits 10 v).length) '0')) (Nat.toDigits 10 v) =
      pointed v := by
  have hlen := raw_length_le_iff.mpr h
  have hzeros : (['0', '.'] : List Char).length +
      (List.replicate (18 - (Nat.toDigits 10 v).length) '0').length ≤ 49 := by
    simp only [List.length_cons, List.length_nil, List.length_replicate]
    omega
  have hraw : (['0', '.'] ++ List.replicate (18 - (Nat.toDigits 10 v).length) '0').length +
      (Nat.toDigits 10 v).length ≤ 49 := by
    simp only [List.length_append, List.length_cons, List.length_nil, List.length_replicate]
    omega
  rw [copyBounded_fits hzeros, copyBounded_fits hraw, List.append_assoc,
    replicate_append_toDigits (by decide) h, pointed, Nat.div_eq_of_lt h, Nat.toDigits_zero]
  simp only [List.cons_append, List.nil_append]

/-- The buffer of a numeral with an integer part of at most 22 digits. -/
theorem buffer_large {int frac : List Char} (hint : int.length ≤ 22) (hfrac : frac.length = 18) :
    copyBounded (if (copyBounded [] int).length < maxResultLen - 1 then copyBounded [] int ++ ['.']
      else copyBounded [] int) frac = int ++ '.' :: frac := by
  have hcopy : copyBounded [] int = int := by
    rw [copyBounded_fits (by rw [List.length_nil]; omega), List.nil_append]
  rw [hcopy, if_pos (by rw [maxResultLen]; omega),
    copyBounded_fits (by rw [List.length_append, List.length_singleton]; omega)]
  simp only [List.append_assoc, List.cons_append, List.nil_append]

/-- **Decimal-point insertion.** On a numeral of at most forty digits,
`format_with_decimals` cuts the numeral of its eighteenth decimal fraction. -/
theorem formatWithDecimals_eq {v : Nat} (hv : v < 10 ^ 40) (outLen : Nat) :
    formatWithDecimals (Nat.toDigits 10 v) 18 outLen = snprintf outLen (fixedPoint 18 v) := by
  unfold formatWithDecimals
  simp only [if_neg (show (18 : Nat) ≠ 0 by decide)]
  rw [← trim_pointed]
  by_cases hsmall : v < 10 ^ 18
  · rw [if_pos (raw_length_le_iff.mpr hsmall), buffer_small hsmall]
  · have hint : (Nat.toDigits 10 (v / 10 ^ 18)).length ≤ 22 := by
      rw [Nat.length_toDigits_le_iff (by decide) (by decide), Nat.div_lt_iff_lt_mul (by decide),
        ← Nat.pow_add]
      exact hv
    have hlast := lastDigits_length 18 v
    rw [if_neg (fun h => hsmall (raw_length_le_iff.mp h)),
      ← toDigits_append_lastDigits (Nat.le_of_not_lt hsmall), List.length_append, hlast,
      Nat.add_sub_cancel, List.take_left, List.drop_left, buffer_large hint hlast, pointed]

theorem convertAmountToEth_eq {amount : List UInt8} {len : Nat}
    (h : value (amount.take len) < 10 ^ 40) (outLen : Nat) :
    convertAmountToEth amount len outLen =
      snprintf outLen (fixedPoint 18 (value (amount.take len))) := by
  rw [convertAmountToEth, uint8ArrayToDecimal_text, formatWithDecimals_eq h]

/-! ## The figure shown -/

/-- The digits of an amount fit the buffers it is rendered in: 40 digits in
`result`, and 29 characters in `amount` and `max_fees`. -/
def DigitsFit (v : Nat) : Prop := v < 10 ^ 40 ∧ (fixedPoint 18 v).length < 30

instance (v : Nat) : Decidable (DigitsFit v) := inferInstanceAs (Decidable (_ ∧ _))

/-- The number in front of `" QRL"`. -/
def qrlFigure (text : List Char) : Option ℚ :=
  if text.drop (text.length - 4) = " QRL".toList then read? (text.take (text.length - 4)) else none

theorem qrlAmount_eq {amount : List UInt8} {len : UInt8}
    (h : DigitsFit (value (amount.take len.toNat))) :
    qrlAmount amount len = fixedPoint 18 (value (amount.take len.toNat)) ++ " QRL".toList := by
  have hfit := h.2
  have hlen : " QRL".toList.length = 4 := rfl
  rw [qrlAmount, convertAmountToEth_eq h.1, snprintf, snprintf,
    List.take_of_length_le (l := fixedPoint 18 _) (by omega)]
  exact List.take_of_length_le (by rw [List.length_append, hlen]; omega)

/-- **The figure shown is the amount**, where its digits fit. -/
theorem qrlFigure_qrlAmount {amount : List UInt8} {len : UInt8}
    (h : DigitsFit (value (amount.take len.toNat))) :
    qrlFigure (qrlAmount amount len) = some ((value (amount.take len.toNat) : ℚ) / 10 ^ 18) := by
  have hlen : (fixedPoint 18 (value (amount.take len.toNat)) ++ " QRL".toList).length - 4 =
      (fixedPoint 18 (value (amount.take len.toNat))).length := by
    rw [List.length_append]
    rfl
  rw [qrlAmount_eq h, qrlFigure, hlen, List.drop_left, if_pos rfl, List.take_left,
    read?_fixedPoint]

end LedgerZond.AmountText
