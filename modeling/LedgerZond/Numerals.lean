import LedgerZond.AmountText

/-! # The two conversions behind a figure

`uint8_array_to_decimal` and `format_with_decimals` on all the arguments their
arrays have room for: what they write, where, and that nothing a C type would
cut off is cut off on the way. -/
namespace LedgerZond.Numerals
open LedgerZond.CTypes LedgerZond.Types LedgerZond.Amount LedgerZond.AmountText
open Lib.BigEndian Lib.Decimal

/-! ## `uint8_array_to_decimal` -/

/-- The values `val` takes in the inner loop, from byte `i` on. -/
def innerVals : Nat → List UInt8 → List Nat
  | _, [] => []
  | remainder, b :: temp =>
    let val := (remainder <<< 8) ||| b.toNat
    val :: innerVals (val % 10) temp

/-- The contents of `temp` at the start of each round of the outer loop. -/
inductive Round (bytes : List UInt8) : List UInt8 → Prop
  | first : Round bytes bytes
  | next {temp : List UInt8} : Round bytes temp → (divideByTen 0 temp).1.all (· == 0) = false →
      Round bytes (divideByTen 0 temp).1

/-- `temp[i] = val / 10` stores every quotient whole. -/
def QuotientsFit (temp : List UInt8) : Prop :=
  (divideByTen 0 temp).1.map UInt8.toNat = (innerVals 0 temp).map (· / 10)

/-- The outer loop ends, and `result` is what it then has written. -/
def Ends (bytes : List UInt8) (result : List (Int × Char)) : Prop :=
  ∃ rounds, ∀ fuel, rounds ≤ fuel → decimalLoop fuel bytes maxDecimalDigits [] = some result

/-- Digits that denote `v`, with no zero in front but that of `0`. -/
structure NumeralOf (v : Nat) (ds : List Char) : Prop where
  digits : ∀ c ∈ ds, c.isDigit = true
  denotes : Nat.ofDigitChars 10 ds 0 = v
  ne_nil : ds ≠ []
  zero : v = 0 → ds = ['0']
  lead : v ≠ 0 → ds.head? ≠ some '0'

/-- What a conversion of `bytes` has to do. -/
structure Converts (bytes : List UInt8) : Prop where
  ends : Ends bytes (uint8ArrayToDecimal bytes bytes.length).result
  inside : (uint8ArrayToDecimal bytes bytes.length).Inside
  writes : ∃ ds, NumeralOf (value bytes) ds ∧
    (uint8ArrayToDecimal bytes bytes.length).out =
      ds.zipIdx.map (fun (c, i) => (i, c)) ++ [(ds.length, '\x00')]
  quotients : ∀ temp, Round bytes temp → QuotientsFit temp

/-- A remainder below ten and a byte make a quotient that is a byte. -/
theorem divideByTen_map (temp : List UInt8) : ∀ {r : Nat}, r < 10 →
    (divideByTen r temp).1.map UInt8.toNat = (innerVals r temp).map (· / 10) := by
  induction temp with
  | nil => exact fun _ => rfl
  | cons b temp ih =>
    intro r hr
    have hb := b.toNat_lt
    have hval : (r <<< 8) ||| b.toNat = r * 256 + b.toNat := by
      rw [Nat.shiftLeft_eq, Nat.mul_comm, ← Nat.two_pow_add_eq_or_of_lt hb]
    have hquot : (UInt8.ofNat ((r * 256 + b.toNat) / 10)).toNat = (r * 256 + b.toNat) / 10 := by
      rw [UInt8.toNat_ofNat']
      exact Nat.mod_eq_of_lt (by omega)
    simp only [divideByTen, innerVals, hval, List.map_cons, hquot]
    rw [ih (Nat.mod_lt _ (by omega))]

theorem numeralOf_toDigits (v : Nat) : NumeralOf v (Nat.toDigits 10 v) where
  digits c hc := Nat.isDigit_of_mem_toDigits (by decide) (by decide) hc
  denotes := Nat.ofDigitChars_ten_toDigits
  ne_nil := Nat.toDigits_ne_nil
  zero hv := by rw [hv, Nat.toDigits_zero]
  lead hv := toDigits_head_ne_zero (Nat.pos_of_ne_zero hv)

theorem uint8ArrayToDecimal_out (bytes : List UInt8) (len : Nat) :
    (uint8ArrayToDecimal bytes len).out =
      (Nat.toDigits 10 (value (bytes.take len))).zipIdx.map (fun (c, i) => (i, c)) ++
        [((Nat.toDigits 10 (value (bytes.take len))).length, '\x00')] := by
  have hresult := uint8ArrayToDecimal_result bytes len
  have hchars : (uint8ArrayToDecimal bytes len).result.map Prod.snd =
      Nat.toDigits 10 (value (bytes.take len)) := by
    rw [hresult, placed, List.map_map]
    exact List.zipIdx_map_fst 0 _
  have hlen : (uint8ArrayToDecimal bytes len).result.length =
      (Nat.toDigits 10 (value (bytes.take len))).length := by
    rw [← hchars, List.length_map]
  rw [← hchars, List.length_map]
  rfl

/-- **Base-10 conversion** ends and writes the numeral of its bytes, for every
array whose numeral has at most forty digits. -/
theorem uint8ArrayToDecimal_converts {bytes : List UInt8} (hlen : bytes.length ≤ 32)
    (hv : value bytes < 10 ^ 40) : Converts bytes where
  ends := by
    refine ⟨(Nat.toDigits 10 (value bytes)).length, fun fuel hfuel => ?_⟩
    rw [decimalLoop_eq _ [] hfuel, uint8ArrayToDecimal_result, List.take_length, List.append_nil]
  inside := by
    rw [uint8ArrayToDecimal_inside_iff bytes hlen, List.take_length]
    exact hv
  writes := by
    refine ⟨_, numeralOf_toDigits (value bytes), ?_⟩
    rw [uint8ArrayToDecimal_out, List.take_length]
  quotients temp _ := divideByTen_map temp (by decide)

/-- Zero bytes in front, and a value of two bytes. -/
theorem leadingZeros_converts : Converts [0, 0, 0x03, 0xe8] :=
  uint8ArrayToDecimal_converts (by decide) (by decide)

/-! ## `format_with_decimals` -/

/-- `buffer` when it is closed by `buffer[pos] = '\0'`. -/
def filledBuffer (raw : List Char) (decimals : Nat) : List Char :=
  if raw.length ≤ decimals then
    copyBounded (copyBounded ['0', '.'] (List.replicate (decimals - raw.length) '0')) raw
  else
    let buffer := copyBounded [] (raw.take (raw.length - decimals))
    let buffer := if buffer.length < maxResultLen - 1 then buffer ++ ['.'] else buffer
    copyBounded buffer (raw.drop (raw.length - decimals))

/-- `buffer` when `end` has been moved back. -/
def trimmedBuffer (raw : List Char) (decimals : Nat) : List Char :=
  (trimPoint (trimZeros (filledBuffer raw decimals).reverse)).reverse

theorem formatWithDecimals_buffer (raw : List Char) {decimals : Nat} (h : decimals ≠ 0)
    (outLen : Nat) :
    formatWithDecimals raw decimals outLen = snprintf outLen (trimmedBuffer raw decimals) := by
  simp only [formatWithDecimals, if_neg h, trimmedBuffer, filledBuffer]

/-- Where the sources write in `buffer`: its characters and the NUL behind
them, and the characters at its end that `end` is moved back over. -/
def bufferWrites (raw : List Char) (decimals : Nat) : List Nat :=
  List.range ((filledBuffer raw decimals).length + 1) ++
    List.range' (trimmedBuffer raw decimals).length
      ((filledBuffer raw decimals).length - (trimmedBuffer raw decimals).length)

/-- `end` starts at the last character of `buffer`, and all writes are in it. -/
structure InBuffer (raw : List Char) (decimals : Nat) : Prop where
  startsInside : filledBuffer raw decimals ≠ []
  staysInside : trimmedBuffer raw decimals ≠ []
  writes : ∀ i ∈ bufferWrites raw decimals, i < maxResultLen

/-- The digits of `raw` in front of the point. -/
def integerDigits (raw : List Char) (decimals : Nat) : List Char :=
  if raw.length ≤ decimals then ['0'] else raw.take (raw.length - decimals)

/-- `text` is the tidy text of `raw / 10 ^ decimals`, with all the digits `raw`
has in front of the point. -/
structure Points (raw : List Char) (decimals : Nat) (text : List Char) : Prop where
  denotes : read? text = some ((Nat.ofDigitChars 10 raw 0 : ℚ) / 10 ^ decimals)
  tidy : ∃ frac, Tidy (integerDigits raw decimals) frac text

theorem copyBounded_length_le {buffer : List Char} (src : List Char) (h : buffer.length ≤ 49) :
    (copyBounded buffer src).length ≤ 49 := by
  rw [copyBounded, maxResultLen, List.length_append]
  have htake := List.length_take_le (50 - 1 - buffer.length) src
  omega

/-- No copy goes beyond `MAX_RESULT_LEN - 1`, however long the numeral. -/
theorem filledBuffer_length_le (raw : List Char) (decimals : Nat) :
    (filledBuffer raw decimals).length ≤ 49 := by
  unfold filledBuffer
  split
  · exact copyBounded_length_le _ (copyBounded_length_le _ (by decide))
  · refine copyBounded_length_le _ ?_
    have hint := @copyBounded_length_le [] (raw.take (raw.length - decimals)) (by decide)
    split
    · rename_i hroom
      rw [List.length_append, List.length_singleton]
      exact hroom
    · exact hint

theorem trimZeros_suffix (rev : List Char) : trimZeros rev <:+ rev := by
  induction rev with
  | nil => exact List.suffix_rfl
  | cons c rev ih =>
    unfold trimZeros
    split
    · rename_i heq
      obtain ⟨-, rfl⟩ := List.cons.inj heq
      exact ih.trans (List.suffix_cons _ _)
    · exact List.suffix_rfl

theorem trimPoint_suffix (rev : List Char) : trimPoint rev <:+ rev := by
  unfold trimPoint
  split
  · exact List.suffix_cons _ _
  · exact List.suffix_rfl

theorem trimmedBuffer_length_le (raw : List Char) (decimals : Nat) :
    (trimmedBuffer raw decimals).length ≤ (filledBuffer raw decimals).length := by
  have hsuf := ((trimPoint_suffix _).trans (trimZeros_suffix (filledBuffer raw decimals).reverse))
  have hle := hsuf.length_le
  rwa [List.length_reverse, ← @List.length_reverse _ (trimPoint _)] at hle

theorem bufferWrites_lt (raw : List Char) (decimals : Nat) :
    ∀ i ∈ bufferWrites raw decimals, i < maxResultLen := by
  have hfill := filledBuffer_length_le raw decimals
  have htrim := trimmedBuffer_length_le raw decimals
  intro i hi
  rw [maxResultLen]
  rcases List.mem_append.mp hi with hi | hi
  · have hlt := List.mem_range.mp hi
    omega
  · have hlt := (List.mem_range'_1.mp hi).2
    omega

/-- What is trimmed of a numeral's buffer leaves the numeral of its fraction. -/
theorem trimmedBuffer_toDigits {v : Nat} (hv : v < 10 ^ 40) :
    trimmedBuffer (Nat.toDigits 10 v) 18 = fixedPoint 18 v := by
  have hall : ∀ s : List Char, ∀ n, s.length ≤ n → snprintf (n + 1) s = s := by
    intro s n hn
    exact List.take_of_length_le hn
  have heq := formatWithDecimals_eq hv
    ((trimmedBuffer (Nat.toDigits 10 v) 18).length + (fixedPoint 18 v).length + 1)
  rw [formatWithDecimals_buffer _ (by decide), hall _ _ (by omega), hall _ _ (by omega)] at heq
  exact heq

/-- The digits in front of the point are those of the integer part. -/
theorem integerDigits_toDigits (v : Nat) :
    integerDigits (Nat.toDigits 10 v) 18 = Nat.toDigits 10 (v / 10 ^ 18) := by
  unfold integerDigits
  by_cases hsmall : v < 10 ^ 18
  · rw [if_pos (raw_length_le_iff.mpr hsmall), Nat.div_eq_of_lt hsmall, Nat.toDigits_zero]
  · rw [if_neg (fun h => hsmall (raw_length_le_iff.mp h)),
      ← toDigits_append_lastDigits (Nat.le_of_not_lt hsmall), List.length_append,
      lastDigits_length, Nat.add_sub_cancel, List.take_left]

theorem filledBuffer_ne_nil {raw : List Char} {decimals : Nat}
    (h : trimmedBuffer raw decimals ≠ []) : filledBuffer raw decimals ≠ [] := by
  intro hnil
  rw [trimmedBuffer, hnil] at h
  exact h rfl

/-- **Decimal-point insertion** keeps the number, tidies the text and stays in
its buffer, for every numeral of at most forty digits. -/
theorem formatWithDecimals_points {raw : List Char} {outLen : Nat} (hne : raw ≠ [])
    (hdigits : ∀ c ∈ raw, c.isDigit = true) (hlead : 1 < raw.length → raw.head? ≠ some '0')
    (hlen : raw.length ≤ 40) (hout : (trimmedBuffer raw 18).length < outLen) :
    Points raw 18 (formatWithDecimals raw 18 outLen) ∧ InBuffer raw 18 := by
  have hraw := toDigits_ofDigitChars hne hdigits hlead
  have hwrites := bufferWrites_lt raw 18
  generalize Nat.ofDigitChars 10 raw 0 = v at hraw
  subst hraw
  have hv : v < 10 ^ 40 := (Nat.length_toDigits_le_iff (by decide) (by decide)).mp hlen
  have htrim := trimmedBuffer_toDigits hv
  have htext : formatWithDecimals (Nat.toDigits 10 v) 18 outLen = fixedPoint 18 v := by
    rw [formatWithDecimals_buffer _ (by decide), ← htrim]
    exact List.take_of_length_le (by omega)
  have htidy := fixedPoint_tidy 18 v
  have hstays : trimmedBuffer (Nat.toDigits 10 v) 18 ≠ [] := by
    rw [htrim, htidy.text]
    exact List.append_ne_nil_of_left_ne_nil htidy.int_ne _
  refine ⟨⟨?_, ?_⟩, filledBuffer_ne_nil hstays, hstays, hwrites⟩
  · rw [htext, read?_fixedPoint, Nat.ofDigitChars_ten_toDigits]
  · rw [htext, integerDigits_toDigits]
    exact ⟨_, htidy⟩

/-- Zeros on both sides of the point: `1000.5`. -/
theorem thousandAndHalf_points :
    Points "1000500000000000000000".toList 18
        (formatWithDecimals "1000500000000000000000".toList 18 7) ∧
      InBuffer "1000500000000000000000".toList 18 :=
  formatWithDecimals_points (by decide) (List.all_eq_true.mp (by decide)) (by decide) (by decide)
    (by decide)

end LedgerZond.Numerals
