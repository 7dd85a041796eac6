import LedgerZond.DecodeGrammar
import Mathlib.Tactic.IntervalCases

/-! # Rendering integers and amounts

`uint8_array_to_decimal`, `format_with_decimals` and `convert_amount_to_eth`
of `ui/nbgl_display_transaction.c`. A C string is the list of its characters
before the NUL. The writes of `uint8_array_to_decimal` go by explicit indices,
since neither of its two arrays is checked. -/
namespace LedgerZond.Amount
open LedgerZond.CTypes LedgerZond.Types LedgerZond.RlpDecode LedgerZond.DecodeGrammar
open LedgerZond.TxGrammar Lib.BigEndian

def maxDecimalDigits : Nat := 40
def maxResultLen : Nat := 50

/-! ## `uint8_array_to_decimal` -/

/-- The inner loop: `temp` divided by ten in place from byte `i` on, and the
last `remainder`. -/
def divideByTen : Nat → List UInt8 → List UInt8 × Nat
  | remainder, [] => ([], remainder)
  | remainder, b :: temp =>
    let val := (remainder <<< 8) ||| b.toNat
    let (temp', remainder') := divideByTen (val % 10) temp
    (UInt8.ofNat (val / 10) :: temp', remainder')

/-- `'0' + remainder`. -/
def digit (remainder : Nat) : Char := Char.ofNat ('0'.toNat + remainder)

/-- The outer loop, from `result[resultIndex]` down. What it has written is
`result`, lowest index first. `none` when `fuel` rounds do not end it. -/
def decimalLoop : Nat → List UInt8 → Int → List (Int × Char) → Option (List (Int × Char))
  | 0, _, _, _ => none
  | fuel + 1, temp, resultIndex, result =>
    let (temp', remainder) := divideByTen 0 temp
    let result' := (resultIndex - 1, digit remainder) :: result
    if temp'.all (· == 0) then some result'
    else decimalLoop fuel temp' (resultIndex - 1) result'

/-- The writes of a call: how many bytes to `temp`, and those to `result` and `out`. -/
structure DecimalWrites where
  temp : Nat
  result : List (Int × Char)
  out : List (Nat × Char)
deriving DecidableEq

/-- `uint8_array_to_decimal`. Three rounds for each byte end the loop. -/
def uint8ArrayToDecimal (bytes : List UInt8) (len : Nat) : DecimalWrites :=
  let temp := bytes.take len
  let result := (decimalLoop (3 * temp.length + 1) temp maxDecimalDigits []).getD []
  let numDigits := result.length
  { temp := len
    result := result
    out := (result.map Prod.snd).zipIdx.map (fun (c, i) => (i, c)) ++ [(numDigits, '\x00')] }

/-- The C string a call leaves in `out`. -/
def DecimalWrites.text (w : DecimalWrites) : List Char :=
  (w.out.map Prod.snd).takeWhile (· != '\x00')

/-! ## `format_with_decimals` and `convert_amount_to_eth` -/

/-- `snprintf(out, out_len, "%s", s)`. -/
def snprintf (outLen : Nat) (s : List Char) : List Char := s.take (outLen - 1)

/-- A copy loop into `buffer`, bounded by `pos < MAX_RESULT_LEN - 1`. -/
def copyBounded (buffer src : List Char) : List Char :=
  buffer ++ src.take (maxResultLen - 1 - buffer.length)

/-- `while (*end == '0' && end > buffer) *end-- = '\0'`, the last character first. -/
def trimZeros : List Char → List Char
  | '0' :: c :: rest => trimZeros (c :: rest)
  | rev => rev

/-- `if (*end == '.') *end = '\0'`, the last character first. -/
def trimPoint : List Char → List Char
  | '.' :: rest => rest
  | rev => rev

def formatWithDecimals (raw : List Char) (decimals outLen : Nat) : List Char :=
  let len := raw.length
  if decimals = 0 then snprintf outLen raw
  else
    let buffer :=
      if len ≤ decimals then
        copyBounded (copyBounded ['0', '.'] (List.replicate (decimals - len) '0')) raw
      else
        let intPart := len - decimals
        let buffer := copyBounded [] (raw.take intPart)
        let buffer := if buffer.length < maxResultLen - 1 then buffer ++ ['.'] else buffer
        copyBounded buffer (raw.drop intPart)
    snprintf outLen (trimPoint (trimZeros buffer.reverse)).reverse

def convertAmountToEth (amount : List UInt8) (len outLen : Nat) : List Char :=
  formatWithDecimals (uint8ArrayToDecimal amount len).text 18 outLen

/-! ## What the conversion writes -/

theorem divideByTen_spec (temp : List UInt8) :
    ∀ {r : Nat}, r < 10 →
      (divideByTen r temp).1.length = temp.length ∧
      value (divideByTen r temp).1 = (r * 256 ^ temp.length + value temp) / 10 ∧
      (divideByTen r temp).2 = (r * 256 ^ temp.length + value temp) % 10 := by
  induction temp with
  | nil =>
    intro r hr
    simp [divideByTen]
    omega
  | cons b temp ih =>
    intro r hr
    have hb := b.toNat_lt
    have hval : (r <<< 8) ||| b.toNat = r * 256 + b.toNat := by
      rw [Nat.shiftLeft_eq, Nat.mul_comm, ← Nat.two_pow_add_eq_or_of_lt hb]
    obtain ⟨hlen, hq, hm⟩ := ih (Nat.mod_lt (r * 256 + b.toNat) (by omega : 10 > 0))
    -- the quotient of `remainder << 8 | byte` by ten fits in a byte
    have hqb : (UInt8.ofNat ((r * 256 + b.toNat) / 10)).toNat = (r * 256 + b.toNat) / 10 := by
      simp
      omega
    have hsplit : r * 256 ^ (temp.length + 1) + (b.toNat * 256 ^ temp.length + value temp) =
        10 * ((r * 256 + b.toNat) / 10 * 256 ^ temp.length) +
          ((r * 256 + b.toNat) % 10 * 256 ^ temp.length + value temp) := by
      have hdm := Nat.div_add_mod (r * 256 + b.toNat) 10
      calc r * 256 ^ (temp.length + 1) + (b.toNat * 256 ^ temp.length + value temp)
        _ = (r * 256 + b.toNat) * 256 ^ temp.length + value temp := by ring
        _ = (10 * ((r * 256 + b.toNat) / 10) + (r * 256 + b.toNat) % 10) * 256 ^ temp.length +
              value temp := by rw [hdm]
        _ = _ := by ring
    simp only [divideByTen, hval, List.length_cons, value_cons, hlen, hq, hm, hqb, hsplit]
    exact ⟨trivial, (Nat.mul_add_div (by omega) _ _).symm, (Nat.mul_add_mod _ _ _).symm⟩

theorem all_zero_iff (bs : List UInt8) : bs.all (· == 0) = true ↔ value bs = 0 := by
  induction bs with
  | nil => simp
  | cons b bs ih =>
    have hpos : 0 < 256 ^ bs.length := Nat.pow_pos (by omega)
    simp only [List.all_cons, Bool.and_eq_true, beq_iff_eq, ih, value_cons, Nat.add_eq_zero_iff,
      Nat.mul_eq_zero, hpos.ne', or_false, ← UInt8.toNat_inj]
    rfl

theorem digit_eq {r : Nat} (h : r < 10) : digit r = Nat.digitChar r := by
  interval_cases r <;> rfl

/-- Where a run of characters is written that ends before index `stop`. -/
def placed (stop : Int) (cs : List Char) : List (Int × Char) :=
  cs.zipIdx.map fun (c, i) => (stop - cs.length + i, c)

theorem placed_concat (stop : Int) (cs : List Char) (c : Char) :
    placed stop (cs ++ [c]) = placed (stop - 1) cs ++ [(stop - 1, c)] := by
  simp [placed, List.zipIdx_append]
  refine ⟨fun a b _ => ?_, ?_⟩ <;> omega

/-- With fuel for every digit, the loop writes the numeral of `temp`, its last
digit first, downwards from `resultIndex`. -/
theorem decimalLoop_eq {fuel : Nat} {temp : List UInt8} (resultIndex : Int)
    (result : List (Int × Char)) (hfuel : (Nat.toDigits 10 (value temp)).length ≤ fuel) :
    decimalLoop fuel temp resultIndex result =
      some (placed resultIndex (Nat.toDigits 10 (value temp)) ++ result) := by
  induction fuel generalizing temp resultIndex result with
  | zero =>
    have hpos : 0 < (Nat.toDigits 10 (value temp)).length := Nat.length_toDigits_pos
    omega
  | succ fuel ih =>
    obtain ⟨-, hq, hm⟩ := divideByTen_spec temp (r := 0) (by omega)
    simp only [Nat.zero_mul, Nat.zero_add] at hq hm
    have hd : digit (value temp % 10) = Nat.digitChar (value temp % 10) :=
      digit_eq (Nat.mod_lt _ (by omega))
    simp only [decimalLoop, hm, hd]
    by_cases h10 : value temp < 10
    · rw [if_pos ((all_zero_iff _).mpr (by rw [hq]; omega)), Nat.toDigits_of_lt_base h10,
        Nat.mod_eq_of_lt h10]
      simp [placed]
    · have hstep := Nat.toDigits_of_base_le (b := 10) (by omega) (by omega : 10 ≤ value temp)
      rw [hstep, List.length_append, List.length_singleton] at hfuel
      rw [if_neg (by rw [all_zero_iff, hq]; omega), ih _ _ (by rw [hq]; omega), hstep, hq,
        placed_concat, List.append_assoc]
      rfl

/-- **Termination and digits.** Three rounds for each byte are enough, and what
is written is the numeral, ending at the end of `result`. -/
theorem uint8ArrayToDecimal_result (bytes : List UInt8) (len : Nat) :
    (uint8ArrayToDecimal bytes len).result =
      placed maxDecimalDigits (Nat.toDigits 10 (value (bytes.take len))) := by
  have hfuel : (Nat.toDigits 10 (value (bytes.take len))).length ≤
      3 * (bytes.take len).length + 1 := by
    rw [Nat.length_toDigits_le_iff (by omega) (by omega)]
    calc value (bytes.take len) < 256 ^ (bytes.take len).length := value_lt _
      _ ≤ (10 ^ 3) ^ (bytes.take len).length := Nat.pow_le_pow_left (by omega) _
      _ = 10 ^ (3 * (bytes.take len).length) := (Nat.pow_mul ..).symm
      _ ≤ 10 ^ (3 * (bytes.take len).length + 1) := Nat.pow_le_pow_right (by omega) (by omega)
  simp only [uint8ArrayToDecimal, decimalLoop_eq _ [] hfuel, Option.getD_some, List.append_nil]

/-! ## Whether the writes stay inside the arrays -/

/-- Every write is inside `temp[32]`, `result[MAX_DECIMAL_DIGITS]` and, when
`out` is `dec`, `dec[MAX_RESULT_LEN]`. -/
def DecimalWrites.Inside (w : DecimalWrites) : Prop :=
  w.temp ≤ 32 ∧ (∀ x ∈ w.result, 0 ≤ x.1 ∧ x.1 < maxDecimalDigits) ∧
    ∀ x ∈ w.out, x.1 < maxResultLen

/-- The two conversions `ui_display_transaction_bs_choice` makes of an amount. -/
def RendersInside (tx : ZondTx) : Prop :=
  (uint8ArrayToDecimal tx.value.toList tx.valueLen.toNat).Inside ∧
    (uint8ArrayToDecimal tx.gasFeeCap.toList tx.gasFeeCapLen.toNat).Inside

theorem mem_placed {stop : Int} {cs : List Char} {x : Int × Char} (h : x ∈ placed stop cs) :
    stop - cs.length ≤ x.1 ∧ x.1 < stop := by
  simp only [placed, List.mem_map, Prod.exists] at h
  obtain ⟨c, i, hmem, rfl⟩ := h
  have hi := (List.mem_zipIdx hmem).2.1
  simp only [Nat.zero_add] at hi
  constructor <;> simp only <;> omega

theorem first_mem_placed (stop : Int) {cs : List Char} (h : cs ≠ []) :
    ∃ c, (stop - cs.length, c) ∈ placed stop cs := by
  cases cs with
  | nil => exact absurd rfl h
  | cons c cs => exact ⟨c, by simp [placed]⟩

/-- The conversion stays inside exactly for numerals of at most 40 digits. -/
theorem uint8ArrayToDecimal_inside_iff (bytes : List UInt8) {len : Nat} (hlen : len ≤ 32) :
    (uint8ArrayToDecimal bytes len).Inside ↔ value (bytes.take len) < 10 ^ 40 := by
  have hdigits := Nat.length_toDigits_le_iff (n := value (bytes.take len)) (b := 10) (k := 40)
    (by omega) (by omega)
  rw [← hdigits]
  have hres := uint8ArrayToDecimal_result bytes len
  constructor
  · intro hinside
    obtain ⟨-, hresult, -⟩ := hinside
    rw [hres] at hresult
    obtain ⟨c, hc⟩ := first_mem_placed maxDecimalDigits
      (Nat.toDigits_ne_nil (b := 10) (n := value (bytes.take len)))
    have hlow := (hresult _ hc).1
    simp only [maxDecimalDigits] at hlow
    omega
  · intro h
    refine ⟨hlen, ?_, ?_⟩
    · intro x hx
      rw [hres] at hx
      obtain ⟨hlow, hhigh⟩ := mem_placed hx
      simp only [maxDecimalDigits] at hlow hhigh ⊢
      omega
    · intro x hx
      have hcount : (uint8ArrayToDecimal bytes len).result.length ≤ 40 := by
        rw [hres]
        simpa [placed] using h
      simp only [uint8ArrayToDecimal, List.mem_append, List.mem_map, Prod.exists,
        List.mem_singleton] at hx hcount
      simp only [maxResultLen]
      rcases hx with ⟨c, i, hmem, rfl⟩ | rfl
      · have hi := (List.mem_zipIdx hmem).2.1
        simp only [List.length_map, Nat.zero_add] at hi
        simp only
        omega
      · simp only
        omega

/-- An array holds no more than its size. -/
theorem holdsField_le {n len : Nat} {a : Bytes n} {p : List UInt8} (h : HoldsField a len p) :
    len ≤ n := by
  have hlen := congrArg List.length h.2
  rw [List.length_take, a.size_eq, ← h.1] at hlen
  omega

/-- **Rendering an accepted transaction** stays inside the arrays exactly when
the amount and the fee cap have at most 40 decimal digits. -/
theorem rendersInside_iff (t : Target) {b : List UInt8} (hb : b.length ≤ maxTransactionLen)
    {prior tx : ZondTx} (h : decodeLedgerTx t b prior = .ok (0, tx)) :
    RendersInside tx ↔
      value (tx.value.toList.take tx.valueLen.toNat) < 10 ^ 40 ∧
        value (tx.gasFeeCap.toList.take tx.gasFeeCapLen.toNat) < 10 ^ 40 := by
  obtain ⟨-, -, -, -, _, _, _, _, _, _, _, _, _, _, _, -, -, -, -, hfee, -, -, hvalue, -⟩ :=
    decodeLedgerTx_accepted (hb.trans maxTransactionLen_le) h
  rw [RendersInside, uint8ArrayToDecimal_inside_iff _ (holdsField_le hvalue),
    uint8ArrayToDecimal_inside_iff _ (holdsField_le hfee)]

theorem validCreation_rendersInside :
    ∃ tx, decodeLedgerTx .device validCreation .zero = .ok (0, tx) ∧
      (RendersInside tx ↔
        value (tx.value.toList.take tx.valueLen.toNat) < 10 ^ 40 ∧
          value (tx.gasFeeCap.toList.take tx.gasFeeCapLen.toNat) < 10 ^ 40) := by
  obtain ⟨tx, hdec, -⟩ := accepted_of_map .device validCreation .zero (fun _ => ()) () (by decide)
  exact ⟨tx, hdec, rendersInside_iff .device (by decide) hdec⟩

/-- A contract creation that carries `10 ^ 40`. -/
def largeValue : List UInt8 :=
  [0x02, 0xdf, 0x80, 0x80, 0x80, 0x80, 0x80, 0x80, 0x91, 0x1d, 0x63, 0x29, 0xf1, 0xc3, 0x5c, 0xa4,
    0xbf, 0xab, 0xb9, 0xf5, 0x61, 0, 0, 0, 0, 0, 0x80, 0x80, 0x83, 1, 0, 0, 0x80]

/-- Its rendering writes below `result`. -/
theorem largeValue_rendersOutside :
    ∃ tx, decodeLedgerTx .device largeValue .zero = .ok (0, tx) ∧ ¬RendersInside tx := by
  obtain ⟨tx, hdec, hvalue⟩ := accepted_of_map .device largeValue .zero
    (fun tx => (tx.valueLen, tx.value.toList.take tx.valueLen.toNat))
    (17, (largeValue.drop 9).take 17) (by decide)
  simp only [Prod.mk.injEq] at hvalue
  refine ⟨tx, hdec, ?_⟩
  intro hinside
  have hsmall := (uint8ArrayToDecimal_inside_iff _ (by rw [hvalue.1]; decide)).mp hinside.1
  rw [hvalue.2] at hsmall
  exact absurd hsmall (by decide)

end LedgerZond.Amount
