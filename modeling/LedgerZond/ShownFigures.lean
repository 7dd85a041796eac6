import LedgerZond.Numerals
import LedgerZond.ReviewFields
import Mathlib.Logic.Function.Basic

/-! # The figures of a review in their buffers

The nonce is converted straight into `g_nonce`, whose ten bytes hold nine
digits; an amount goes through `amount`, whose thirty bytes hold 29 characters
of a numeral that can have more. -/
namespace LedgerZond.ShownFigures
open LedgerZond.CTypes LedgerZond.Types LedgerZond.AppState LedgerZond.Platform LedgerZond.Amount
open LedgerZond.AmountText LedgerZond.Review LedgerZond.RlpDecode LedgerZond.DecodeGrammar
open LedgerZond.TxGrammar LedgerZond.ReviewFields LedgerZond.Requests LedgerZond.Numerals
open Lib.BigEndian Lib.Decimal

/-! ## The nonce -/

/-- `sizeof(g_nonce)`. -/
def gNonceSize : Nat := 10

/-- A memory behind the writes of a conversion whose `out` is at `base`. -/
def stored (w : DecimalWrites) (base : Nat) (mem : Nat → Char) : Nat → Char :=
  w.out.foldl (fun mem x => Function.update mem (base + x.1) x.2) mem

/-- The conversion `ui_display_transaction_bs_choice` makes of the nonce. -/
def nonceWrites (tx : ZondTx) : DecimalWrites :=
  uint8ArrayToDecimal tx.nonce.toList tx.nonceLen.toNat

/-- The nonce is written inside `g_nonce`, and nothing around `g_nonce` changes,
wherever it is. -/
structure NonceFits (tx : ZondTx) : Prop where
  inside : ∀ x ∈ (nonceWrites tx).out, x.1 < gNonceSize
  around : ∀ base mem address, ¬(base ≤ address ∧ address < base + gNonceSize) →
    stored (nonceWrites tx) base mem address = mem address

/-- Writes inside an array change nothing around it. -/
theorem foldl_update_around {size base address : Nat}
    (h : ¬(base ≤ address ∧ address < base + size)) (writes : List (Nat × Char))
    (hin : ∀ x ∈ writes, x.1 < size) (mem : Nat → Char) :
    writes.foldl (fun mem x => Function.update mem (base + x.1) x.2) mem address = mem address := by
  induction writes generalizing mem with
  | nil => rfl
  | cons x writes ih =>
    have hx := hin x List.mem_cons_self
    rw [List.foldl_cons, ih fun y hy => hin y (List.mem_cons_of_mem _ hy)]
    exact Function.update_of_ne (by omega) _ _

/-- The last write of a conversion is the NUL behind the digits. -/
theorem out_lt_iff {bytes : List UInt8} {len size : Nat} :
    (∀ x ∈ (uint8ArrayToDecimal bytes len).out, x.1 < size) ↔
      (Nat.toDigits 10 (value (bytes.take len))).length < size := by
  rw [uint8ArrayToDecimal_out]
  constructor
  · intro h
    exact h (_, '\x00') (List.mem_append_right _ (List.mem_singleton_self _))
  · intro h x hx
    rcases List.mem_append.mp hx with hx | hx
    · obtain ⟨⟨c, i⟩, hmem, rfl⟩ := List.mem_map.mp hx
      have hi := (List.mem_zipIdx hmem).2.1
      simp only [Nat.zero_add] at hi
      exact hi.trans h
    · rw [List.mem_singleton.mp hx]
      exact h

/-- A nonce of at most nine digits fits. -/
theorem nonceFits_iff_value (tx : ZondTx) :
    NonceFits tx ↔ value (tx.nonce.toList.take tx.nonceLen.toNat) < 10 ^ 9 := by
  have hdigits := Nat.length_toDigits_le_iff (b := 10) (k := 9)
    (n := value (tx.nonce.toList.take tx.nonceLen.toNat)) (by decide) (by decide)
  rw [← hdigits, Nat.le_iff_lt_add_one]
  constructor
  · intro h
    exact out_lt_iff.mp h.inside
  · intro h
    have hin : ∀ x ∈ (nonceWrites tx).out, x.1 < gNonceSize := out_lt_iff.mpr h
    exact ⟨hin, fun base mem address hout => foldl_update_around hout _ hin mem⟩

/-- **The nonce of an accepted transaction** fits its buffer exactly where it is
less than `10 ^ 9`. -/
theorem nonceFits_iff (t : Target) {b : List UInt8} (hb : b.length ≤ intMax) {prior tx : ZondTx}
    (h : decodeLedgerTx t b prior = .ok (0, tx)) :
    ∃ lst its nonce, IsTx t.wrap b lst its ∧ its[1]? = some nonce ∧
      (NonceFits tx ↔ value nonce.payload < 10 ^ 9) := by
  obtain ⟨lst, its, htx, -, hholds⟩ := decodeLedgerTx_accepted hb h
  obtain ⟨_, nonce, _, _, _, _, _, _, _, _, _, rfl, -, hnonce, -⟩ := hholds
  refine ⟨lst, _, nonce, htx, rfl, ?_⟩
  rw [nonceFits_iff_value, hnonce.2]

theorem testCreation_nonceFits : ∃ tx, decodeLedgerTx .device testCreation .zero = .ok (0, tx) ∧
    ∃ lst its nonce, IsTx Target.device.wrap testCreation lst its ∧ its[1]? = some nonce ∧
      (NonceFits tx ↔ value nonce.payload < 10 ^ 9) := by
  obtain ⟨tx, hdec, -⟩ := testCreation_decodes
  exact ⟨tx, hdec, nonceFits_iff .device (by decide) hdec⟩

/-- A contract creation with the nonce `10 ^ 9`. -/
def billionthNonce : List UInt8 :=
  [0x02, 0xd2, 0x80, 0x84, 0x3b, 0x9a, 0xca, 0, 0x80, 0x80, 0x80, 0x80, 0x80, 0x80, 0x80, 0x83, 1,
    0, 0, 0x80]

/-- Its ten digits leave no place for the NUL. -/
theorem billionthNonce_not_fits :
    ∃ tx, decodeLedgerTx .device billionthNonce .zero = .ok (0, tx) ∧ ¬NonceFits tx := by
  obtain ⟨tx, hdec, hvalue⟩ := accepted_of_map .device billionthNonce .zero
    (fun tx => value (tx.nonce.toList.take tx.nonceLen.toNat)) (10 ^ 9) (by decide)
  refine ⟨tx, hdec, ?_⟩
  rw [nonceFits_iff_value, hvalue]
  exact lt_irrefl _

/-! ## The amount -/

/-- `text` is the Amount entry of a review of `tx`. -/
def ShownAmount (tx : ZondTx) (text : List Char) : Prop :=
  ∃ sdk s pairs, Submits sdk s pairs ∧ s.ctx.txInfo.txData = tx ∧ ("Amount", text) ∈ pairs

/-- The numeral of the amount has a place for each of its characters in `amount`. -/
def FigureFits (tx : ZondTx) : Prop := tx.dataLen = 0 → (fixedPoint 18 (amountOf tx)).length < 30

/-- Each of two transactions is shown with the amount it transfers, and with
different amounts they are shown differently. -/
structure AmountsExact (tx tx' : ZondTx) : Prop where
  reads : ∀ text, ShownAmount tx text → qrlFigure text = some ((amountOf tx : ℚ) / 10 ^ 18)
  reads' : ∀ text, ShownAmount tx' text → qrlFigure text = some ((amountOf tx' : ℚ) / 10 ^ 18)
  distinct : amountOf tx ≠ amountOf tx' → ∀ text, ShownAmount tx text → ¬ShownAmount tx' text

/-- A review has an Amount entry where there is no data. -/
theorem shownAmount_iff {tx : ZondTx} {text : List Char} :
    ShownAmount tx text ↔ tx.dataLen = 0 ∧ text = qrlAmount tx.value.toList tx.valueLen := by
  constructor
  · intro h
    obtain ⟨sdk, s, pairs, hsub, rfl, hmem⟩ := h
    obtain ⟨mHash, fromText, toText, -, rfl⟩ := hsub.isReview
    rw [← mem_valuesOf, valuesOf_amount] at hmem
    split at hmem
    · cases hmem
    · rename_i hdata
      exact ⟨not_not.mp fun hne => hdata (uint16_pos_iff.mpr hne), List.mem_singleton.mp hmem⟩
  · intro h
    obtain ⟨hdata, htext⟩ := h
    obtain ⟨pairs, hsub⟩ := showing_submits testSdk tx
    refine ⟨testSdk, showing tx, pairs, hsub, rfl, ?_⟩
    obtain ⟨mHash, fromText, toText, -, rfl⟩ := hsub.isReview
    have hnone : (showing tx).ctx.txInfo.txData.dataLen = 0 := hdata
    rw [← mem_valuesOf, valuesOf_amount, htext, if_neg (fun hpos => uint16_pos_iff.mp hpos hnone)]
    exact List.mem_singleton_self _

/-- A figure that does not fit is cut, and then denotes another amount. -/
theorem qrlFigure_exact_iff {amount : List UInt8} {len : UInt8}
    (hv : value (amount.take len.toNat) < 10 ^ 40) :
    qrlFigure (qrlAmount amount len) = some ((value (amount.take len.toNat) : ℚ) / 10 ^ 18) ↔
      (fixedPoint 18 (value (amount.take len.toNat))).length < 30 := by
  refine ⟨?_, fun hfit => qrlFigure_qrlAmount ⟨hv, hfit⟩⟩
  intro hread
  by_contra hlong
  have hint : (Nat.toDigits 10 (value (amount.take len.toNat) / 10 ^ 18)).length ≤ 29 := by
    rw [Nat.length_toDigits_le_iff (by decide) (by decide)]
    calc value (amount.take len.toNat) / 10 ^ 18 < 10 ^ 22 := by
          rw [Nat.div_lt_iff_lt_mul (by decide), ← Nat.pow_add]
          exact hv
      _ ≤ 10 ^ 29 := Nat.pow_le_pow_right (by decide) (by decide)
  have hcut := read?_cut_ne hint (show 29 < (fixedPoint 18 _).length by omega)
  have hlen : ((fixedPoint 18 (value (amount.take len.toNat))).take 29).length = 29 :=
    List.length_take_of_le (by omega)
  have htext : qrlAmount amount len =
      (fixedPoint 18 (value (amount.take len.toNat))).take 29 ++ " QRL".toList := by
    rw [qrlAmount, convertAmountToEth_eq hv, snprintf, snprintf]
    exact List.take_of_length_le (by rw [List.length_append, hlen]; decide)
  have hfront : (qrlAmount amount len).length - 4 =
      ((fixedPoint 18 (value (amount.take len.toNat))).take 29).length := by
    rw [htext, List.length_append]
    rfl
  rw [qrlFigure, hfront, htext, List.drop_left, if_pos rfl, List.take_left] at hread
  exact hcut hread

/-- **The amounts of two reviews are exact** exactly where their numerals fit. -/
theorem amountsExact_iff {tx tx' : ZondTx} (hv : amountOf tx < 10 ^ 40)
    (hv' : amountOf tx' < 10 ^ 40) : AmountsExact tx tx' ↔ FigureFits tx ∧ FigureFits tx' := by
  have hreads : ∀ {tx : ZondTx}, amountOf tx < 10 ^ 40 →
      ((∀ text, ShownAmount tx text → qrlFigure text = some ((amountOf tx : ℚ) / 10 ^ 18)) ↔
        FigureFits tx) := by
    intro tx hv
    constructor
    · intro h hdata
      exact (qrlFigure_exact_iff hv).mp (h _ (shownAmount_iff.mpr ⟨hdata, rfl⟩))
    · intro hfits text hshown
      obtain ⟨hdata, htext⟩ := shownAmount_iff.mp hshown
      rw [htext]
      exact (qrlFigure_exact_iff hv).mpr (hfits hdata)
  constructor
  · intro h
    exact ⟨(hreads hv).mp h.reads, (hreads hv').mp h.reads'⟩
  · intro hfits
    have hread := (hreads hv).mpr hfits.1
    have hread' := (hreads hv').mpr hfits.2
    refine ⟨hread, hread', ?_⟩
    intro hne text hshown hshown'
    have hsame := (hread text hshown).symm.trans (hread' text hshown')
    rw [Option.some.injEq, div_left_inj' (pow_ne_zero 18 (by norm_num))] at hsame
    exact hne (by exact_mod_cast hsame)

/-- A contract creation that sends `10 ^ 16` parts of a QRL, and `last` more. -/
def shortAmount (last : UInt8) : List UInt8 :=
  [0x02, 0xd5, 0x80, 0x80, 0x80, 0x80, 0x80, 0x80, 0x87, 0x23, 0x86, 0xf2, 0x6f, 0xc1, 0, last,
    0x80, 0x80, 0x83, 1, 0, 0, 0x80]

/-- Two such amounts fit, and are told apart. -/
theorem shortAmount_amountsExact :
    ∃ tx tx', decodeLedgerTx .device (shortAmount 1) .zero = .ok (0, tx) ∧
      decodeLedgerTx .device (shortAmount 2) .zero = .ok (0, tx') ∧ amountOf tx ≠ amountOf tx' ∧
      (FigureFits tx ∧ FigureFits tx') ∧
      (AmountsExact tx tx' ↔ FigureFits tx ∧ FigureFits tx') := by
  obtain ⟨tx, hdec, hvalue⟩ := accepted_of_map .device (shortAmount 1) .zero amountOf (10 ^ 16 + 1)
    (by decide)
  obtain ⟨tx', hdec', hvalue'⟩ := accepted_of_map .device (shortAmount 2) .zero amountOf
    (10 ^ 16 + 2) (by decide)
  have hv : amountOf tx < 10 ^ 40 := by
    rw [hvalue]
    decide
  have hv' : amountOf tx' < 10 ^ 40 := by
    rw [hvalue']
    decide
  refine ⟨tx, tx', hdec, hdec', ?_, ⟨?_, ?_⟩, amountsExact_iff hv hv'⟩
  · rw [hvalue, hvalue']
    decide
  · rw [FigureFits, hvalue]
    exact fun _ => by decide
  · rw [FigureFits, hvalue']
    exact fun _ => by decide

/-- A contract creation that sends 12345678901 QRL and `last` of `10 ^ 18` parts of one. -/
def longAmount (last : UInt8) : List UInt8 :=
  [0x02, 0xda, 0x80, 0x80, 0x80, 0x80, 0x80, 0x80, 0x8c, 0x27, 0xe4, 0x1b, 0x32, 0x43, 0x7d, 0x6f,
    0x70, 0x97, 0xb4, 0, last, 0x80, 0x80, 0x83, 1, 0, 0, 0x80]

/-- Two such amounts are shown alike, and neither is the one that is sent. -/
theorem longAmount_not_exact :
    ∃ tx tx', decodeLedgerTx .device (longAmount 1) .zero = .ok (0, tx) ∧
      decodeLedgerTx .device (longAmount 2) .zero = .ok (0, tx') ∧
      amountOf tx < 10 ^ 40 ∧ amountOf tx' < 10 ^ 40 ∧ amountOf tx ≠ amountOf tx' ∧
      (∃ text, ShownAmount tx text ∧ ShownAmount tx' text) ∧ ¬AmountsExact tx tx' := by
  obtain ⟨tx, hdec, hfields⟩ := accepted_of_map .device (longAmount 1) .zero
    (fun tx => (tx.dataLen, amountOf tx)) (0, 12345678901000000000000000001) (by decide)
  obtain ⟨tx', hdec', hfields'⟩ := accepted_of_map .device (longAmount 2) .zero
    (fun tx => (tx.dataLen, amountOf tx)) (0, 12345678901000000000000000002) (by decide)
  simp only [Prod.mk.injEq] at hfields hfields'
  have hv : amountOf tx < 10 ^ 40 := by
    rw [hfields.2]
    decide
  have hv' : amountOf tx' < 10 ^ 40 := by
    rw [hfields'.2]
    decide
  have hne : amountOf tx ≠ amountOf tx' := by
    rw [hfields.2, hfields'.2]
    decide
  -- the two numerals differ in their thirtieth character only
  have hsame : qrlAmount tx.value.toList tx.valueLen = qrlAmount tx'.value.toList tx'.valueLen := by
    rw [qrlAmount, qrlAmount, convertAmountToEth_eq hv, convertAmountToEth_eq hv']
    show snprintf 35 (snprintf 30 (fixedPoint 18 (amountOf tx)) ++ _) =
      snprintf 35 (snprintf 30 (fixedPoint 18 (amountOf tx')) ++ _)
    rw [hfields.2, hfields'.2]
    decide
  have hshown := shownAmount_iff.mpr ⟨hfields.1, rfl⟩
  have hshown' : ShownAmount tx' (qrlAmount tx.value.toList tx.valueLen) :=
    shownAmount_iff.mpr ⟨hfields'.1, hsame⟩
  refine ⟨tx, tx', hdec, hdec', hv, hv', hne, ⟨_, hshown, hshown'⟩, ?_⟩
  intro hexact
  exact hexact.distinct hne _ hshown hshown'

end LedgerZond.ShownFigures
