import LedgerZond.AddressText
import LedgerZond.AmountText
import LedgerZond.Displays

/-! # What the review of a transaction tells its user

The pairs submitted for approval are read by their tags, whichever of the
eight layouts they are in, and compared with the decoded transaction: what it
transfers, to whom, and what it lets the network charge. -/
namespace LedgerZond.ReviewFields
open LedgerZond.CTypes LedgerZond.Types LedgerZond.Platform LedgerZond.AppState
open LedgerZond.Address LedgerZond.Review LedgerZond.RlpDecode LedgerZond.DecodeGrammar
open LedgerZond.Displays LedgerZond.AddressText LedgerZond.AmountText LedgerZond.App
open LedgerZond.Requests
open Lib.BigEndian (value)

/-! ## Pairs by tag -/

/-- The values the pairs of a review give a tag, in order. -/
def valuesOf (tag : String) (pairs : List Pair) : List (List Char) :=
  (pairs.filter fun pair => pair.1 == tag).map Prod.snd

variable (sdk : Sdk) (nvm : InternalStorage) (tx : ZondTx) (mHash : Bytes 32)
  (fromText toText : List Char)

theorem txHashItem_ne : txHashItem sdk ≠ "Amount" ∧ txHashItem sdk ≠ "To" ∧
    txHashItem sdk ≠ "Max fees" := by
  unfold txHashItem
  split
  · decide
  · decide

/-- The layouts for data have no amount, the others have one. -/
theorem valuesOf_amount : valuesOf "Amount" (reviewPairs sdk nvm tx mHash fromText toText) =
    if tx.dataLen > 0 then [] else [qrlAmount tx.value.toList tx.valueLen] := by
  have hhash : (txHashItem sdk == "Amount") = false := beq_eq_false_iff_ne.mpr (txHashItem_ne sdk).1
  unfold reviewPairs
  split_ifs <;> simp [valuesOf, hhash]

/-- The layouts for data name a contract creation, the others do not. -/
theorem valuesOf_to : valuesOf "To" (reviewPairs sdk nvm tx mHash fromText toText) =
    [if tx.dataLen > 0 ∧ tx.toLen = 0 then "Contract".toList else toText] := by
  have hhash : (txHashItem sdk == "To") = false := beq_eq_false_iff_ne.mpr (txHashItem_ne sdk).2.1
  unfold reviewPairs
  by_cases hto : tx.toLen = 0
  · simp only [hto, if_true, and_true]
    split_ifs <;> simp [valuesOf, hhash]
  · simp only [hto, if_false, and_false]
    split_ifs <;> simp [valuesOf, hhash]

/-- Every layout shows the fee cap as the fees. -/
theorem valuesOf_maxFees : valuesOf "Max fees" (reviewPairs sdk nvm tx mHash fromText toText) =
    [qrlAmount tx.gasFeeCap.toList tx.gasFeeCapLen] := by
  have hhash : (txHashItem sdk == "Max fees") = false :=
    beq_eq_false_iff_ne.mpr (txHashItem_ne sdk).2.2
  unfold reviewPairs
  split_ifs <;> simp [valuesOf, hhash]

/-! ## What is submitted -/

/-- `pairs` is what `ui_display_transaction_bs_choice`, called in state `s`,
submits for approval. -/
def Submits (sdk : Sdk) (s : State) (pairs : List Pair) : Prop :=
  ∃ o blind, Effect.draw (.transaction pairs blind) ∈ (uiDisplayTransactionBsChoice sdk o blind s).2

variable {sdk nvm tx mHash fromText toText} {s s' : State} {pairs pairs' : List Pair}

/-- What is submitted is the review of the decoded transaction. -/
theorem Submits.isReview (h : Submits sdk s pairs) : ∃ mHash fromText toText,
    formatChecksummedAddress sdk true s.ctx.txInfo.txData.toAddress toAddressSize = some toText ∧
      pairs = reviewPairs sdk (keyed sdk s).nvm s.ctx.txInfo.txData mHash fromText toText := by
  obtain ⟨o, blind, hdraw⟩ := h
  have hshown := uiDisplayTransactionBsChoice_displayed sdk o blind s
  generalize uiDisplayTransactionBsChoice sdk o blind s = r at hdraw hshown
  cases hshown with
  | badState hno => simp at hdraw
  | failed pk address _ _ => simp at hdraw
  | shown pairs' _ _ hreview =>
    simp only [List.mem_cons, reduceCtorEq, Effect.draw.injEq, Screen.transaction.injEq,
      List.not_mem_nil, or_false, false_or] at hdraw
    obtain ⟨rfl, -⟩ := hdraw
    obtain ⟨fromText, toText, -, hto, hpairs⟩ := hreview
    exact ⟨_, fromText, toText, hto, hpairs⟩

/-- A decoded transaction is submitted when the calls made for it succeed. -/
theorem submits_of_isParsed (sdk : Sdk) (hp : IsParsed s.ctx) : ∃ pairs, Submits sdk s pairs := by
  have hshown := uiDisplayTransactionBsChoice_displayed sdk (.good (.zero _)) true s
  generalize hr : uiDisplayTransactionBsChoice sdk (.good (.zero _)) true s = r at hshown
  cases hshown with
  | badState hno => exact absurd hp hno
  | failed pk address _ hno => exact absurd ⟨rfl, rfl, rfl, rfl, rfl⟩ hno
  | shown pairs _ _ _ =>
    refine ⟨pairs, .good (.zero _), true, ?_⟩
    rw [hr]
    simp

/-- A state in which `tx` is decoded and to be shown. -/
def showing (tx : ZondTx) : State :=
  { startUp .zero with ctx := { GlobalCtx.zero with
    reqType := .confirmTransaction
    state := .parsed
    txInfo := { GlobalCtx.zero.txInfo with txData := tx } } }

theorem showing_submits (sdk : Sdk) (tx : ZondTx) : ∃ pairs, Submits sdk (showing tx) pairs :=
  submits_of_isParsed sdk ⟨rfl, rfl⟩

/-! ## The amount -/

/-- The number in the value field. -/
def amountOf (tx : ZondTx) : Nat := value (tx.value.toList.take tx.valueLen.toNat)

/-- Unless nothing is transferred, an Amount entry shows the value, exactly
where its digits fit. -/
def ShowsAmount (tx : ZondTx) (pairs : List Pair) : Prop :=
  amountOf tx ≠ 0 → ∃ text, ("Amount", text) ∈ pairs ∧
    text = qrlAmount tx.value.toList tx.valueLen ∧
    (DigitsFit (amountOf tx) → qrlFigure text = some ((amountOf tx : ℚ) / 10 ^ 18))

theorem mem_valuesOf {tag : String} {text : List Char} :
    text ∈ valuesOf tag pairs ↔ (tag, text) ∈ pairs := by
  simp only [valuesOf, List.mem_map, List.mem_filter, beq_iff_eq]
  constructor
  · intro hpair
    obtain ⟨pair, ⟨hmem, htag⟩, htext⟩ := hpair
    rw [← htag, ← htext]
    exact hmem
  · intro hmem
    exact ⟨(tag, text), ⟨hmem, rfl⟩, rfl⟩

theorem uint16_pos_iff {n : UInt16} : n > 0 ↔ n ≠ 0 := by
  rw [gt_iff_lt, UInt16.lt_iff_toNat_lt, ne_eq, ← UInt16.toNat_inj]
  exact Nat.pos_iff_ne_zero

/-- Data hides the amount. -/
theorem not_amount_of_data (h : Submits sdk s pairs) (hdata : s.ctx.txInfo.txData.dataLen ≠ 0)
    (text : List Char) : ("Amount", text) ∉ pairs := by
  obtain ⟨mHash, fromText, toText, -, rfl⟩ := h.isReview
  rw [← mem_valuesOf, valuesOf_amount, if_pos (uint16_pos_iff.mpr hdata)]
  exact List.not_mem_nil

/-- **The amount is shown** exactly where it is zero or there is no data. -/
theorem submits_showsAmount_iff (h : Submits sdk s pairs) (htx : s.ctx.txInfo.txData = tx) :
    ShowsAmount tx pairs ↔ amountOf tx = 0 ∨ tx.dataLen = 0 := by
  subst htx
  constructor
  · intro hshows
    by_contra hno
    rw [not_or] at hno
    obtain ⟨text, hmem, -⟩ := hshows hno.1
    exact not_amount_of_data h hno.2 text hmem
  · intro hok hvalue
    have hdata := hok.resolve_left hvalue
    obtain ⟨mHash, fromText, toText, -, rfl⟩ := h.isReview
    refine ⟨_, ?_, rfl, qrlFigure_qrlAmount⟩
    rw [← mem_valuesOf, valuesOf_amount, if_neg (fun hpos => uint16_pos_iff.mp hpos hdata)]
    exact List.mem_singleton_self _

/-- `VALID_CONTRACT_CREATION` of the unit tests: fee cap 10 gwei, gas 500000,
value 0.01 QRL, no data. -/
def testCreation : List UInt8 :=
  [0x02, 0xe4, 0x83, 0x30, 0x18, 0x24, 0x01, 0x84, 0x3b, 0x9a, 0xca, 0x00, 0x85, 0x02, 0x54, 0x0b,
    0xe4, 0x00, 0x83, 0x07, 0xa1, 0x20, 0x80, 0x87, 0x23, 0x86, 0xf2, 0x6f, 0xc1, 0x00, 0x00, 0x80,
    0xc0, 0x83, 0x01, 0x00, 0x00, 0x80]

theorem testCreation_decodes : ∃ tx, decodeLedgerTx .device testCreation .zero = .ok (0, tx) ∧
    tx.toLen = 0 ∧ tx.dataLen = 0 ∧ value (tx.gas.toList.take tx.gasLen.toNat) = 500000 ∧
    value (tx.gasFeeCap.toList.take tx.gasFeeCapLen.toNat) = 10 ^ 10 := by
  obtain ⟨tx, hdec, hfields⟩ := accepted_of_map .device testCreation .zero
    (fun tx => (tx.toLen, tx.dataLen, value (tx.gas.toList.take tx.gasLen.toNat),
      value (tx.gasFeeCap.toList.take tx.gasFeeCapLen.toNat))) (0, 0, 500000, 10 ^ 10) (by decide)
  simp only [Prod.mk.injEq] at hfields
  exact ⟨tx, hdec, hfields⟩

theorem testCreation_showsAmount :
    ∃ tx pairs, decodeLedgerTx .device testCreation .zero = .ok (0, tx) ∧
      Submits testSdk (showing tx) pairs ∧
      (ShowsAmount tx pairs ↔ amountOf tx = 0 ∨ tx.dataLen = 0) := by
  obtain ⟨tx, hdec, -⟩ := testCreation_decodes
  obtain ⟨pairs, hsub⟩ := showing_submits testSdk tx
  exact ⟨tx, pairs, hdec, hsub, submits_showsAmount_iff hsub rfl⟩

/-- A contract creation with the value 1 and one byte of data. -/
def payingCreation : List UInt8 :=
  [0x02, 0xce, 0x80, 0x80, 0x80, 0x80, 0x80, 0x80, 0x01, 0x05, 0x80, 0x83, 1, 0, 0, 0x80]

/-- Its review hides what it pays. -/
theorem payingCreation_hidesAmount :
    ∃ tx pairs, decodeLedgerTx .device payingCreation .zero = .ok (0, tx) ∧
      Submits testSdk (showing tx) pairs ∧ ¬ShowsAmount tx pairs := by
  obtain ⟨tx, hdec, hfields⟩ := accepted_of_map .device payingCreation .zero
    (fun tx => (tx.dataLen, amountOf tx)) (1, 1) (by decide)
  simp only [Prod.mk.injEq] at hfields
  obtain ⟨pairs, hsub⟩ := showing_submits testSdk tx
  refine ⟨tx, pairs, hdec, hsub, ?_⟩
  intro hshows
  obtain ⟨text, hmem, -⟩ := hshows (by rw [hfields.2]; decide)
  have hdata : (showing tx).ctx.txInfo.txData.dataLen ≠ 0 := by
    show tx.dataLen ≠ 0
    rw [hfields.1]
    decide
  exact not_amount_of_data hsub hdata text hmem

/-! ## The recipient -/

/-- The To entry is `Contract` exactly for a contract creation, and else the
checksummed address of the recipient. -/
def NamesRecipient (sdk : Sdk) (tx : ZondTx) (pairs : List Pair) : Prop :=
  ∃ text, valuesOf "To" pairs = [text] ∧ (text = "Contract".toList ↔ tx.toLen = 0) ∧
    (tx.toLen ≠ 0 →
      formatChecksummedAddress sdk true tx.toAddress toAddressSize = some text)

/-- The text of an address is not `Contract`. -/
theorem ne_contract {hashed : Bool} {address : Bytes addressSize} {outLen : Nat} {text : List Char}
    (h : formatChecksummedAddress sdk hashed address outLen = some text) :
    text ≠ "Contract".toList := by
  obtain ⟨body, rfl, -⟩ := formatChecksummedAddress_reads h
  intro heq
  exact absurd (List.cons.inj heq).1 (by decide)

/-- The one To entry of a review. -/
theorem Submits.recipient (h : Submits sdk s pairs) : ∃ toText,
    formatChecksummedAddress sdk true s.ctx.txInfo.txData.toAddress toAddressSize = some toText ∧
      valuesOf "To" pairs = [if s.ctx.txInfo.txData.dataLen ≠ 0 ∧ s.ctx.txInfo.txData.toLen = 0
        then "Contract".toList else toText] := by
  obtain ⟨mHash, fromText, toText, hto, rfl⟩ := h.isReview
  refine ⟨toText, hto, ?_⟩
  rw [valuesOf_to]
  simp only [uint16_pos_iff]

/-- The To entry of a review names the recipient exactly where there is one or
there is data. -/
theorem Submits.namesRecipient_iff (h : Submits sdk s pairs) :
    NamesRecipient sdk s.ctx.txInfo.txData pairs ↔
      s.ctx.txInfo.txData.toLen ≠ 0 ∨ s.ctx.txInfo.txData.dataLen ≠ 0 := by
  obtain ⟨toText, hto, hvalues⟩ := h.recipient
  have hne := ne_contract hto
  constructor
  · intro hnames
    obtain ⟨text, htext, hiff, -⟩ := hnames
    by_contra hno
    rw [not_or, not_not, not_not] at hno
    rw [hvalues, if_neg (fun hdata => hdata.1 hno.2), List.cons.injEq] at htext
    exact hne (htext.1.trans (hiff.mpr hno.1))
  · intro hok
    refine ⟨_, hvalues, ?_⟩
    by_cases hcreates : s.ctx.txInfo.txData.toLen = 0
    · rw [if_pos ⟨hok.resolve_left (fun hno => hno hcreates), hcreates⟩]
      exact ⟨iff_of_true rfl hcreates, fun hno => absurd hcreates hno⟩
    · rw [if_neg (fun hdata => hcreates hdata.2)]
      exact ⟨iff_of_false hne hcreates, fun _ => hto⟩

/-- A creation and a transfer show one recipient only where the creation has
no data and the transfer goes to the recipient that is stored for it. -/
theorem Submits.sameRecipient_iff (h : Submits sdk s pairs) (h' : Submits sdk s' pairs')
    (hcreates : s.ctx.txInfo.txData.toLen = 0) (htransfers : s'.ctx.txInfo.txData.toLen ≠ 0) :
    valuesOf "To" pairs = valuesOf "To" pairs' ↔ s.ctx.txInfo.txData.dataLen = 0 ∧
      s'.ctx.txInfo.txData.toAddress = s.ctx.txInfo.txData.toAddress := by
  obtain ⟨toText, hto, hvalues⟩ := h.recipient
  obtain ⟨toText', hto', hvalues'⟩ := h'.recipient
  rw [if_neg (fun hdata => htransfers hdata.2)] at hvalues'
  rw [hvalues, hvalues']
  by_cases hdata : s.ctx.txInfo.txData.dataLen = 0
  · rw [if_neg (fun hno => hno.1 hdata), List.cons.injEq]
    constructor
    · intro hsame
      obtain ⟨rfl, -⟩ := hsame
      exact ⟨hdata, formatChecksummedAddress_injective hto' hto⟩
    · intro hsame
      obtain ⟨-, haddress⟩ := hsame
      rw [haddress, hto, Option.some.injEq] at hto'
      exact ⟨hto', rfl⟩
  · rw [if_pos ⟨hdata, hcreates⟩, List.cons.injEq]
    exact iff_of_false (fun heq => ne_contract hto' heq.1.symm) (fun hno => hdata hno.1)

/-- **The recipient is named** exactly where there is one or there is data; and
a contract creation shows the recipient of a transfer exactly where it has no
data and the transfer goes to the all-zero address. -/
theorem submits_namesRecipient_iff (t : Target) {b : List UInt8}
    (hb : b.length ≤ maxTransactionLen) {prior : ZondTx}
    (hdec : decodeLedgerTx t b prior = .ok (0, tx)) (h : Submits sdk s pairs)
    (htx : s.ctx.txInfo.txData = tx) :
    (NamesRecipient sdk tx pairs ↔ tx.toLen ≠ 0 ∨ tx.dataLen ≠ 0) ∧
      (tx.toLen = 0 → ∀ s' pairs', Submits sdk s' pairs' → s'.ctx.txInfo.txData.toLen ≠ 0 →
        (valuesOf "To" pairs = valuesOf "To" pairs' ↔
          tx.dataLen = 0 ∧ s'.ctx.txInfo.txData.toAddress = Bytes.zero _)) := by
  obtain ⟨lst, its, hgrammar, hst, -⟩ :=
    decodeLedgerTx_accepted (hb.trans maxTransactionLen_le) hdec
  subst htx
  refine ⟨h.namesRecipient_iff, ?_⟩
  intro hcreates s' pairs' h' htransfers
  rw [h.sameRecipient_iff h' hcreates htransfers,
    toAddress_of_storeAll ((accepts_iff_rules its).mpr hgrammar.rules) hst hcreates]

theorem testCreation_namesRecipient :
    ∃ tx pairs, decodeLedgerTx .device testCreation .zero = .ok (0, tx) ∧
      Submits testSdk (showing tx) pairs ∧
      (NamesRecipient testSdk tx pairs ↔ tx.toLen ≠ 0 ∨ tx.dataLen ≠ 0) := by
  obtain ⟨tx, hdec, -⟩ := testCreation_decodes
  obtain ⟨pairs, hsub⟩ := showing_submits testSdk tx
  exact ⟨tx, pairs, hdec, hsub,
    (submits_namesRecipient_iff .device (by decide) hdec hsub rfl).1⟩

/-- The unit tests' contract creation is shown as a transfer. -/
theorem testCreation_hidesCreation :
    ∃ tx pairs, decodeLedgerTx .device testCreation .zero = .ok (0, tx) ∧
      Submits testSdk (showing tx) pairs ∧ ¬NamesRecipient testSdk tx pairs := by
  obtain ⟨tx, hdec, hto, hdata, -⟩ := testCreation_decodes
  obtain ⟨pairs, hsub⟩ := showing_submits testSdk tx
  refine ⟨tx, pairs, hdec, hsub, ?_⟩
  intro hnames
  exact (hsub.namesRecipient_iff.mp hnames).elim (fun h => h hto) (fun h => h hdata)

/-! ## The fees -/

def gasOf (tx : ZondTx) : Nat := value (tx.gas.toList.take tx.gasLen.toNat)

def feeCapOf (tx : ZondTx) : Nat := value (tx.gasFeeCap.toList.take tx.gasFeeCapLen.toNat)

/-- The figure of the Max fees entry is at least what the transaction lets the
network charge. -/
def BoundsFees (tx : ZondTx) (pairs : List Pair) : Prop :=
  ∃ text figure, valuesOf "Max fees" pairs = [text] ∧ qrlFigure text = some figure ∧
    (gasOf tx * feeCapOf tx : ℚ) / 10 ^ 18 ≤ figure

/-- The figure of the Max fees entry is the fee cap of one unit of gas. -/
theorem Submits.maxFees (h : Submits sdk s pairs)
    (hfit : DigitsFit (feeCapOf s.ctx.txInfo.txData)) :
    ∃ text, valuesOf "Max fees" pairs = [text] ∧
      qrlFigure text = some ((feeCapOf s.ctx.txInfo.txData : ℚ) / 10 ^ 18) := by
  obtain ⟨mHash, fromText, toText, -, rfl⟩ := h.isReview
  exact ⟨_, valuesOf_maxFees .., qrlFigure_qrlAmount hfit⟩

/-- **The fees shown bound the fees** exactly where at most one unit of gas is
bought or gas is free. -/
theorem submits_boundsFees_iff (h : Submits sdk s pairs) (htx : s.ctx.txInfo.txData = tx)
    (hfit : DigitsFit (feeCapOf tx)) :
    BoundsFees tx pairs ↔ gasOf tx ≤ 1 ∨ feeCapOf tx = 0 := by
  subst htx
  obtain ⟨text, hvalues, hfigure⟩ := h.maxFees hfit
  have hbound : BoundsFees s.ctx.txInfo.txData pairs ↔
      gasOf s.ctx.txInfo.txData * feeCapOf s.ctx.txInfo.txData ≤
        feeCapOf s.ctx.txInfo.txData := by
    have hpos : (0 : ℚ) < 10 ^ 18 := by norm_num
    constructor
    · intro hbounds
      obtain ⟨text', figure, hvalues', hfigure', hle⟩ := hbounds
      rw [hvalues, List.cons.injEq] at hvalues'
      rw [← hvalues'.1, hfigure, Option.some.injEq] at hfigure'
      rw [← hfigure', div_le_div_iff_of_pos_right hpos] at hle
      exact_mod_cast hle
    · intro hle
      refine ⟨text, _, hvalues, hfigure, ?_⟩
      rw [div_le_div_iff_of_pos_right hpos]
      exact_mod_cast hle
  rw [hbound]
  constructor
  · intro hle
    rcases Nat.eq_zero_or_pos (feeCapOf s.ctx.txInfo.txData) with hzero | hpos
    · exact .inr hzero
    · exact .inl (Nat.le_of_mul_le_mul_right (by rwa [Nat.one_mul]) hpos)
  · rintro (hgas | hfree)
    · exact (Nat.mul_le_mul_right _ hgas).trans_eq (Nat.one_mul _)
    · rw [hfree, Nat.mul_zero]

theorem testCreation_boundsFees :
    ∃ tx pairs, decodeLedgerTx .device testCreation .zero = .ok (0, tx) ∧
      Submits testSdk (showing tx) pairs ∧
      (BoundsFees tx pairs ↔ gasOf tx ≤ 1 ∨ feeCapOf tx = 0) := by
  obtain ⟨tx, hdec, -, -, -, hfee⟩ := testCreation_decodes
  obtain ⟨pairs, hsub⟩ := showing_submits testSdk tx
  refine ⟨tx, pairs, hdec, hsub, submits_boundsFees_iff hsub rfl ?_⟩
  rw [feeCapOf, hfee]
  decide

/-- The unit tests' contract creation may be charged 500000 times the fees shown. -/
theorem testCreation_exceedsFees :
    ∃ tx pairs, decodeLedgerTx .device testCreation .zero = .ok (0, tx) ∧
      Submits testSdk (showing tx) pairs ∧ DigitsFit (feeCapOf tx) ∧ ¬BoundsFees tx pairs := by
  obtain ⟨tx, hdec, -, -, hgas, hfee⟩ := testCreation_decodes
  obtain ⟨pairs, hsub⟩ := showing_submits testSdk tx
  have hfit : DigitsFit (feeCapOf tx) := by
    rw [feeCapOf, hfee]
    decide
  refine ⟨tx, pairs, hdec, hsub, hfit, ?_⟩
  intro hbounds
  obtain ⟨text, figure, hvalues, hfigure, hle⟩ := hbounds
  obtain ⟨text', hvalues', hfigure'⟩ := hsub.maxFees hfit
  rw [hvalues', List.cons.injEq] at hvalues
  rw [← hvalues.1, hfigure', Option.some.injEq] at hfigure
  have hcap : feeCapOf (showing tx).ctx.txInfo.txData = 10 ^ 10 := hfee
  rw [← hfigure, hcap, gasOf, hgas, feeCapOf, hfee] at hle
  norm_num at hle

end LedgerZond.ReviewFields
