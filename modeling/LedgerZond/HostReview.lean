import LedgerZond.ReviewFields
import LedgerZond.SignedEnvelope

/-! # What a review says of a host's parameters

A host encodes parameters, the device decodes what it encoded and shows a
review. Whichever layout the review has, its texts read as what the host put
in: nothing gets lost between the encoder, the decoder and the formatting. -/
namespace LedgerZond.HostReview
open LedgerZond.CTypes LedgerZond.Types LedgerZond.Platform LedgerZond.AppState
open LedgerZond.Address LedgerZond.Amount LedgerZond.Review LedgerZond.RlpDecode
open LedgerZond.DecodeGrammar
open LedgerZond.TxGrammar LedgerZond.Displays LedgerZond.AddressText LedgerZond.AmountText
open LedgerZond.ReviewFields LedgerZond.QrlTx LedgerZond.SignedEnvelope LedgerZond.App
open LedgerZond.Requests
open Lib.BigEndian

variable {sdk sdk' : Sdk} {nvm nvm' : InternalStorage} {ctx ctx' : GlobalCtx} {tx : ZondTx}
  {params params' : Params} {shown : List Pair} {mHash : Bytes 32} {fromText toText : List Char}

/-! ## The decoded transaction -/

/-- The transaction holds the parameters, each integer as its shortest bytes. -/
structure HoldsParams (params : Params) (tx : ZondTx) : Prop where
  nonce : HoldsField tx.nonce tx.nonceLen.toNat (minimal params.nonce)
  feeCap : HoldsField tx.gasFeeCap tx.gasFeeCapLen.toNat (minimal params.feeCap)
  toAddress : HoldsField tx.toAddress tx.toLen.toNat params.toAddress
  value : HoldsField tx.value tx.valueLen.toNat (minimal params.value)
  data : HoldsField tx.data tx.dataLen.toNat (params.data.getD [])

/-- What is decoded from the preimage of parameters holds them. -/
theorem holdsParams_of_decoded {t : Target} {prior : ZondTx} (h : params.InRange)
    (hdec : decodeLedgerTx t (encodeUnsignedPreimage params) prior = .ok (0, tx)) :
    HoldsParams params tx := by
  obtain ⟨hlen, lst, htx⟩ := encodeUnsignedPreimage_isTx t h
  obtain ⟨tx', hdec', -, c, n, tip, fee, g, r, v, d, al, ds, ex, hits, hholds⟩ :=
    decodeLedgerTx_of_isTx prior hlen htx
  cases hdec.symm.trans hdec'
  simp only [preimageItems, List.cons.injEq] at hits
  obtain ⟨rfl, rfl, rfl, rfl, rfl, rfl, rfl, rfl, rfl, rfl, -⟩ := hits
  obtain ⟨-, hnonce, -, hfee, -, hto, hvalue, hdata, -⟩ := hholds
  exact ⟨hnonce, hfee, hto, hvalue, hdata⟩

/-- There is data in the transaction where there is data in the parameters. -/
theorem HoldsParams.dataLen_pos_iff (h : HoldsParams params tx) :
    tx.dataLen > 0 ↔ params.data.getD [] ≠ [] := by
  rw [uint16_pos_iff, ne_eq, ← UInt16.toNat_inj, h.data.1, ne_eq, ← List.length_eq_zero_iff]
  rfl

theorem HoldsParams.toLen_zero_iff (h : HoldsParams params tx) :
    tx.toLen = 0 ↔ params.toAddress = [] := by
  rw [← UInt8.toNat_inj, h.toAddress.1, ← List.length_eq_zero_iff]
  rfl

/-- A recipient fills its field. -/
theorem HoldsParams.recipient (h : HoldsParams params tx) (hto : params.toAddress.length = 64) :
    tx.toAddress.toList = params.toAddress := by
  have htake := h.toAddress.2
  have hfull : tx.toAddress.toList.length ≤ 64 := le_of_eq tx.toAddress.size_eq
  rw [h.toAddress.1, hto, List.take_of_length_le hfull] at htake
  exact htake

/-! ## The texts -/

/-- The bytes the text of an address reads as. -/
def bytesOfText (text : List Char) : List UInt8 := pairs (text.drop 1)

theorem bytesOfText_checksummed {hashed : Bool} {address : Bytes addressSize} {outLen : Nat}
    {text : List Char} (h : formatChecksummedAddress sdk hashed address outLen = some text) :
    bytesOfText text = address.toList := by
  obtain ⟨body, rfl, hbody⟩ := formatChecksummedAddress_reads h
  exact hbody

theorem txHashItem_ne_nonce (sdk : Sdk) : (txHashItem sdk == "Nonce") = false := by
  unfold txHashItem
  split
  · decide
  · decide

/-- The layouts have a nonce where the setting asks for it. -/
theorem valuesOf_nonce : valuesOf "Nonce" (reviewPairs sdk nvm tx mHash fromText toText) =
    if nvm.displayNonce ≠ 0 then [nonceText tx] else [] := by
  have hhash := txHashItem_ne_nonce sdk
  unfold reviewPairs
  split_ifs <;> simp_all [valuesOf]

theorem nonceText_eq (h : HoldsParams params tx) : nonceText tx = Nat.toDigits 10 params.nonce := by
  rw [nonceText, uint8ArrayToDecimal_text, h.nonce.2, value_minimal]

theorem toDigits_injective {m n : Nat} (h : Nat.toDigits 10 m = Nat.toDigits 10 n) : m = n := by
  rw [← @Nat.ofDigitChars_ten_toDigits m, h, Nat.ofDigitChars_ten_toDigits]

theorem qrlAmount_congr {amount amount' : List UInt8} {len len' : UInt8}
    (h : value (amount.take len.toNat) = value (amount'.take len'.toNat)) :
    qrlAmount amount len = qrlAmount amount' len' := by
  rw [qrlAmount, qrlAmount, convertAmountToEth, convertAmountToEth, uint8ArrayToDecimal_text,
    uint8ArrayToDecimal_text, h]

/-- The figure of an amount field is the parameter in QRL. -/
theorem qrlFigure_held {n : Nat} {a : Bytes 32} {len : UInt8}
    (h : HoldsField a len.toNat (minimal n)) (hfit : DigitsFit n) : qrlFigure (qrlAmount a.toList len) = some ((n : ℚ) / 10 ^ 18) := by
  have hvalue : value (a.toList.take len.toNat) = n := by rw [h.2, value_minimal]
  rw [qrlFigure_qrlAmount (by rw [hvalue]; exact hfit), hvalue]

/-- The texts of a review read as the parameters, of which the nonce does not
run into another text. -/
structure Denotes (nvm : InternalStorage) (params : Params) (shown : List Pair) : Prop where
  nonceFits : params.nonce < 10 ^ 9
  recipient : params.toAddress ≠ [] →
    ∃ text, valuesOf "To" shown = [text] ∧ bytesOfText text = params.toAddress
  creation : params.toAddress = [] → params.data.getD [] ≠ [] →
    valuesOf "To" shown = ["Contract".toList]
  amount : params.data.getD [] = [] → DigitsFit params.value →
    ∃ text, valuesOf "Amount" shown = [text] ∧ qrlFigure text = some ((params.value : ℚ) / 10 ^ 18)
  maxFees : DigitsFit params.feeCap →
    ∃ text, valuesOf "Max fees" shown = [text] ∧
      qrlFigure text = some ((params.feeCap : ℚ) / 10 ^ 18)
  nonce : valuesOf "Nonce" shown =
    if nvm.displayNonce ≠ 0 then [Nat.toDigits 10 params.nonce] else []

/-- The review of a transaction that holds the parameters denotes them. -/
theorem denotes_of_isReviewOf (hto : params.toAddress.length = 64 ∨ params.toAddress = [])
    (hnonce : params.nonce < 10 ^ 9) (h : HoldsParams params ctx.txInfo.txData)
    (hrev : IsReviewOf sdk nvm ctx shown) :
    Denotes nvm params shown := by
  obtain ⟨fromText, toText, -, htext, rfl⟩ := hrev
  refine ⟨hnonce, ?_, ?_, ?_, ?_, ?_⟩
  · intro hsome
    have hlen := hto.resolve_right hsome
    have hset : ctx.txInfo.txData.toLen ≠ 0 := fun hzero => hsome (h.toLen_zero_iff.mp hzero)
    refine ⟨toText, ?_, ?_⟩
    · rw [valuesOf_to, if_neg fun hboth => hset hboth.2]
    · rw [bytesOfText_checksummed htext, h.recipient hlen]
  · intro hnone hdata
    rw [valuesOf_to, if_pos ⟨h.dataLen_pos_iff.mpr hdata, h.toLen_zero_iff.mpr hnone⟩]
  · intro hnone hfit
    refine ⟨_, ?_, qrlFigure_held h.value hfit⟩
    rw [valuesOf_amount, if_neg fun hpos => h.dataLen_pos_iff.mp hpos hnone]
  · intro hfit
    exact ⟨_, valuesOf_maxFees .., qrlFigure_held h.feeCap hfit⟩
  · rw [valuesOf_nonce, nonceText_eq h]

/-! ## Transfers that look alike -/

/-- A host's transfer as the device reviews it: without data, to a recipient,
with figures and a nonce that fit their buffers. -/
structure Reviewed (sdk : Sdk) (nvm : InternalStorage) (ctx : GlobalCtx) (params : Params)
    (shown : List Pair) : Prop where
  inRange : params.InRange
  noData : params.data.getD [] = []
  recipient : params.toAddress ≠ []
  nonceFits : params.nonce < 10 ^ 9
  valueFits : DigitsFit params.value
  feeCapFits : DigitsFit params.feeCap
  decoded : ∃ prior, decodeLedgerTx .device (encodeUnsignedPreimage params) prior =
    .ok (0, ctx.txInfo.txData)
  review : IsReviewOf sdk nvm ctx shown

theorem Reviewed.denotes (h : Reviewed sdk nvm ctx params shown) : Denotes nvm params shown := by
  obtain ⟨prior, hdec⟩ := h.decoded
  exact denotes_of_isReviewOf h.inRange.toAddress h.nonceFits
    (holdsParams_of_decoded h.inRange hdec) h.review

/-- What two transfers agree on. -/
structure SameTransfer (nvm : InternalStorage) (params params' : Params) : Prop where
  recipient : params.toAddress = params'.toAddress
  value : params.value = params'.value
  feeCap : params.feeCap = params'.feeCap
  nonce : nvm.displayNonce ≠ 0 → params.nonce = params'.nonce

theorem figure_injective {m n : Nat} (h : some ((m : ℚ) / 10 ^ 18) = some ((n : ℚ) / 10 ^ 18)) :
    m = n := by
  have hdiv := Option.some.inj h
  rw [div_left_inj' (by norm_num)] at hdiv
  exact_mod_cast hdiv

/-- **Transfers that look alike are alike**: on any two devices, under any
settings, the same review is shown only of transfers of one amount to one
recipient under one fee cap, and with one nonce where it is shown. -/
theorem sameReview_sameTransfer (h : Reviewed sdk nvm ctx params shown)
    (h' : Reviewed sdk' nvm' ctx' params' shown) : SameTransfer nvm params params' := by
  have hd := h.denotes
  have hd' := h'.denotes
  refine ⟨?_, ?_, ?_, ?_⟩
  · obtain ⟨text, hvalues, hbytes⟩ := hd.recipient h.recipient
    obtain ⟨text', hvalues', hbytes'⟩ := hd'.recipient h'.recipient
    cases hvalues.symm.trans hvalues'
    exact hbytes.symm.trans hbytes'
  · obtain ⟨text, hvalues, hfigure⟩ := hd.amount h.noData h.valueFits
    obtain ⟨text', hvalues', hfigure'⟩ := hd'.amount h'.noData h'.valueFits
    cases hvalues.symm.trans hvalues'
    exact figure_injective (hfigure.symm.trans hfigure')
  · obtain ⟨text, hvalues, hfigure⟩ := hd.maxFees h.feeCapFits
    obtain ⟨text', hvalues', hfigure'⟩ := hd'.maxFees h'.feeCapFits
    cases hvalues.symm.trans hvalues'
    exact figure_injective (hfigure.symm.trans hfigure')
  · intro hset
    have hnonce := hd.nonce.symm.trans hd'.nonce
    rw [if_pos hset] at hnonce
    split at hnonce
    · exact toDigits_injective (List.cons.inj hnonce).1
    · cases hnonce

/-- A transfer of a hundredth of a QRL. -/
def transfer : Params := { contractCreation with toAddress := List.replicate 64 1 }

theorem transfer_inRange : transfer.InRange :=
  ⟨by decide, by decide, by decide, by decide, by decide, .inl rfl, by decide, by decide⟩

/-- Every decoded transaction can be reviewed. -/
theorem exists_review (sdk : Sdk) (nvm : InternalStorage) (ctx : GlobalCtx) :
    ∃ shown, IsReviewOf sdk nvm ctx shown := by
  have htext : ∀ (address : Bytes addressSize) {outLen : Nat}, 1 + 2 * addressSize + 1 ≤ outLen →
      ∃ text, formatChecksummedAddress sdk true address outLen = some text := by
    intro address outLen hlen
    rcases formatChecksummedAddress_cases sdk true address hlen with ⟨-, hno⟩ | ⟨text, htext, -⟩
    · cases hno
    · exact ⟨text, htext⟩
  obtain ⟨fromText, hfrom⟩ := htext
    (addressOf sdk (publicKey sdk ctx.bip32Path ctx.bip32PathLen)) uiBufferSize_le
  obtain ⟨toText, hto⟩ := htext ctx.txInfo.txData.toAddress toAddressSize_le
  exact ⟨_, fromText, toText, hfrom, hto, rfl⟩

/-- Two transactions with the same figures and no data have the same review
where no hash is shown. -/
theorem reviewPairs_alike {tx' : ZondTx} {mHash' : Bytes 32} (h : HoldsParams params tx)
    (h' : HoldsParams params' tx') (hdata : params.data.getD [] = [])
    (hdata' : params'.data.getD [] = []) (hvalue : params.value = params'.value)
    (hfee : params.feeCap = params'.feeCap) (hnonce : params.nonce = params'.nonce)
    (hhash : nvm.displayTxHash = 0) :
    reviewPairs sdk nvm tx mHash fromText toText =
      reviewPairs sdk nvm tx' mHash' fromText toText := by
  have hamount : qrlAmount tx.value.toList tx.valueLen =
      qrlAmount tx'.value.toList tx'.valueLen := by
    apply qrlAmount_congr
    rw [h.value.2, h'.value.2, hvalue]
  have hfees : qrlAmount tx.gasFeeCap.toList tx.gasFeeCapLen =
      qrlAmount tx'.gasFeeCap.toList tx'.gasFeeCapLen := by
    apply qrlAmount_congr
    rw [h.feeCap.2, h'.feeCap.2, hfee]
  have htext : nonceText tx = nonceText tx' := by rw [nonceText_eq h, nonceText_eq h', hnonce]
  have hempty : ¬tx.dataLen > 0 := fun hpos => h.dataLen_pos_iff.mp hpos hdata
  have hempty' : ¬tx'.dataLen > 0 := fun hpos => h'.dataLen_pos_iff.mp hpos hdata'
  simp only [reviewPairs, hhash, hempty, hempty', hamount, hfees, htext, ne_eq, not_true_eq_false,
    and_false, if_false]

/-- The same transfer with another tip and more gas. -/
def tipped : Params := { transfer with tip := 2 * 10 ^ 9, gas := 600000 }

theorem tipped_inRange : tipped.InRange :=
  ⟨by decide, by decide, by decide, by decide, by decide, .inl rfl, by decide, by decide⟩

/-- The preimage of parameters is decoded to what holds them. -/
theorem exists_decoded (h : params.InRange) : ∃ tx,
    decodeLedgerTx .device (encodeUnsignedPreimage params) .zero = .ok (0, tx) ∧
      HoldsParams params tx := by
  obtain ⟨hlen, lst, htx⟩ := encodeUnsignedPreimage_isTx .device h
  obtain ⟨tx, hdec, -⟩ := decodeLedgerTx_of_isTx .zero hlen htx
  exact ⟨tx, hdec, holdsParams_of_decoded h hdec⟩

/-- The nonce is shown, the hash is not. -/
def nonceOnly : InternalStorage :=
  { (startUp .zero).nvm with displayNonce := 1, displayTxHash := 0 }

/-- The session of a transaction. -/
def sessionOf (params : Params) (tx : ZondTx) : GlobalCtx :=
  { GlobalCtx.zero with
    txInfo := { GlobalCtx.zero.txInfo with
      mHash := testSdk.keccak256 (encodeUnsignedPreimage params)
      txData := tx } }

/-- Tip and gas are not on screen. -/
theorem tipped_sameReview : transfer ≠ tipped ∧ ∃ tx tx' shown,
    Reviewed testSdk nonceOnly (sessionOf transfer tx) transfer shown ∧
      Reviewed testSdk nonceOnly (sessionOf tipped tx') tipped shown ∧
      SameTransfer nonceOnly transfer tipped := by
  obtain ⟨tx, hdec, hheld⟩ := exists_decoded transfer_inRange
  obtain ⟨tx', hdec', hheld'⟩ := exists_decoded tipped_inRange
  have hto : tx.toAddress = tx'.toAddress :=
    CArray.ext ((hheld.recipient rfl).trans (hheld'.recipient rfl).symm)
  obtain ⟨shown, hrev⟩ := exists_review testSdk nonceOnly (sessionOf transfer tx)
  have hrev' : IsReviewOf testSdk nonceOnly (sessionOf tipped tx') shown := by
    obtain ⟨fromText, toText, hfrom, htext, rfl⟩ := hrev
    refine ⟨fromText, toText, hfrom, hto ▸ htext, ?_⟩
    exact reviewPairs_alike hheld hheld' rfl rfl rfl rfl rfl rfl
  have h : Reviewed testSdk nonceOnly (sessionOf transfer tx) transfer shown :=
    ⟨transfer_inRange, rfl, by decide, by decide, by decide, by decide, ⟨.zero, hdec⟩, hrev⟩
  have h' : Reviewed testSdk nonceOnly (sessionOf tipped tx') tipped shown :=
    ⟨tipped_inRange, rfl, by decide, by decide, by decide, by decide, ⟨.zero, hdec'⟩, hrev'⟩
  refine ⟨?_, _, _, shown, h, h', sameReview_sameTransfer h h'⟩
  intro hsame
  exact absurd (congrArg Params.gas hsame) (by decide)

end LedgerZond.HostReview
