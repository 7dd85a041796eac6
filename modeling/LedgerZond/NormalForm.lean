import LedgerZond.HostReview
import LedgerZond.ShortestHeaders

/-! # The normal form of a transaction

The decoder takes many byte strings for one transaction: with zeros in front
of an integer, with long headers, with an access list, with bytes behind the
list. The host's encoding of the parameters that were read is the one among
them that is canonical. It is the shortest, and it is reviewed as the others
are, so a review tells the parameters apart and not their encodings. -/
namespace LedgerZond.NormalForm
open LedgerZond.CTypes LedgerZond.Types LedgerZond.Platform LedgerZond.AppState LedgerZond.App
open LedgerZond.Address LedgerZond.Amount LedgerZond.Review LedgerZond.RlpDecode
open LedgerZond.DecodeGrammar LedgerZond.TxGrammar LedgerZond.Displays LedgerZond.AmountText
open LedgerZond.QrlTx LedgerZond.ShortestHeaders LedgerZond.HostReview LedgerZond.SignedBytes
open LedgerZond.Steps LedgerZond.Requests
open Lib.BigEndian Lib.Rlp

variable {t t' : Target} {b b' : List UInt8} {tx tx' : ZondTx} {its : List Item} {lst : Item}

/-! ## What a decoded transaction holds -/

/-- `b` is decoded to `tx`, whatever the struct held before. -/
def Decodes (t : Target) (b : List UInt8) (tx : ZondTx) : Prop :=
  b.length ≤ intMax ∧ ∃ prior, decodeLedgerTx t b prior = .ok (0, tx)

/-- The arrays of a decoded transaction are as long as its parameters. -/
structure Holding (tx : ZondTx) : Prop where
  inRange : (paramsOf tx).InRange
  toLen : tx.toLen.toNat = (paramsOf tx).toAddress.length
  dataLen : tx.dataLen.toNat = ((paramsOf tx).data.getD []).length
  noRecipient : tx.toLen = 0 → tx.toAddress = .zero _

/-- The parameters are those of the items. -/
theorem paramsOf_of_holds {c n tip fee g r v d al ds ex : Item}
    (h : Holds tx [c, n, tip, fee, g, r, v, d, al, ds, ex]) :
    paramsOf tx = ⟨value c.payload, value n.payload, value tip.payload, value fee.payload,
      value g.payload, r.payload, value v.payload, some d.payload⟩ := by
  obtain ⟨_, _, _, _, _, _, _, _, _, _, _, heq, hc, hn, htip, hfee, hg, hr, hv, hd, -⟩ := h
  simp only [List.cons.injEq] at heq
  obtain ⟨rfl, rfl, rfl, rfl, rfl, rfl, rfl, rfl, -⟩ := heq
  rw [paramsOf, hc.2, hn.2, htip.2, hfee.2, hg.2, hr.2, hv.2, hd.2]

/-- The items of a decoded transaction. -/
theorem Decodes.items (h : Decodes t b tx) :
    ∃ lst c n tip fee g r v d al ds ex, IsTx t.wrap b lst [c, n, tip, fee, g, r, v, d, al, ds, ex] ∧
      Holds tx [c, n, tip, fee, g, r, v, d, al, ds, ex] ∧
      (tx.toLen = 0 → tx.toAddress = .zero _) := by
  obtain ⟨hb, prior, hdec⟩ := h
  obtain ⟨lst, its, htx, hst, hholds⟩ := decodeLedgerTx_accepted hb hdec
  have hacc := (accepts_iff_rules its).mpr htx.rules
  obtain ⟨c, n, tip, fee, g, r, v, d, al, ds, ex, rfl, hfields⟩ := hholds
  exact ⟨lst, c, n, tip, fee, g, r, v, d, al, ds, ex, htx,
    ⟨c, n, tip, fee, g, r, v, d, al, ds, ex, rfl, hfields⟩, toAddress_of_storeAll hacc hst⟩

theorem Decodes.holding (h : Decodes t b tx) : Holding tx := by
  obtain ⟨lst, c, n, tip, fee, g, r, v, d, al, ds, ex, htx, hholds, hzero⟩ := h.items
  have hparams := paramsOf_of_holds hholds
  obtain ⟨_, _, _, _, _, _, _, _, _, _, _, heq, -, -, -, -, -, hr, -, hd, -⟩ := hholds
  simp only [List.cons.injEq] at heq
  obtain ⟨-, -, -, -, -, rfl, -, rfl, -⟩ := heq
  refine ⟨?_, ?_, ?_, hzero⟩
  · rw [hparams]
    exact inRange_of_isTx htx
  · rw [hparams]
    exact hr.1
  · rw [hparams]
    exact hd.1

/-! ## Transactions with the same parameters -/

/-- Two transactions that differ at most in how their integers are written. -/
structure SameTx (tx tx' : ZondTx) : Prop where
  params : paramsOf tx = paramsOf tx'
  toAddress : tx.toAddress = tx'.toAddress
  toLen : tx.toLen = tx'.toLen
  dataLen : tx.dataLen = tx'.dataLen

/-- A recipient fills its field. -/
theorem Holding.toAddress (h : Holding tx) (hset : tx.toLen ≠ 0) :
    tx.toAddress.toList = (paramsOf tx).toAddress := by
  have hlen := h.toLen
  have hfull : tx.toAddress.toList.length ≤ tx.toLen.toNat := by
    rcases h.inRange.toAddress with h64 | hnil
    · rw [hlen, h64]
      exact le_of_eq tx.toAddress.size_eq
    · rw [hnil, List.length_nil] at hlen
      exact absurd (UInt8.toNat_inj.mp hlen) hset
  exact (List.take_of_length_le hfull).symm

/-- **The parameters determine** the recipient's array and the lengths. -/
theorem sameTx_of_holding (h : Holding tx) (h' : Holding tx')
    (hparams : paramsOf tx = paramsOf tx') : SameTx tx tx' := by
  have htoLen : tx.toLen = tx'.toLen := by
    rw [← UInt8.toNat_inj, h.toLen, h'.toLen, hparams]
  refine ⟨hparams, ?_, htoLen, ?_⟩
  · by_cases hzero : tx.toLen = 0
    · rw [h.noRecipient hzero, h'.noRecipient (htoLen ▸ hzero)]
    · have hlist := h.toAddress hzero
      rw [hparams, ← h'.toAddress (htoLen ▸ hzero)] at hlist
      exact CArray.ext hlist
  · rw [← UInt16.toNat_inj, h.dataLen, h'.dataLen, hparams]

/-- What the struct held before makes no difference to the parameters. -/
theorem Decodes.again (h : Decodes t b tx) (prior : ZondTx) :
    ∃ tx', decodeLedgerTx t b prior = .ok (0, tx') ∧ SameTx tx tx' := by
  obtain ⟨lst, c, n, tip, fee, g, r, v, d, al, ds, ex, htx, hholds, -⟩ := h.items
  obtain ⟨tx', hdec, -, hholds'⟩ := decodeLedgerTx_of_isTx prior h.1 htx
  have hparams := (paramsOf_of_holds hholds).trans (paramsOf_of_holds hholds').symm
  have hdecodes : Decodes t b tx' := ⟨h.1, prior, hdec⟩
  exact ⟨tx', hdec, sameTx_of_holding h.holding hdecodes.holding hparams⟩

theorem SameTx.refl (tx : ZondTx) : SameTx tx tx := ⟨rfl, rfl, rfl, rfl⟩

theorem SameTx.symm (h : SameTx tx tx') : SameTx tx' tx :=
  ⟨h.params.symm, h.toAddress.symm, h.toLen.symm, h.dataLen.symm⟩

theorem SameTx.trans {tx'' : ZondTx} (h : SameTx tx tx') (h' : SameTx tx' tx'') : SameTx tx tx'' :=
  ⟨h.params.trans h'.params, h.toAddress.trans h'.toAddress, h.toLen.trans h'.toLen,
    h.dataLen.trans h'.dataLen⟩

/-- The data of the two. -/
theorem SameTx.data (h : SameTx tx tx') :
    tx.data.toList.take tx.dataLen.toNat = tx'.data.toList.take tx'.dataLen.toNat :=
  Option.some.inj (congrArg Params.data h.params)

/-! ## Their reviews -/

theorem nonceText_congr (h : SameTx tx tx') : nonceText tx = nonceText tx' := by
  have hnonce := congrArg Params.nonce h.params
  rw [nonceText, nonceText, uint8ArrayToDecimal_text, uint8ArrayToDecimal_text]
  exact congrArg (Nat.toDigits 10) hnonce

/-- **The review is one of the parameters**: in each of its layouts every text
but the hash is the same for both. -/
theorem reviewPairs_congr (h : SameTx tx tx') (sdk : Sdk) (nvm : InternalStorage) (mHash : Bytes 32)
    (fromText toText : List Char) :
    reviewPairs sdk nvm tx mHash fromText toText =
      reviewPairs sdk nvm tx' mHash fromText toText := by
  have hamount : qrlAmount tx.value.toList tx.valueLen = qrlAmount tx'.value.toList tx'.valueLen :=
    qrlAmount_congr (congrArg Params.value h.params)
  have hfees : qrlAmount tx.gasFeeCap.toList tx.gasFeeCapLen =
      qrlAmount tx'.gasFeeCap.toList tx'.gasFeeCapLen :=
    qrlAmount_congr (congrArg Params.feeCap h.params)
  unfold reviewPairs
  rw [hamount, hfees, nonceText_congr h, h.toLen, h.dataLen]

/-! ## The shortest encoding -/

/-- The fields that are written take no more bytes than those that were read. -/
theorem preimageFields_le {c n tip fee g r v d al ds ex : Item} {raws : List (List UInt8)}
    (hraws : ItemsOf t.wrap raws [c, n, tip, fee, g, r, v, d, al, ds, ex])
    (hds : ds.payload = [1, 0, 0]) :
    (preimageFields ⟨value c.payload, value n.payload, value tip.payload, value fee.payload,
      value g.payload, r.payload, value v.payload, some d.payload⟩).flatten.length ≤
      raws.flatten.length := by
  have hint : ∀ {it : Item} (raw : List UInt8), item? t.wrap raw = some (it, []) →
      (rlpBytes (intToBytes (value it.payload))).length ≤ raw.length := by
    intro it raw hread
    rw [intToBytes_eq, rlpBytes_eq]
    exact encodeString_minimal_shortest (wrap_modest t) hread
  have hstr : ∀ {it : Item} (raw : List UInt8), item? t.wrap raw = some (it, []) →
      (rlpBytes it.payload).length ≤ raw.length := by
    intro it raw hread
    rw [rlpBytes_eq]
    exact encodeString_shortest (wrap_modest t) hread le_rfl le_rfl
  have hone : ∀ {it : Item} (raw : List UInt8), item? t.wrap raw = some (it, []) →
      1 ≤ raw.length := fun raw hread => item?_ne_nil hread
  exact hraws.shortest <| .cons hint <| .cons hint <| .cons hint <| .cons hint <| .cons hint <|
    .cons hstr <| .cons hint <| .cons hstr <| .cons hone <| .cons (hds ▸ hstr) <| .cons hone .nil

/-- **No accepted encoding is shorter** than the host's. -/
theorem encodeUnsignedPreimage_shortest (h : Decodes t b tx) :
    (encodeUnsignedPreimage (paramsOf tx)).length ≤ b.length := by
  obtain ⟨lst, c, n, tip, fee, g, r, v, d, al, ds, ex, htx, hholds, -⟩ := h.items
  obtain ⟨raws, -, hflat, hraws⟩ := items?_iff_raws.mp htx.items
  rw [List.append_nil] at hflat
  obtain ⟨rest, hread⟩ := htx.list
  have hrules := htx.rules
  simp only [itemRules, List.forall₂_cons, List.forall₂_nil_left_iff] at hrules
  obtain ⟨-, -, -, -, -, -, -, -, -, hds, -⟩ := hrules
  have hty := htx.typeByte
  cases b with
  | nil => cases hty
  | cons x body =>
    rw [List.drop_succ_cons, List.drop_zero] at hread
    have hfields := preimageFields_le hraws hds
    rw [← hflat, ← paramsOf_of_holds hholds] at hfields
    have hframe := frame_shortest_list (wrap_modest t) hread htx.kind hfields
    rw [encodeUnsignedPreimage, rlpList_eq, encodeList, List.cons_append, List.nil_append,
      List.length_cons, List.length_cons]
    omega

/-! ## The normal form -/

/-- `n` is the normal form of `b`, which is decoded to `tx`. -/
structure IsNormalForm (t : Target) (b : List UInt8) (tx : ZondTx) (n : List UInt8) : Prop where
  /-- Both builds decode it to the parameters of `tx`, and review it alike. -/
  decodes : ∀ (t' : Target) (prior : ZondTx), ∃ tx', decodeLedgerTx t' n prior = .ok (0, tx') ∧
    paramsOf tx' = paramsOf tx ∧
    ∀ sdk nvm mHash fromText toText, reviewPairs sdk nvm tx' mHash fromText toText =
      reviewPairs sdk nvm tx mHash fromText toText
  /-- It is canonical, and nothing else with the parameters is. -/
  canonical : CanonicalPreimage t n
  fixed : b = n ↔ CanonicalPreimage t b
  only : ∀ b' tx', Decodes t b' tx' → paramsOf tx' = paramsOf tx → CanonicalPreimage t b' → b' = n
  shortest : ∀ b' tx', Decodes t b' tx' → paramsOf tx' = paramsOf tx → n.length ≤ b'.length

/-- What the host's encoding of read parameters is decoded to. -/
theorem decodes_encoded (h : Holding tx) (t : Target) (prior : ZondTx) :
    ∃ tx', decodeLedgerTx t (encodeUnsignedPreimage (paramsOf tx)) prior = .ok (0, tx') ∧
      SameTx tx' tx := by
  obtain ⟨hlen, lst, htx⟩ := encodeUnsignedPreimage_isTx t h.inRange
  obtain ⟨tx', hdec, -, hholds⟩ := decodeLedgerTx_of_isTx prior hlen htx
  refine ⟨tx', hdec, sameTx_of_holding (Decodes.holding ⟨hlen, prior, hdec⟩) h ?_⟩
  rw [paramsOf_of_holds hholds]
  simp only [stringItem, value_minimal]
  rfl

/-- **Every accepted byte string has a normal form**, the host's encoding of
the parameters it is read as. -/
theorem decodes_normalForm (h : Decodes t b tx) :
    IsNormalForm t b tx (encodeUnsignedPreimage (paramsOf tx)) where
  decodes t' prior := by
    obtain ⟨tx', hdec, hsame⟩ := decodes_encoded h.holding t' prior
    exact ⟨tx', hdec, hsame.params, reviewPairs_congr hsame⟩
  canonical := encodeUnsignedPreimage_canonical t h.holding.inRange
  fixed := by
    obtain ⟨hb, prior, hdec⟩ := h
    exact preimage_iff hb hdec
  only b' tx' h' hparams hcanonical := by
    obtain ⟨hb', prior, hdec⟩ := h'
    rw [(preimage_iff hb' hdec).mpr hcanonical, hparams]
  shortest b' tx' h' hparams := by
    rw [← hparams]
    exact encodeUnsignedPreimage_shortest h'

/-- The nonce 5 behind 0x81 has a normal form. -/
theorem wrappedNonce_normalForm : ∃ tx, IsNormalForm .device wrappedNonce tx
    (encodeUnsignedPreimage (paramsOf tx)) := by
  obtain ⟨tx, hdec, -⟩ := accepted_of_map .device wrappedNonce .zero (fun _ => ()) () (by decide)
  exact ⟨tx, decodes_normalForm ⟨by decide, .zero, hdec⟩⟩

/-! ## What is signed -/

variable {sdk : Sdk} {nvm : InternalStorage} {ctx : GlobalCtx} {shown : List Pair}
  {hist : History} {s : State}

/-- The review of a decoded transaction denotes the parameters it is read as,
since it is that of the normal form, which a host could have sent. -/
theorem denotes_of_decodes (h : Decodes t b ctx.txInfo.txData)
    (hnonce : (paramsOf ctx.txInfo.txData).nonce < 10 ^ 9)
    (hrev : IsReviewOf sdk nvm ctx shown) :
    Denotes nvm (paramsOf ctx.txInfo.txData) shown := by
  obtain ⟨tx', hdec, hsame⟩ := decodes_encoded h.holding t .zero
  have hholds := holdsParams_of_decoded h.holding.inRange hdec
  obtain ⟨fromText, toText, hfrom, hto, rfl⟩ := hrev
  rw [← hsame.toAddress] at hto
  refine @denotes_of_isReviewOf sdk nvm
    { ctx with txInfo := { ctx.txInfo with txData := tx' } } _ _ h.holding.inRange.toAddress hnonce
    hholds
    ⟨fromText, toText, hfrom, hto, ?_⟩
  exact (reviewPairs_congr hsame sdk nvm _ fromText toText).symm

/-- `b` is read as `params`. -/
def ReadsAs (t : Target) (b : List UInt8) (params : Params) : Prop :=
  ∃ tx, Decodes t b tx ∧ paramsOf tx = params

/-- The step `en`, taken behind `hist`, signs the hash of what was streamed
behind an approved review that denotes what it is read as, if the nonce fits. -/
structure SignsRead (sdk : Sdk) (hist : History) (en : Entry) (msg : Bytes 32) : Prop where
  message : msg = sdk.keccak256 (streamed opens hist)
  approval : ∃ o, en.event = .answer true o
  review : ∃ params pairs blind d, ReadsAs .device (streamed opens hist) params ∧
    params.InRange ∧ en.pre.screen = .transaction pairs blind ∧ d ∈ hist ∧
    Effect.draw en.pre.screen ∈ d.out ∧ (params.nonce < 10 ^ 9 → Denotes d.post.nvm params pairs)

/-- **What is signed is what was read**, whoever the host is and however it
encodes: in any run, the texts of the approved review are those of the
parameters that the signed bytes are read as. -/
theorem run_signsRead (h : Run sdk Serial hist s) :
    Throughout (fun hist en => ∀ msg c sk, Effect.sign msg c sk ∈ en.out →
      SignsRead sdk hist en msg) hist := by
  refine h.throughout_of_step fun hist s e hrun _ msg c sk hsign => ?_
  obtain ⟨⟨o, pairs, blind, hev, hscr, -⟩, hmsg, -⟩ := (step_did sdk s e).sign_mem hsign
  have hinv := streams_of_run hrun
  obtain ⟨hdec, -, d, hdrawn⟩ := hinv.review pairs blind hscr
  have hraw := hinv.raw hdec.parsed.1
  have hb := s.ctx.txInfo.rawTx.length_le.trans maxTransactionLen_le
  have hdecodes : Decodes .device s.ctx.txInfo.rawTx.bytes s.ctx.txInfo.txData := ⟨hb, hdec.decodes⟩
  refine ⟨?_, ⟨o, hev⟩, paramsOf s.ctx.txInfo.txData, pairs, blind, d, ⟨_, hraw ▸ hdecodes, rfl⟩,
    hdecodes.holding.inRange, hscr, hdrawn.mem, hdrawn.draw,
    fun hnonce => denotes_of_decodes hdecodes hnonce hdrawn.review⟩
  rw [hmsg, hdec.hash, hraw]

theorem interrupted_signsRead : ∃ msg, SignsRead creationSdk reviewed.1
    (entry creationSdk reviewed.2 approve) msg := by
  obtain ⟨msg, c, sk, hsign⟩ := interrupted_signs
  exact ⟨msg, (run_signsRead interrupted_run).1 msg c sk hsign⟩

end LedgerZond.NormalForm
