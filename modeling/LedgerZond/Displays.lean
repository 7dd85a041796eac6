import LedgerZond.Requests
import LedgerZond.DecodeGrammar

/-! # What a display can do

A last chunk is hashed and decoded and a review is chosen and drawn, each of
which can fail. `Displayed`, `Reviewed` and `Parsed` list the ways this goes,
with their guards and with the whole state they leave; `Settled` is what is
left of them where it does not matter what the decoder made of the chunks. -/
namespace LedgerZond.Displays
open LedgerZond.CTypes LedgerZond.Types LedgerZond.Platform LedgerZond.AppState
open LedgerZond.Address LedgerZond.Review LedgerZond.RlpDecode LedgerZond.App
open LedgerZond.Requests

/-! ## The review of a transaction -/

/-- What a derivation for display stores. -/
def withKey (pk : PublicKey) (address : Bytes addressSize) (s : State) : State :=
  { s with nvm := { s.nvm with pk := pk }, ctx := { s.ctx with address := address } }

/-- Every call a display makes succeeds. -/
def DisplayOk (o : Outcome) : Prop :=
  o.address.derive = cxOk ∧ o.address.keygen = cxOk ∧ o.address.hash = .ok ∧
    o.fromChecksum = true ∧ o.toChecksum = true

instance (o : Outcome) : Decidable (DisplayOk o) := inferInstanceAs (Decidable (_ ∧ _))

/-- A transaction was decoded and is to be shown. -/
def IsParsed (ctx : GlobalCtx) : Prop := ctx.reqType = .confirmTransaction ∧ ctx.state = .parsed

instance (ctx : GlobalCtx) : Decidable (IsParsed ctx) := inferInstanceAs (Decidable (_ ∧ _))

/-- The key and the address of the session's path are stored. -/
def keyed (sdk : Sdk) (s : State) : State :=
  withKey (publicKey sdk s.ctx.bip32Path s.ctx.bip32PathLen)
    (addressOf sdk (publicKey sdk s.ctx.bip32Path s.ctx.bip32PathLen)) s

/-- The pairs of the review of a session under given settings: From is the
address of the session's path, To that of the decoded transaction. -/
def IsReviewOf (sdk : Sdk) (nvm : InternalStorage) (ctx : GlobalCtx) (pairs : List Pair) : Prop :=
  ∃ fromText toText,
    formatChecksummedAddress sdk true
      (addressOf sdk (publicKey sdk ctx.bip32Path ctx.bip32PathLen)) uiBufferSize = some fromText ∧
    formatChecksummedAddress sdk true ctx.txInfo.txData.toAddress toAddressSize = some toText ∧
    pairs = reviewPairs sdk nvm ctx.txInfo.txData ctx.txInfo.mHash fromText toText

/-- What `ui_display_transaction_bs_choice` can do. -/
inductive Displayed (sdk : Sdk) (o : Outcome) (blind : Bool) (s : State) : Result → Prop
  | badState : ¬IsParsed s.ctx → Displayed sdk o blind s (ioSendSw swBadState (s.setState .none))
  | failed (pk : PublicKey) (address : Bytes addressSize) : IsParsed s.ctx → ¬DisplayOk o →
      Displayed sdk o blind s (withKey pk address s,
        [.derive s.ctx.bip32Path s.ctx.bip32PathLen, .sendSw swDisplayAddressFail])
  | shown (pairs : List Pair) : IsParsed s.ctx → DisplayOk o →
      IsReviewOf sdk (keyed sdk s).nvm (keyed sdk s).ctx pairs →
      Displayed sdk o blind s ({ keyed sdk s with screen := .transaction pairs blind },
        [.derive s.ctx.bip32Path s.ctx.bip32PathLen, .draw (.transaction pairs blind)])

theorem formatChecksummedAddress_cases (sdk : Sdk) (hashed : Bool) (address : Bytes addressSize)
    {outLen : Nat} (h : 1 + 2 * addressSize + 1 ≤ outLen) :
    (formatChecksummedAddress sdk hashed address outLen = none ∧ hashed = false) ∨
      ∃ text, formatChecksummedAddress sdk hashed address outLen = some text ∧ hashed = true := by
  unfold formatChecksummedAddress
  rw [if_neg (by omega)]
  cases hashed with
  | false => exact .inl ⟨rfl, rfl⟩
  | true => exact .inr ⟨_, rfl, rfl⟩

theorem uiBufferSize_le : 1 + 2 * addressSize + 1 ≤ uiBufferSize := by decide

theorem toAddressSize_le : 1 + 2 * addressSize + 1 ≤ toAddressSize := by decide

theorem cxFail_ne : cxFail ≠ cxOk := by decide

theorem addressFromBip32Path_cases (sdk : Sdk) (o : AddressOutcome) (p : Path) (n : UInt8)
    (pk : PublicKey) (address : Bytes addressSize) :
    (∃ pk' address', (addressFromBip32Path sdk o p n pk address).1 ≠ cxOk ∧
        (addressFromBip32Path sdk o p n pk address).2 = (pk', address') ∧
        ¬(o.derive = cxOk ∧ o.keygen = cxOk ∧ o.hash = .ok)) ∨
      ((o.derive = cxOk ∧ o.keygen = cxOk ∧ o.hash = .ok) ∧
        addressFromBip32Path sdk o p n pk address =
          (cxOk, publicKey sdk p n, addressOf sdk (publicKey sdk p n))) := by
  unfold addressFromBip32Path
  by_cases hd : o.derive = cxOk
  swap
  · rw [if_pos hd]
    exact .inl ⟨pk, address, hd, rfl, fun h => hd h.1⟩
  by_cases hk : o.keygen = cxOk
  swap
  · rw [if_neg (by simp [hd]), if_pos hk]
    exact .inl ⟨pk, address, cxFail_ne, rfl, fun h => hk h.2.1⟩
  rw [if_neg (by simp [hd]), if_neg (by simp [hk])]
  cases hh : o.hash with
  | failed left => exact .inl ⟨publicKey sdk p n, left.getD address, cxFail_ne, rfl, by simp⟩
  | ok => exact .inr ⟨⟨hd, hk, rfl⟩, rfl⟩

theorem uiDisplayTransactionBsChoice_displayed (sdk : Sdk) (o : Outcome) (blind : Bool)
    (s : State) : Displayed sdk o blind s (uiDisplayTransactionBsChoice sdk o blind s) := by
  unfold uiDisplayTransactionBsChoice
  by_cases hp : IsParsed s.ctx
  swap
  · rw [if_pos (by simpa [IsParsed, imp_iff_not_or] using hp)]
    exact .badState hp
  rw [if_neg (by simp [hp.1, hp.2])]
  rcases addressFromBip32Path_cases sdk o.address s.ctx.bip32Path s.ctx.bip32PathLen s.nvm.pk
    s.ctx.address with ⟨pk, address, herr, heq, hno⟩ | ⟨hok, heq⟩
  · rw [← Prod.mk.eta (p := addressFromBip32Path sdk o.address _ _ _ _), heq]
    simp only [if_pos herr]
    exact .failed pk address hp fun h => hno ⟨h.1, h.2.1, h.2.2.1⟩
  · rw [heq]
    simp only [ne_eq, not_true_eq_false, if_false]
    rcases formatChecksummedAddress_cases sdk o.fromChecksum _ uiBufferSize_le with
      ⟨hnone, hf⟩ | ⟨fromText, hfrom, hf⟩
    · rw [hnone]
      exact .failed _ _ hp fun h => by simp [hf, DisplayOk] at h
    rw [hfrom]
    simp only
    rcases formatChecksummedAddress_cases sdk o.toChecksum s.ctx.txInfo.txData.toAddress
      toAddressSize_le with ⟨hnone, ht⟩ | ⟨toText, hto, ht⟩
    · rw [hnone]
      exact .failed _ _ hp fun h => by simp [ht, DisplayOk] at h
    rw [hto]
    rw [hf] at hfrom
    rw [ht] at hto
    exact .shown _ hp ⟨hok.1, hok.2.1, hok.2.2, hf, ht⟩ ⟨fromText, toText, hfrom, hto, rfl⟩

/-! ## The last chunk -/

def withHash (mHash : Bytes 32) (s : State) : State :=
  { s with ctx := { s.ctx with txInfo := { s.ctx.txInfo with mHash := mHash } } }

/-- The transaction as hashed and as the decoder leaves it. -/
def decoded (sdk : Sdk) (txData : ZondTx) (s : State) : State :=
  { s with ctx := { s.ctx with txInfo := { s.ctx.txInfo with
    mHash := sdk.keccak256 s.ctx.txInfo.rawTx.bytes
    txData := txData } } }

def withCalldata (calldata : AbiCalldata) (s : State) : State :=
  { s with ctx := { s.ctx with txInfo := { s.ctx.txInfo with calldata := calldata } } }

/-- A call of a contract is to be shown parameter by parameter. -/
def DebugsCall (s : State) : Prop :=
  s.ctx.txInfo.txData.toLen > 0 ∧ s.ctx.txInfo.txData.dataLen > 0 ∧
    s.nvm.enableDebugSmartContract ≠ 0 ∧ s.nvm.enableBlindSigning ≠ 0

/-- The parser's view of a transaction's data. -/
def parsedCalldata (s : State) : Bool × AbiCalldata :=
  abiCalldataParse (s.ctx.txInfo.txData.data.toList.take s.ctx.txInfo.txData.dataLen.toNat)

/-- What the choice of a review can do. -/
inductive Reviewed (sdk : Sdk) (o : Outcome) (s : State) : Result → Prop
  | refused : s.ctx.txInfo.txData.dataLen ≠ 0 → s.nvm.enableBlindSigning = 0 →
      Reviewed sdk o s ({ s with screen := .blindSigningError },
        [.draw .blindSigningError, .sendSw swSignatureFail])
  | selector (pair : Pair) (count : UInt8) : DebugsCall s → (parsedCalldata s).1 = true →
      Reviewed sdk o s
        ({ withCalldata (parsedCalldata s).2 s with
            currentScreen := .selectorConfirmation
            paramIndex := 0
            paramCount := count
            screen := .confirm pair },
          [.draw (.confirm pair)])
  | fallback {r : Result} : DebugsCall s → (parsedCalldata s).1 = false →
      Displayed sdk o false (withCalldata (parsedCalldata s).2 s) r → Reviewed sdk o s r
  | blind {r : Result} : s.ctx.txInfo.txData.dataLen ≠ 0 → ¬DebugsCall s →
      Displayed sdk o true s r → Reviewed sdk o s r
  | clear {r : Result} : s.ctx.txInfo.txData.dataLen = 0 → Displayed sdk o false s r →
      Reviewed sdk o s r

theorem signTxReview_reviewed (sdk : Sdk) (o : Outcome) (s : State) :
    Reviewed sdk o s (signTxReview sdk o s) := by
  unfold signTxReview
  by_cases hrefuse : s.ctx.txInfo.txData.dataLen ≠ 0 ∧ s.nvm.enableBlindSigning = 0
  · rw [if_pos hrefuse]
    exact .refused hrefuse.1 hrefuse.2
  rw [if_neg hrefuse]
  by_cases hdebug : DebugsCall s
  · rw [if_pos (show _ ∧ _ ∧ _ ∧ _ from hdebug)]
    rcases hparse : abiCalldataParse (s.ctx.txInfo.txData.data.toList.take
      s.ctx.txInfo.txData.dataLen.toNat) with ⟨parsed, calldata⟩
    have hcall : parsedCalldata s = (parsed, calldata) := hparse
    simp only
    cases parsed with
    | true =>
      have hsel : Reviewed sdk o s _ := .selector ("Selector", selectorText calldata.selector)
        calldata.paramCount hdebug (by rw [hcall])
      rw [hcall] at hsel
      exact hsel
    | false =>
      have hdisp := uiDisplayTransactionBsChoice_displayed sdk o false (withCalldata calldata s)
      exact .fallback hdebug (by rw [hcall]) (by rw [hcall]; exact hdisp)
  · rw [if_neg (show ¬(_ ∧ _ ∧ _ ∧ _) from hdebug)]
    by_cases hdata : s.ctx.txInfo.txData.dataLen = 0
    · rw [if_neg (by simp [hdata])]
      exact .clear hdata (uiDisplayTransactionBsChoice_displayed sdk o false s)
    · rw [if_pos ⟨hdata, fun h => hrefuse ⟨hdata, h⟩⟩]
      exact .blind hdata hdebug (uiDisplayTransactionBsChoice_displayed sdk o true s)

/-- What follows a last chunk. -/
inductive Parsed (sdk : Sdk) (o : Outcome) (s : State) : Result → Prop
  | unhashed (mHash : Bytes 32) : o.keccak ≠ .ok →
      Parsed sdk o s (withHash mHash s, [.sendSw swSignatureFail])
  | undecoded (txData : ZondTx) : o.keccak = .ok →
      decodeLedgerTx .device s.ctx.txInfo.rawTx.bytes s.ctx.txInfo.txData = .ok (-1, txData) →
      Parsed sdk o s (decoded sdk txData s, [.sendSw swTxParsingFail])
  | reviewed {r : Result} (txData : ZondTx) : o.keccak = .ok →
      decodeLedgerTx .device s.ctx.txInfo.rawTx.bytes s.ctx.txInfo.txData = .ok (0, txData) →
      Reviewed sdk o (decoded sdk txData s) r → Parsed sdk o s r

/-- The parse of `raw_tx` ends without a hash, without a transaction, or with
the choice of a review. -/
theorem signTxParse_cases (sdk : Sdk) (o : Outcome) (s : State) :
    (o.keccak ≠ .ok ∧
        ∃ mHash, signTxParse sdk o s = (withHash mHash s, [.sendSw swSignatureFail])) ∨
      (o.keccak = .ok ∧ ∃ txData,
        decodeLedgerTx .device s.ctx.txInfo.rawTx.bytes s.ctx.txInfo.txData = .ok (-1, txData) ∧
        signTxParse sdk o s = (decoded sdk txData s, [.sendSw swTxParsingFail])) ∨
      (o.keccak = .ok ∧ ∃ txData,
        decodeLedgerTx .device s.ctx.txInfo.rawTx.bytes s.ctx.txInfo.txData = .ok (0, txData) ∧
        signTxParse sdk o s = signTxReview sdk o (decoded sdk txData s)) := by
  unfold signTxParse
  cases hk : o.keccak with
  | failed left => exact .inl ⟨by simp, _, rfl⟩
  | ok =>
    obtain ⟨ret, txData, hdec, hcase⟩ := DecodeGrammar.decodeLedgerTx_spec .device
      (s.ctx.txInfo.rawTx.length_le.trans DecodeGrammar.maxTransactionLen_le) s.ctx.txInfo.txData
    have hraw : decodeRawTx s.ctx.txInfo.rawTx s.ctx.txInfo.txData = (ret, txData) := by
      unfold decodeRawTx
      rw [hdec]
    simp only [hraw]
    rcases hcase with ⟨rfl, -⟩ | ⟨rfl, -⟩
    · exact .inr (.inl ⟨trivial, txData, hdec, rfl⟩)
    · exact .inr (.inr ⟨trivial, txData, hdec, rfl⟩)

theorem signTxParse_parsed (sdk : Sdk) (o : Outcome) (s : State) :
    Parsed sdk o s (signTxParse sdk o s) := by
  rcases signTxParse_cases sdk o s with ⟨hk, mHash, heq⟩ | ⟨hk, txData, hdec, heq⟩ |
    ⟨hk, txData, hdec, heq⟩
  · rw [heq]
    exact .unhashed mHash hk
  · rw [heq]
    exact .undecoded txData hk hdec
  · rw [heq]
    exact .reviewed txData hk hdec (signTxReview_reviewed sdk o (decoded sdk txData s))

/-! ## Whatever was made of the transaction -/

variable {sdk : Sdk} {s : State} {r : Result} {o : Outcome}

def withTx (txInfo : TransactionCtx) (s : State) : State :=
  { s with ctx := { s.ctx with txInfo := txInfo } }

/-- What a last chunk leaves, with what was made of `raw_tx` left open. -/
inductive Settled (sdk : Sdk) (o : Outcome) (s : State) : Result → Prop
  | answered (txInfo : TransactionCtx) (sw : UInt16) : txInfo.rawTx = s.ctx.txInfo.rawTx →
      Settled sdk o s (withTx txInfo s, [.sendSw sw])
  | refused (txInfo : TransactionCtx) : txInfo.rawTx = s.ctx.txInfo.rawTx →
      Settled sdk o s ({ withTx txInfo s with screen := .blindSigningError },
        [.draw .blindSigningError, .sendSw swSignatureFail])
  | selector (txInfo : TransactionCtx) (pair : Pair) (count : UInt8) :
      txInfo.rawTx = s.ctx.txInfo.rawTx →
      Settled sdk o s
        ({ withTx txInfo s with
            currentScreen := .selectorConfirmation
            paramIndex := 0
            paramCount := count
            screen := .confirm pair },
          [.draw (.confirm pair)])
  | displayed (txInfo : TransactionCtx) {blind : Bool} {r : Result} :
      txInfo.rawTx = s.ctx.txInfo.rawTx → Displayed sdk o blind (withTx txInfo s) r →
      Settled sdk o s r

theorem Reviewed.settled (h : Reviewed sdk o s r) : Settled sdk o s r := by
  cases h with
  | refused _ _ => exact .refused s.ctx.txInfo rfl
  | selector pair count _ _ => exact .selector _ pair count rfl
  | fallback _ _ hd => exact .displayed (withCalldata (parsedCalldata s).2 s).ctx.txInfo rfl hd
  | blind _ _ hd => exact .displayed s.ctx.txInfo rfl hd
  | clear _ hd => exact .displayed s.ctx.txInfo rfl hd

theorem Settled.of_withTx {txInfo : TransactionCtx} (hraw : txInfo.rawTx = s.ctx.txInfo.rawTx)
    (h : Settled sdk o (withTx txInfo s) r) : Settled sdk o s r := by
  cases h with
  | answered txInfo' sw hraw' => exact .answered txInfo' sw (hraw'.trans hraw)
  | refused txInfo' hraw' => exact .refused txInfo' (hraw'.trans hraw)
  | selector txInfo' pair count hraw' => exact .selector txInfo' pair count (hraw'.trans hraw)
  | displayed txInfo' hraw' hd => exact .displayed txInfo' (hraw'.trans hraw) hd

theorem Parsed.settled (h : Parsed sdk o s r) : Settled sdk o s r := by
  cases h with
  | unhashed mHash _ => exact .answered _ swSignatureFail rfl
  | undecoded txData _ _ => exact .answered _ swTxParsingFail rfl
  | reviewed txData _ _ hr =>
    have hset : Settled sdk o (withTx (decoded sdk txData s).ctx.txInfo s) r := hr.settled
    refine hset.of_withTx ?_
    rfl

/-! ## What a last chunk leaves alone -/

/-- The type, the path and the bytes of a session. -/
structure SameSession (a b : GlobalCtx) : Prop where
  reqType : a.reqType = b.reqType
  bip32Path : a.bip32Path = b.bip32Path
  bip32PathLen : a.bip32PathLen = b.bip32PathLen
  rawTx : a.txInfo.rawTx = b.txInfo.rawTx

theorem Displayed.same {blind : Bool} (h : Displayed sdk o blind s r) :
    SameSession r.1.ctx s.ctx := by
  cases h <;> exact ⟨rfl, rfl, rfl, rfl⟩

theorem Settled.same (h : Settled sdk o s r) : SameSession r.1.ctx s.ctx := by
  cases h with
  | answered txInfo sw hraw => exact ⟨rfl, rfl, rfl, hraw⟩
  | refused txInfo hraw => exact ⟨rfl, rfl, rfl, hraw⟩
  | selector txInfo pair count hraw => exact ⟨rfl, rfl, rfl, hraw⟩
  | displayed txInfo hraw hd =>
    exact ⟨hd.same.reqType, hd.same.bip32Path, hd.same.bip32PathLen, hd.same.rawTx.trans hraw⟩

theorem Displayed.isParsed {blind : Bool} (h : Displayed sdk o blind s r) (hp : IsParsed s.ctx) :
    IsParsed r.1.ctx := by
  cases h with
  | badState hno => exact absurd hp hno
  | failed pk address _ _ => exact hp
  | shown pairs _ _ _ => exact hp

theorem Settled.isParsed (h : Settled sdk o s r) (hp : IsParsed s.ctx) : IsParsed r.1.ctx := by
  cases h with
  | answered txInfo sw _ => exact hp
  | refused txInfo _ => exact hp
  | selector txInfo pair count _ => exact hp
  | displayed txInfo _ hd => exact hd.isParsed hp

/-! ## What it neither sends nor shows -/

theorem Displayed.noResponse {blind : Bool} (h : Displayed sdk o blind s r) (source : Source)
    (data : List UInt8) : Effect.sendResponse source data ∉ r.2 := by
  cases h <;> simp

theorem Settled.noResponse (h : Settled sdk o s r) (source : Source) (data : List UInt8) :
    Effect.sendResponse source data ∉ r.2 := by
  cases h with
  | answered txInfo sw _ => simp
  | refused txInfo _ => simp
  | selector txInfo pair count _ => simp
  | displayed txInfo _ hd => exact hd.noResponse source data

theorem Displayed.notAddress {blind : Bool} (h : Displayed sdk o blind s r)
    (hscr : ∀ text, s.screen ≠ .address text) (text : List Char) :
    r.1.screen ≠ .address text := by
  intro haddress
  cases h with
  | badState _ => exact hscr text haddress
  | failed pk address _ _ => exact hscr text haddress
  | shown pairs _ _ _ => cases haddress

theorem Settled.notAddress (h : Settled sdk o s r) (hscr : ∀ text, s.screen ≠ .address text)
    (text : List Char) : r.1.screen ≠ .address text := by
  intro haddress
  cases h with
  | answered txInfo sw _ => exact hscr text haddress
  | refused txInfo _ => cases haddress
  | selector txInfo pair count _ => cases haddress
  | displayed txInfo _ hd => exact hd.notAddress hscr text haddress

/-! ## Its uses of a key -/

def Effect.isSign : Effect → Bool
  | .sign _ _ _ => true
  | _ => false

/-- A signature call, its check, or bytes of the stored signature. -/
def Effect.signs : Effect → Bool
  | .sign _ _ _ => true
  | .verify _ _ _ _ _ => true
  | .sendResponse (.signature _ _ _) _ => true
  | _ => false

/-- A derivation or a screen of the review of a transaction. -/
def Effect.isKeyed : Effect → Bool
  | .derive _ _ => true
  | .draw (.confirm _) => true
  | .draw (.transaction _ _) => true
  | _ => false

/-- The keyed effects of a step are on the path of its session. -/
def OnPath (ctx : GlobalCtx) (effects : List Effect) : Prop :=
  ∀ p n, Effect.derive p n ∈ effects → p = ctx.bip32Path ∧ n = ctx.bip32PathLen

theorem Displayed.quiet {blind : Bool} (h : Displayed sdk o blind s r) :
    ∀ eff ∈ r.2, Effect.signs eff = false := by
  cases h <;> simp [Effect.signs]

theorem Settled.quiet (h : Settled sdk o s r) : ∀ eff ∈ r.2, Effect.signs eff = false := by
  cases h with
  | answered txInfo sw _ => simp [Effect.signs]
  | refused txInfo _ => simp [Effect.signs]
  | selector txInfo pair count _ => simp [Effect.signs]
  | displayed txInfo _ hd => exact hd.quiet

theorem Displayed.onPath {blind : Bool} (h : Displayed sdk o blind s r) : OnPath s.ctx r.2 := by
  intro p n hmem
  cases h <;> simp at hmem <;> exact hmem

theorem Settled.onPath (h : Settled sdk o s r) : OnPath s.ctx r.2 := by
  intro p n hmem
  cases h with
  | answered txInfo sw _ => simp at hmem
  | refused txInfo _ => simp at hmem
  | selector txInfo pair count _ => simp at hmem
  | displayed txInfo _ hd => exact hd.onPath p n hmem

end LedgerZond.Displays
