import LedgerZond.Review
import LedgerZond.RlpDecode
import LedgerZond.Lib.Machine

/-! # The application

The handlers, the dispatcher and the callbacks, and the machine they make up:
an event is an APDU, a user's answer to a screen, a settings switch or a
restart, each with the outcomes of the calls made while it is handled. -/
namespace LedgerZond.App
open LedgerZond.CTypes LedgerZond.Types LedgerZond.Platform LedgerZond.AppState
open LedgerZond.Address LedgerZond.Review LedgerZond.RlpDecode

/-! ## `helper/send_response.c` -/

def helperSendResponseAddress (s : State) : Result :=
  ioSendResponsePointer .address (zondAddressPrefix :: s.ctx.address.toList) s

/-- `resp[i] = array[i + index * chunk_size]` for `i < count`. -/
def chunkReads (index count chunkSize : Nat) : List Nat :=
  (List.range count).map fun i => i + index * chunkSize

def readAll (array : List UInt8) (reads : List Nat) : List UInt8 := reads.map (array.getD · 0)

def helperSendResponseSig (index : UInt8) (s : State) : Result :=
  let count := if index < 17 then signatureChunkSize else signatureLastChunkSize
  let reads := chunkReads index.toNat count signatureChunkSize
  let sent := [Effect.sendResponse (.signature reads s.ctx.reqType s.ctx.state)
    (readAll s.nvm.sig.toList reads)]
  if index = 0 then ({ s with nvm := { s.nvm with isSendingSignature := 1 } }, sent)
  else if index = 17 then
    let s := { s with nvm := { s.nvm with isSendingSignature := 0 } }
    (s.bzero.setState .none, sent)
  else (s, sent)

def helperSendResponsePkChunk (index : UInt8) (s : State) : Result :=
  if index.toNat ≥ pkChunks then ioSendSw swWrongDataLength s
  else
    let chunkSize := if index.toNat < pkChunks - 1 then pkChunkSize else pkLastChunkSize
    let reads := chunkReads index.toNat chunkSize pkChunkSize
    ioSendResponsePointer (.publicKey reads) (readAll s.nvm.pk.toList reads) s

/-! ## `ui/action/validate.c` -/

def validatePubkey (choice : Bool) (s : State) : Result :=
  if choice then helperSendResponseAddress (s.setState .approved)
  else ((ioSendSw swDeny s).1.bzero, (ioSendSw swDeny s).2)

/-- `QRL_CTX`. -/
def qrlCtx : List UInt8 := [0x5A, 0x4F, 0x4E, 0x44, 0x01, 0x01, 0x00, 0x00]

/-- `crypto_sign_message`: whether it returns 0, and what it leaves. The
signature is stored before it is looked at. -/
def cryptoSignMessage (sdk : Sdk) (o : SignOutcome) (s : State) : Bool × Result :=
  let derived := Effect.derive s.ctx.bip32Path s.ctx.bip32PathLen
  if o.derive ≠ cxOk then (false, s, [derived])
  else if o.keygen ≠ cxOk then (false, s, [derived])
  else
    let mHash := s.ctx.txInfo.mHash
    let signed := Effect.sign mHash qrlCtx (secretKey sdk s.ctx.bip32Path s.ctx.bip32PathLen)
    let s := { s with nvm := { s.nvm with sig := o.sig } }
    if o.sign ≠ cxOk ∨ o.actualLen ≠ mldsa87SigBytes then (false, s, [derived, signed])
    else
      let accepted := o.verify == cxOk
      (accepted, s, [derived, signed, .verify s.nvm.sig mHash qrlCtx s.nvm.pk accepted])

def validateTransaction (sdk : Sdk) (o : Outcome) (choice : Bool) (s : State) : Result :=
  if choice then
    let (ok, r) := cryptoSignMessage sdk o.sign (s.setState .approved)
    Result.after r.2 <|
      if ok then helperSendResponseSig 0 r.1 else ioSendSw swSignatureFail (r.1.setState .none)
  else ((ioSendSw swDeny s).1.bzero, (ioSendSw swDeny s).2)

/-! ## `handler/sign_tx.c` -/

/-- `abi_calldata_parse`: whether it returns true, and what it leaves. -/
def abiCalldataParse (calldata : List UInt8) : Bool × AbiCalldata :=
  if calldata.length < abiSelectorSize then (false, .zero)
  else
    let out := { AbiCalldata.zero with
      selector := AbiCalldata.zero.selector.overlay (calldata.take abiSelectorSize)
      hasSelector := true }
    let dataLen := calldata.length - abiSelectorSize
    if dataLen % abiSlotSize > 0 then (false, out)
    else
      let totalSlots := min (dataLen / abiSlotSize) abiMaxParams
      let slot i := (Bytes.zero abiSlotSize).overlay ((calldata.drop (4 + i * abiSlotSize)).take 64)
      (true, { out with
        paramCount := UInt8.ofNat totalSlots
        params := out.params.overlay ((List.range totalSlots).map slot) })

/-- P1 = 0: a new session. Type and state are set before the path is read. -/
def signTxFirst (sdk : Sdk) (cdata : List UInt8) (s : State) : Result :=
  let s := { s with
    ctx := { GlobalCtx.zero with reqType := .confirmTransaction, state := .none }
    nvm := { s.nvm with sig := .zero _ } }
  match sdk.bufferReadU8 ⟨cdata, 0⟩ with
  | none => ioSendSw swWrongDataLength s
  | some (bip32PathLen, buffer) =>
    let (read, bip32Path, _) := sdk.bufferReadBip32Path buffer s.ctx.bip32Path bip32PathLen.toNat
    let s := { s with ctx := { s.ctx with bip32PathLen := bip32PathLen, bip32Path := bip32Path } }
    if !read then ioSendSw swWrongDataLength s
    else if !isValidZondBip32Path bip32Path bip32PathLen then ioSendSw swWrongDataLength s
    else ioSendSw swOk s

/-- The appending of a chunk, which P1 = 1 and P1 = 2 do alike: the status word
of a refusal, or the longer `raw_tx`. -/
def appendChunk (sdk : Sdk) (cdata : List UInt8) (ctx : GlobalCtx) : Except UInt16 RawTx :=
  if ctx.reqType ≠ .confirmTransaction then .error swBadState
  else if ctx.state ≠ .none then .error swBadState
  else if h : ctx.txInfo.rawTx.bytes.length + cdata.length > maxTransactionLen then
    .error swWrongTxLength
  else
    match sdk.bufferMove ⟨cdata, 0⟩ cdata.length with
    | none => .error swTxParsingFail
    | some (moved, _) =>
      .ok ⟨ctx.txInfo.rawTx.bytes ++ moved.toList, by
        rw [List.length_append, moved.size_eq]
        omega⟩

/-- P1 = 1: more of the transaction follows. -/
def signTxMore (sdk : Sdk) (cdata : List UInt8) (s : State) : Result :=
  match appendChunk sdk cdata s.ctx with
  | .error sw => ioSendSw sw s
  | .ok rawTx => ioSendSw swOk (s.setRawTx rawTx)

/-- The decoder on `raw_tx`, which makes no access outside an array
(`decodeLedgerTx_spec`): the second branch is never taken. -/
def decodeRawTx (rawTx : RawTx) (tx : ZondTx) : Int × ZondTx :=
  match decodeLedgerTx .device rawTx.bytes tx with
  | .ok r => r
  | .error _ => (-1, tx)

/-- The choice of a review behind a decoded transaction. -/
def signTxReview (sdk : Sdk) (o : Outcome) (s : State) : Result :=
  let tx := s.ctx.txInfo.txData
  if tx.dataLen ≠ 0 ∧ s.nvm.enableBlindSigning = 0 then
    let (s, effects) := uiErrorBlindSigning s
    Result.after effects (ioSendSw swSignatureFail s)
  else if tx.toLen > 0 ∧ tx.dataLen > 0 ∧ s.nvm.enableDebugSmartContract ≠ 0 ∧
      s.nvm.enableBlindSigning ≠ 0 then
    let (parsed, calldata) := abiCalldataParse (tx.data.toList.take tx.dataLen.toNat)
    let s := { s with ctx := { s.ctx with txInfo := { s.ctx.txInfo with calldata := calldata } } }
    if parsed then uiConfirmSelector sdk (uiContractCallInit calldata.paramCount s)
    else uiDisplayTransaction sdk o s
  else if tx.dataLen ≠ 0 ∧ s.nvm.enableBlindSigning ≠ 0 then
    uiDisplayBlindSignedTransaction sdk o s
  else uiDisplayTransaction sdk o s

/-- What follows the last chunk: hash, decode, and choose the review. -/
def signTxParse (sdk : Sdk) (o : Outcome) (s : State) : Result :=
  let rawTx := s.ctx.txInfo.rawTx
  match o.keccak with
  | .failed left =>
    let mHash := left.getD s.ctx.txInfo.mHash
    ioSendSw swSignatureFail
      { s with ctx := { s.ctx with txInfo := { s.ctx.txInfo with mHash := mHash } } }
  | .ok =>
    let (err, txData) := decodeRawTx rawTx s.ctx.txInfo.txData
    let s := { s with ctx := { s.ctx with txInfo := { s.ctx.txInfo with
      mHash := sdk.keccak256 rawTx.bytes
      txData := txData } } }
    if err ≠ 0 then ioSendSw swTxParsingFail s else signTxReview sdk o s

/-- P1 = 2, P2 = 0: the last chunk. -/
def signTxLast (sdk : Sdk) (o : Outcome) (cdata : List UInt8) (s : State) : Result :=
  match appendChunk sdk cdata s.ctx with
  | .error sw => ioSendSw sw s
  | .ok rawTx => signTxParse sdk o ((s.setRawTx rawTx).setState .parsed)

/-- P1 = 2, 0 < P2 < 18: a chunk of the signature. -/
def signTxSignature (p2 : UInt8) (s : State) : Result :=
  if s.ctx.reqType ≠ .confirmTransaction then ioSendSw swBadState s
  else if s.ctx.state ≠ .approved then ioSendSw swBadState s
  else if s.nvm.isSendingSignature ≠ 0 then helperSendResponseSig p2 s
  else ioSendSw swBadState s

def handlerSignTx (sdk : Sdk) (o : Outcome) (cdata : List UInt8) (p1 p2 : UInt8) (s : State) :
    Result :=
  if p1 = 0 then signTxFirst sdk cdata s
  else if p1 = 1 then signTxMore sdk cdata s
  else if p1 = 2 ∧ p2 = 0 then signTxLast sdk o cdata s
  else if p1 = 2 ∧ p2 > 0 ∧ p2 < 18 then signTxSignature p2 s
  else ioSendSw swWrongP1P2 s

/-! ## The other handlers -/

/-- `handler_get_public_key`: the stored key is zeroed before the path is read. -/
def handlerGetPublicKey (sdk : Sdk) (o : Outcome) (cdata : List UInt8) (display : Bool)
    (s : State) : Result :=
  let s := { s with
    ctx := { GlobalCtx.zero with reqType := .confirmAddress, state := .none }
    nvm := { s.nvm with pk := .zero _ } }
  match sdk.bufferReadU8 ⟨cdata, 0⟩ with
  | none => ioSendSw swWrongDataLength s
  | some (bip32PathLen, buffer) =>
    let (read, bip32Path, _) := sdk.bufferReadBip32Path buffer s.ctx.bip32Path bip32PathLen.toNat
    let s := { s with ctx := { s.ctx with bip32PathLen := bip32PathLen, bip32Path := bip32Path } }
    if !read then ioSendSw swWrongDataLength s
    else if !isValidZondBip32Path bip32Path bip32PathLen then ioSendSw swWrongDataLength s
    else
      let (error, pk, address) :=
        addressFromBip32Path sdk o.address bip32Path bip32PathLen s.nvm.pk s.ctx.address
      let s := { s with nvm := { s.nvm with pk := pk }, ctx := { s.ctx with address := address } }
      Result.after [.derive bip32Path bip32PathLen] <|
        if error ≠ cxOk then ioSendSw error.toUInt16 s
        else if display then uiDisplayAddress sdk o s
        else helperSendResponseAddress s

/-- `MAJOR_VERSION`, `MINOR_VERSION`, `PATCH_VERSION`. -/
def handlerGetVersion (s : State) : Result := ioSendResponsePointer .version [2, 2, 2] s

/-- `APPNAME`, `"QRL v2.0"`. -/
def handlerGetAppName (s : State) : Result :=
  ioSendResponsePointer .appName [0x51, 0x52, 0x4C, 0x20, 0x76, 0x32, 0x2E, 0x30] s

/-! ## `apdu/dispatcher.c` -/

def dataFirst : UInt8 := 0x00
def dataMore : UInt8 := 0x01
def dataLast : UInt8 := 0x02

/-- `apdu_dispatcher`. The first test under `SIGN_TX` asks for `p2 < 0`. -/
def apduDispatcher (sdk : Sdk) (o : Outcome) (cmd : Command) (s : State) : Result :=
  if cmd.cla ≠ cla then ioSendSw swClaNotSupported s
  else if cmd.ins = insGetVersion then
    if cmd.p1 ≠ 0 ∨ cmd.p2 ≠ 0 then ioSendSw swWrongP1P2 s else handlerGetVersion s
  else if cmd.ins = insGetAppName then
    if cmd.p1 ≠ 0 ∨ cmd.p2 ≠ 0 then ioSendSw swWrongP1P2 s else handlerGetAppName s
  else if cmd.ins = insGetPublicKey then
    if cmd.p1 > 1 ∨ cmd.p2 > 11 then ioSendSw swWrongP1P2 s
    else if cmd.p2 > 0 then helperSendResponsePkChunk (cmd.p2 - 1) s
    else if cmd.data = [] then ioSendSw swWrongDataLength s
    else handlerGetPublicKey sdk o cmd.data (cmd.p1 ≠ 0) s
  else if cmd.ins = insSignTx then
    if cmd.p1 ≠ dataFirst ∧ cmd.p1 ≠ dataMore ∧ cmd.p1 ≠ dataLast ∧ cmd.p2 < 0 ∧ cmd.p2 > 17 then
      ioSendSw swWrongP1P2 s
    else if cmd.data = [] ∧ cmd.p2 = 0 then ioSendSw swWrongDataLength s
    else handlerSignTx sdk o cmd.data cmd.p1 cmd.p2 s
  else ioSendSw swInsNotSupported s

/-! ## The callbacks of the screens -/

/-- `review_choice` of a transaction; the status page leads home. -/
def transactionChoice (sdk : Sdk) (o : Outcome) (confirm : Bool) (s : State) : Result :=
  validateTransaction sdk o confirm { s with screen := .home }

/-- `review_choice` of an address. -/
def addressChoice (confirm : Bool) (s : State) : Result :=
  validatePubkey confirm { s with screen := .home }

/-- `reviewChoice` of a selector or a parameter. The page is left by a rejection
or drawn over by another one; a review that cannot be displayed leaves it. -/
def reviewChoice (sdk : Sdk) (o : Outcome) (confirm : Bool) (s : State) : Result :=
  if !confirm then
    let s := { s with screen := .home }
    ((ioSendSw swDeny s).1.bzero, (ioSendSw swDeny s).2)
  else if s.currentScreen = .selectorConfirmation then
    let s := { s with currentScreen := .parameterConfirmation, paramIndex := 0 }
    if s.paramCount > 0 then buildScreen sdk .parameterConfirmation s
    else uiDisplayBlindSignedTransaction sdk o s
  else
    let s := { s with paramIndex := s.paramIndex + 1 }
    if s.paramIndex < s.paramCount then buildScreen sdk .parameterConfirmation s
    else uiDisplayBlindSignedTransaction sdk o s

/-- The user's answer to what is on screen. -/
def onAnswer (sdk : Sdk) (o : Outcome) (confirm : Bool) (s : State) : Result :=
  match s.screen with
  | .home => (s, [])
  | .blindSigningError => ({ s with screen := .home }, [])
  | .confirm _ => reviewChoice sdk o confirm s
  | .transaction _ _ => transactionChoice sdk o confirm s
  | .address _ => addressChoice confirm s

/-! ## The machine -/

/-- The switches of `ui/menu_nbgl.c`. -/
inductive Switch where
  | blindSigning
  | nonce
  | txHash
  | debugSmartContract
deriving DecidableEq, Repr

/-- `!value` as a byte. -/
def notByte (b : UInt8) : UInt8 := if b = 0 then 1 else 0

/-- `controls_callback`. -/
def controlsCallback (sw : Switch) (nvm : InternalStorage) : InternalStorage :=
  match sw with
  | .blindSigning => { nvm with enableBlindSigning := notByte nvm.enableBlindSigning }
  | .nonce => { nvm with displayNonce := notByte nvm.displayNonce }
  | .txHash => { nvm with displayTxHash := notByte nvm.displayTxHash }
  | .debugSmartContract =>
    { nvm with enableDebugSmartContract := notByte nvm.enableDebugSmartContract }

inductive Event where
  /-- An APDU; `none` when `apdu_parser` refuses it. -/
  | apdu (cmd : Option Command) (o : Outcome)
  | answer (confirm : Bool) (o : Outcome)
  | toggle (sw : Switch)
  | restart
deriving DecidableEq

/-- `app_main` before its loop: the memory is cleared, the stored settings are not. -/
def startUp (nvm : InternalStorage) : State where
  ctx := .zero
  nvm := nvm
  currentScreen := .parameterConfirmation
  paramIndex := 0
  paramCount := 0
  screen := .home

def step (sdk : Sdk) (s : State) : Event → Result
  | .apdu none _ => ioSendSw swWrongDataLength s
  | .apdu (some cmd) o => apduDispatcher sdk o cmd s
  | .answer confirm o => onAnswer sdk o confirm s
  | .toggle sw => ({ s with nvm := controlsCallback sw s.nvm }, [])
  | .restart => (startUp s.nvm, [])

abbrev Entry := Lib.Machine.Entry State Event (List Effect)
abbrev History := List Entry

def entry (sdk : Sdk) (s : State) (e : Event) : Entry := Lib.Machine.entry (step sdk) s e

/-- The application starts with its memory cleared and any stored settings. -/
def IsStart (s : State) : Prop := ∃ nvm, s = startUp nvm

/-- A run, whose events are restricted by `ok`. -/
abbrev Run (sdk : Sdk) (ok : History → State → Event → Prop) : History → State → Prop :=
  Lib.Machine.Run (step sdk) IsStart ok

/-- `P` holds of every step of a history, each behind the steps before it. -/
abbrev Throughout (P : History → Entry → Prop) : History → Prop := Lib.Machine.Throughout P

/-- The SDK dispatches no APDU while a review is on screen. -/
def Serial (_ : History) (s : State) : Event → Prop
  | .apdu _ _ => s.screen.isReview = false
  | _ => True

instance (hist : History) (s : State) : ∀ e, Decidable (Serial hist s e)
  | .apdu _ _ => inferInstanceAs (Decidable (s.screen.isReview = false))
  | .answer _ _ => inferInstanceAs (Decidable True)
  | .toggle _ => inferInstanceAs (Decidable True)
  | .restart => inferInstanceAs (Decidable True)

end LedgerZond.App
