import LedgerZond.AppState
import LedgerZond.Address
import LedgerZond.Amount

/-! # The screens

`ui/nbgl_display_transaction.c`, `ui/nbgl_display_address.c`,
`ui/ui_confirm_parameter_selector.c` and `ui/common_ui.c`, up to the answers
of the user. What a write behind a buffer does is not part of the model: the
numeral of a nonce runs out of its buffer from 10^9 on, and whatever is read off
the line of a nonce asks for one below that. -/
namespace LedgerZond.Review
open LedgerZond.CTypes LedgerZond.Types LedgerZond.Platform LedgerZond.AppState
open LedgerZond.Address LedgerZond.Amount

/-! ## `ui_display_transaction_bs_choice` -/

/-- `convert_amount_to_eth` into 30 bytes, then `"%.*s QRL"` into 35. -/
def qrlAmount (amount : List UInt8) (len : UInt8) : List Char :=
  snprintf 35 (convertAmountToEth amount len.toNat 30 ++ " QRL".toList)

/-- `g_nonce`, while the numeral fits its ten bytes. -/
def nonceText (tx : ZondTx) : List Char :=
  (uint8ArrayToDecimal tx.nonce.toList tx.nonceLen.toNat).text

/-- `g_tx_hash`: `"0x%.*s"` into 67 bytes. -/
def txHashText (mHash : Bytes 32) : List Char :=
  snprintf 67 ("0x".toList ++ bytesToHexString mHash.toList)

def txHashItem (sdk : Sdk) : String :=
  if sdk.screenSizeWallet then "Transaction hash" else "Tx hash"

/-- The pairs of a review, in its eight layouts. `from` and `to` are the
checksummed addresses. -/
def reviewPairs (sdk : Sdk) (nvm : InternalStorage) (tx : ZondTx) (mHash : Bytes 32)
    (fromText toText : List Char) : List Pair :=
  let gAmount := qrlAmount tx.value.toList tx.valueLen
  let gMaxFees := qrlAmount tx.gasFeeCap.toList tx.gasFeeCapLen
  let contractText := if tx.toLen = 0 then "Contract".toList else toText
  if nvm.displayNonce ≠ 0 ∧ nvm.displayTxHash ≠ 0 then
    if tx.dataLen > 0 then
      [("From", fromText), ("To", contractText), ("Nonce", nonceText tx), ("Max fees", gMaxFees),
       (txHashItem sdk, txHashText mHash)]
    else
      [("From", fromText), ("Amount", gAmount), ("To", toText), ("Nonce", nonceText tx),
       ("Max fees", gMaxFees), (txHashItem sdk, txHashText mHash)]
  else if nvm.displayNonce ≠ 0 then
    if tx.dataLen > 0 then
      [("From", fromText), ("To", contractText), ("Nonce", nonceText tx), ("Max fees", gMaxFees),
       (txHashItem sdk, txHashText mHash)]
    else
      [("From", fromText), ("Amount", gAmount), ("To", toText), ("Nonce", nonceText tx),
       ("Max fees", gMaxFees)]
  else if nvm.displayTxHash ≠ 0 then
    if tx.dataLen > 0 then
      [("From", fromText), ("To", contractText), ("Max fees", gMaxFees),
       (txHashItem sdk, txHashText mHash)]
    else
      [("From", fromText), ("Amount", gAmount), ("To", toText), ("Max fees", gMaxFees),
       (txHashItem sdk, txHashText mHash)]
  else
    if tx.dataLen > 0 then
      [("From", fromText), ("To", contractText), ("Max fees", gMaxFees),
       (txHashItem sdk, txHashText mHash)]
    else
      [("From", fromText), ("Amount", gAmount), ("To", toText), ("Max fees", gMaxFees)]

def uiBufferSize : Nat := 140
def toAddressSize : Nat := 1 + addressSize * 2 + 1

/-- `ui_display_transaction_bs_choice`. -/
def uiDisplayTransactionBsChoice (sdk : Sdk) (o : Outcome) (isBlindSigned : Bool) (s : State) :
    Result :=
  if s.ctx.reqType ≠ .confirmTransaction ∨ s.ctx.state ≠ .parsed then
    ioSendSw swBadState (s.setState .none)
  else
    let (error, pk, address) :=
      addressFromBip32Path sdk o.address s.ctx.bip32Path s.ctx.bip32PathLen s.nvm.pk s.ctx.address
    let s := { s with nvm := { s.nvm with pk := pk }, ctx := { s.ctx with address := address } }
    Result.after [.derive s.ctx.bip32Path s.ctx.bip32PathLen] <|
      if error ≠ cxOk then ioSendSw swDisplayAddressFail s
      else
        match formatChecksummedAddress sdk o.fromChecksum address uiBufferSize with
        | none => ioSendSw swDisplayAddressFail s
        | some fromText =>
          let tx := s.ctx.txInfo.txData
          match formatChecksummedAddress sdk o.toChecksum tx.toAddress toAddressSize with
          | none => ioSendSw swDisplayAddressFail s
          | some toText =>
            nbglUseCase (.transaction (reviewPairs sdk s.nvm tx s.ctx.txInfo.mHash fromText toText)
              isBlindSigned) s

def uiDisplayBlindSignedTransaction (sdk : Sdk) (o : Outcome) (s : State) : Result :=
  uiDisplayTransactionBsChoice sdk o true s

def uiDisplayTransaction (sdk : Sdk) (o : Outcome) (s : State) : Result :=
  uiDisplayTransactionBsChoice sdk o false s

/-! ## `ui_display_address` -/

def uiDisplayAddress (sdk : Sdk) (o : Outcome) (s : State) : Result :=
  if s.ctx.reqType ≠ .confirmAddress ∨ s.ctx.state ≠ .none then
    ioSendSw swBadState (s.setState .none)
  else
    match formatChecksummedAddress sdk o.fromChecksum s.ctx.address uiBufferSize with
    | none => ioSendSw swDisplayAddressFail s
    | some text => nbglUseCase (.address text) s

/-! ## `ui_confirm_parameter_selector.c` -/

/-- `split_binary_parameter_part`: the characters written at `result`, and how
far the caller advances, whether or not `format_hex` wrote. -/
def splitBinaryParameterPart (sdk : Sdk) (resultSize : Nat) (parameter : List UInt8) :
    List Char × Nat :=
  let i := (parameter.takeWhile (· == 0)).length
  if i = 8 then (['0', '0', '\x00'], 2)
  else ((sdk.formatHex (parameter.drop i) resultSize).getD [], (8 - i) * 2)

/-- `cs` written from index `offset` on. A write behind the end makes it longer. -/
def writeAt (buffer : List Char) (offset : Nat) (cs : List Char) : List Char :=
  buffer.take offset ++ cs ++ buffer.drop (offset + cs.length)

/-- The characters before the NUL. -/
def cString (buffer : List Char) : List Char := buffer.takeWhile (· != '\x00')

/-- One round of the loop of `buildScreen` over the eight parts of a parameter. -/
def writePart (sdk : Sdk) (parameter : List UInt8) (acc : List Char × Nat) (i : Nat) :
    List Char × Nat :=
  let (buffer, offset) := acc
  let (text, advance) :=
    splitBinaryParameterPart sdk (uiBufferSize - offset) ((parameter.drop (8 * i)).take 8)
  let buffer := writeAt buffer offset text
  let offset := offset + advance
  if i ≠ 3 then (writeAt buffer offset [':'], offset + 1) else (buffer, offset)

/-- `g_ui_buffer` when `buildScreen` shows a parameter. -/
def parameterBuffer (sdk : Sdk) (parameter : List UInt8) : List Char :=
  let buffer := ((List.range 8).foldl (writePart sdk parameter)
    (List.replicate uiBufferSize '\x00', 0)).1
  writeAt buffer ((cString buffer).length - 1) ['\x00']

/-- `g_selector` in upper case. -/
def selectorText (selector : Bytes abiSelectorSize) : List Char :=
  (bytesToHexString selector.toList).map fun c =>
    if c.toNat ≥ 65 then Char.ofNat (c.toNat - 32) else c

def buildScreen (sdk : Sdk) (confirmType : ConfirmationType) (s : State) : Result :=
  match confirmType with
  | .parameterConfirmation =>
    let calldata := s.ctx.txInfo.calldata
    let parameter := calldata.params.toList.getD s.paramIndex.toNat (.zero _)
    let text := if s.paramCount > 0 then cString (parameterBuffer sdk parameter.toList) else []
    nbglUseCase (.confirm ("Parameter", text)) s
  | .selectorConfirmation =>
    nbglUseCase (.confirm ("Selector", selectorText s.ctx.txInfo.calldata.selector)) s

def uiConfirmSelector (sdk : Sdk) (s : State) : Result := buildScreen sdk .selectorConfirmation s

def uiContractCallInit (paramCount : UInt8) (s : State) : State :=
  { s with currentScreen := .selectorConfirmation, paramIndex := 0, paramCount := paramCount }

/-! ## `ui_error_blind_signing` -/

def uiErrorBlindSigning (s : State) : Result := nbglUseCase .blindSigningError s

end LedgerZond.Review
