import LedgerZond.CTypes

/-! # Constants, the session context and the stored settings

`constants.h`, `sw.h`, `types.h` and `globals.h`. Fields nothing reads
(`pubkey_ctx_t`, `initialized`) are left out. -/
namespace LedgerZond.Types
open LedgerZond.CTypes

/-! ## `constants.h` -/

def cla : UInt8 := 0xE0
def maxTransactionLen : Nat := 2048
def zondAddressPrefix : UInt8 := 0x51
def maxDataSize : Nat := 2048
def addressSize : Nat := 64
def signatureChunkSize : Nat := 258
def signatureLastChunkSize : Nat := 241
def pkChunkSize : Nat := 258
def pkLastChunkSize : Nat := 12
def pkChunks : Nat := 11

/-! ## Sizes the SDK headers declare -/

def mldsa87SigBytes : Nat := 4627
def mldsa87PublicKeyBytes : Nat := 2592
def maxBip32Path : Nat := 10

/-! ## `sw.h` -/

def swOk : UInt16 := 0x9000
def swDeny : UInt16 := 0x6985
def swWrongP1P2 : UInt16 := 0x6A86
def swWrongDataLength : UInt16 := 0x6A87
def swInsNotSupported : UInt16 := 0x6D00
def swClaNotSupported : UInt16 := 0x6E00
def swDisplayAddressFail : UInt16 := 0xB002
def swWrongTxLength : UInt16 := 0xB004
def swTxParsingFail : UInt16 := 0xB005
def swBadState : UInt16 := 0xB007
def swSignatureFail : UInt16 := 0xB008

/-! ## `types.h` -/

def insGetVersion : UInt8 := 0x03
def insGetAppName : UInt8 := 0x04
def insGetPublicKey : UInt8 := 0x05
def insSignTx : UInt8 := 0x06

/-- `state_e`. -/
inductive SessionState where
  | none
  | parsed
  | approved
deriving DecidableEq, Repr

/-- `request_type_e`. -/
inductive RequestType where
  | confirmAddress
  | confirmTransaction
deriving DecidableEq, Repr

def addressLength : Nat := 64
def maxFieldSize : Nat := 32

/-- `zond_tx_t`. -/
structure ZondTx where
  chainId : Bytes maxFieldSize
  chainIdLen : UInt8
  nonce : Bytes 8
  nonceLen : UInt8
  gasTipCap : Bytes maxFieldSize
  gasTipCapLen : UInt8
  gasFeeCap : Bytes maxFieldSize
  gasFeeCapLen : UInt8
  gas : Bytes 8
  gasLen : UInt8
  toAddress : Bytes addressLength
  toLen : UInt8
  value : Bytes maxFieldSize
  valueLen : UInt8
  data : Bytes maxDataSize
  dataLen : UInt16
  descriptor : Bytes 3
  descriptorLen : UInt8
deriving DecidableEq

def ZondTx.zero : ZondTx where
  chainId := .zero _
  chainIdLen := 0
  nonce := .zero _
  nonceLen := 0
  gasTipCap := .zero _
  gasTipCapLen := 0
  gasFeeCap := .zero _
  gasFeeCapLen := 0
  gas := .zero _
  gasLen := 0
  toAddress := .zero _
  toLen := 0
  value := .zero _
  valueLen := 0
  data := .zero _
  dataLen := 0
  descriptor := .zero _
  descriptorLen := 0

def abiMaxParams : Nat := 16
def abiSlotSize : Nat := 64
def abiSelectorSize : Nat := 4

/-- `abi_calldata_t`. -/
structure AbiCalldata where
  selector : Bytes abiSelectorSize
  hasSelector : Bool
  paramCount : UInt8
  params : CArray (Bytes abiSlotSize) abiMaxParams
deriving DecidableEq

def AbiCalldata.zero : AbiCalldata where
  selector := .zero _
  hasSelector := false
  paramCount := 0
  params := .replicate _ (.zero _)

/-- `raw_tx` up to `raw_tx_len`: the bytes behind it are never read. -/
structure RawTx where
  bytes : List UInt8
  length_le : bytes.length ≤ maxTransactionLen
deriving DecidableEq

def RawTx.empty : RawTx := ⟨[], by decide⟩

/-- `transaction_ctx_t`. -/
structure TransactionCtx where
  rawTx : RawTx
  mHash : Bytes 32
  txData : ZondTx
  calldata : AbiCalldata
deriving DecidableEq

/-- `global_ctx_t`. -/
structure GlobalCtx where
  reqType : RequestType
  state : SessionState
  bip32Path : CArray UInt32 maxBip32Path
  bip32PathLen : UInt8
  address : Bytes addressSize
  txInfo : TransactionCtx
deriving DecidableEq

/-- The context after `explicit_bzero(&G_context, sizeof(G_context))`. -/
def GlobalCtx.zero : GlobalCtx where
  reqType := .confirmAddress
  state := .none
  bip32Path := .replicate _ 0
  bip32PathLen := 0
  address := .zero _
  txInfo := { rawTx := .empty, mHash := .zero _, txData := .zero, calldata := .zero }

/-! ## `globals.h` -/

/-- `internal_storage_t`: what survives a restart of the application. -/
structure InternalStorage where
  sig : Bytes mldsa87SigBytes
  pk : Bytes mldsa87PublicKeyBytes
  enableBlindSigning : UInt8
  displayNonce : UInt8
  displayTxHash : UInt8
  enableDebugSmartContract : UInt8
  isSendingSignature : UInt8
deriving DecidableEq

/-- A freshly installed application's. -/
def InternalStorage.zero : InternalStorage where
  sig := .zero _
  pk := .zero _
  enableBlindSigning := 0
  displayNonce := 0
  displayTxHash := 0
  enableDebugSmartContract := 0
  isSendingSignature := 0

end LedgerZond.Types
