import LedgerZond.Platform

/-! # Paths, addresses and their text

`address.c` and `bytes_to_hex_string` of `ui/ui_utils.c`. -/
namespace LedgerZond.Address
open LedgerZond.CTypes LedgerZond.Types LedgerZond.Platform

def isValidZondBip32Path (bip32Path : Path) (bip32PathLen : UInt8) : Bool :=
  match bip32Path.toList with
  | purpose :: coin :: account :: change :: index :: _ =>
    bip32PathLen == 5 && purpose == 0x8000002C && coin == 0x800000EE &&
      account &&& 0x80000000 != 0 && change &&& 0x80000000 == 0 && index &&& 0x80000000 == 0
  | _ => false

/-- The seed of a path, as `os_derive_bip32_no_throw` gets it. -/
def rawSeed (sdk : Sdk) (bip32Path : Path) (bip32PathLen : UInt8) : Bytes 64 :=
  sdk.osDeriveBip32 (bip32Path.toList.take bip32PathLen.toNat)

def publicKey (sdk : Sdk) (bip32Path : Path) (bip32PathLen : UInt8) : PublicKey :=
  (sdk.mldsaKeygen (rawSeed sdk bip32Path bip32PathLen)).1

def secretKey (sdk : Sdk) (bip32Path : Path) (bip32PathLen : UInt8) : SecretKey :=
  (sdk.mldsaKeygen (rawSeed sdk bip32Path bip32PathLen)).2

/-- `SHAKE256_XOF(descriptor || pk, 64)`. -/
def addressOf (sdk : Sdk) (pk : PublicKey) : Bytes addressSize :=
  sdk.shake256 ([0x01, 0x00, 0x00] ++ pk.toList)

/-- `-1` as a `cx_err_t`. -/
def cxFail : CxErr := 0xFFFFFFFF

/-- `address_from_bip32_path`: the error, `N_storage.pk` and `address`. -/
def addressFromBip32Path (sdk : Sdk) (o : AddressOutcome) (bip32Path : Path) (bip32PathLen : UInt8)
    (pk : PublicKey) (address : Bytes addressSize) : CxErr × PublicKey × Bytes addressSize :=
  if o.derive ≠ cxOk then (o.derive, pk, address)
  else if o.keygen ≠ cxOk then (cxFail, pk, address)
  else
    let pk := publicKey sdk bip32Path bip32PathLen
    match o.hash with
    | .failed left => (cxFail, pk, left.getD address)
    | .ok => (cxOk, pk, addressOf sdk pk)

/-! ## Text -/

def hexc (nibble : Nat) : Char := "0123456789abcdef".toList.getD nibble '0'

/-- `bytes_to_hex_string`, and the first loop of `format_checksummed_address`. -/
def bytesToHexString (src : List UInt8) : List Char :=
  src.flatMap fun b => [hexc (b.toNat >>> 4), hexc (b.toNat &&& 0x0f)]

/-- `nibble` of the casing loop. -/
def maskNibble (mask : Bytes addressSize) (i : Nat) : Nat :=
  let b := (mask.toList.getD (i / 2) 0).toNat
  if i % 2 = 0 then b >>> 4 else b &&& 0x0f

def checksumCase (mask : Bytes addressSize) (body : List Char) : List Char :=
  body.mapIdx fun i c =>
    if 'a' ≤ c ∧ c ≤ 'f' ∧ maskNibble mask i ≥ 8 then Char.ofNat (c.toNat - ('a'.toNat - 'A'.toNat))
    else c

/-- `format_checksummed_address`; `hashed` says whether its hash calls succeed. -/
def formatChecksummedAddress (sdk : Sdk) (hashed : Bool) (address : Bytes addressSize)
    (outLen : Nat) : Option (List Char) :=
  if outLen < 1 + 2 * addressSize + 1 then none
  else
    let body := bytesToHexString address.toList
    if hashed then
      let mask := sdk.shake256 (body.map fun c => UInt8.ofNat c.toNat)
      some ('Q' :: checksumCase mask body)
    else none

end LedgerZond.Address
