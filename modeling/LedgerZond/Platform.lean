import LedgerZond.Types

/-! # The device under the application

The functions of the SDK and of the operating system the sources call, none
of which is part of them: they are parameters. Whether a call that can fail
does so is not theirs to say: it is an outcome, given with the event. -/
namespace LedgerZond.Platform
open LedgerZond.CTypes LedgerZond.Types

/-- `buffer_t`, with the bytes `ptr` and `size` delimit. -/
structure Buffer where
  data : List UInt8
  offset : Nat
deriving DecidableEq

def mldsa87SecretKeyBytes : Nat := 4896

abbrev SecretKey := Bytes mldsa87SecretKeyBytes
abbrev PublicKey := Bytes mldsa87PublicKeyBytes
abbrev Signature := Bytes mldsa87SigBytes
abbrev Path := CArray UInt32 maxBip32Path

/-- The functions the sources get from the SDK. All that is relied on is that
`buffer_move` of the whole of a fresh buffer copies the whole of it. -/
structure Sdk where
  /-- `SCREEN_SIZE_WALLET`: the device has a large screen. -/
  screenSizeWallet : Bool
  bufferReadU8 : Buffer → Option (UInt8 × Buffer)
  /-- Returns, and the path it leaves, also when it fails. -/
  bufferReadBip32Path : Buffer → Path → Nat → Bool × Path × Buffer
  bufferMove : Buffer → (outLen : Nat) → Option (Bytes outLen × Buffer)
  bufferMove_fresh : ∀ data : List UInt8,
    (bufferMove ⟨data, 0⟩ data.length).map Prod.fst = some ⟨data, rfl⟩
  /-- `format_hex`: the characters written, NUL included, if the size allows. -/
  formatHex : List UInt8 → (outLen : Nat) → Option (List Char)
  keccak256 : List UInt8 → Bytes 32
  shake256 : List UInt8 → Bytes addressSize
  /-- The seed `os_derive_bip32_no_throw` derives from the first words of a path. -/
  osDeriveBip32 : List UInt32 → Bytes 64
  mldsaKeygen : Bytes 64 → PublicKey × SecretKey

/-- `cx_err_t`; zero is `CX_OK`. -/
abbrev CxErr := UInt32

def cxOk : CxErr := 0

/-- How a chain of hash calls ends: with the digest, or with an error after
which the output holds what it held, or something else. -/
inductive HashOutcome (n : Nat) where
  | ok
  | failed (left : Option (Bytes n))
deriving DecidableEq

/-- The calls of `address_from_bip32_path`. -/
structure AddressOutcome where
  derive : CxErr
  keygen : CxErr
  hash : HashOutcome addressSize
deriving DecidableEq

/-- The calls of `crypto_sign_message`. `sig` is what `MLDSA_sign` leaves. -/
structure SignOutcome where
  derive : CxErr
  keygen : CxErr
  sign : CxErr
  sig : Signature
  actualLen : Nat
  verify : CxErr
deriving DecidableEq

/-- How the calls made while one event is handled turn out; no event makes
one of them twice. -/
structure Outcome where
  keccak : HashOutcome 32
  address : AddressOutcome
  fromChecksum : Bool
  toChecksum : Bool
  sign : SignOutcome
deriving DecidableEq

/-- `command_t`: `lc` is the length of `data`, and `data` is NULL if it is zero. -/
structure Command where
  cla : UInt8
  ins : UInt8
  p1 : UInt8
  p2 : UInt8
  data : List UInt8
  lc_le : data.length ≤ 255
deriving DecidableEq

/-! ## A device to run the model on -/

/-- The buffer functions as the SDK documents them. The digests are given; a
seed, a key and an address are all zero. -/
def referenceSdk (keccak256 : List UInt8 → Bytes 32) : Sdk where
  screenSizeWallet := true
  bufferReadU8 buf :=
    (buf.data[buf.offset]?).map fun b => (b, { buf with offset := buf.offset + 1 })
  bufferReadBip32Path buf out outLen :=
    if outLen ≤ maxBip32Path ∧ buf.offset + 4 * outLen ≤ buf.data.length then
      let word i := (buf.data.drop (buf.offset + 4 * i)).take 4
      let words := (List.range outLen).map fun i =>
        UInt32.ofNat (Lib.BigEndian.value (word i))
      (true, out.overlay words, { buf with offset := buf.offset + 4 * outLen })
    else (false, out, buf)
  bufferMove buf outLen :=
    if h : (buf.data.drop buf.offset).length = outLen then
      some (⟨buf.data.drop buf.offset, h⟩, { buf with offset := buf.offset + outLen })
    else none
  bufferMove_fresh data := by simp
  formatHex bytes outLen :=
    if outLen < 2 * bytes.length + 1 then none
    else
      let hexDigit n := "0123456789ABCDEF".toList.getD n '0'
      some (bytes.flatMap (fun b => [hexDigit (b.toNat / 16), hexDigit (b.toNat % 16)]) ++ ['\x00'])
  keccak256 := keccak256
  shake256 _ := .zero _
  osDeriveBip32 _ := .zero _
  mldsaKeygen _ := (.zero _, .zero _)

/-- Every call succeeds. -/
def Outcome.good (sig : Signature) : Outcome where
  keccak := .ok
  address := { derive := cxOk, keygen := cxOk, hash := .ok }
  fromChecksum := true
  toChecksum := true
  sign := { derive := cxOk, keygen := cxOk, sign := cxOk, sig := sig, actualLen := mldsa87SigBytes,
            verify := cxOk }

end LedgerZond.Platform
