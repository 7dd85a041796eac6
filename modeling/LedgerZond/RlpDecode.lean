import LedgerZond.Types

/-! # The transaction decoder

`rlp_decode.c`. A pointer into the input is its index; every access goes
through `readByte` and `readBytes`, which report one outside the input, and
every store through `memcpy`, which reports one outside the destination. The
`-1` of the sources is `none`. The eleven items are read by the same four
statements each, so they are a list of `Field`s run by `readFields`. -/
namespace LedgerZond.RlpDecode
open LedgerZond.CTypes LedgerZond.Types

/-! ## Items and headers -/

/-- `for (i = 0; i < count; i++) len = (len << 8) | input[1 + i]`, from round `i` on. -/
def readLength (t : Target) (input : List UInt8) (i : Nat) : Nat → Nat → Except Fault Nat
  | 0, len => .ok len
  | count + 1, len => do
    let b ← readByte input (1 + i)
    readLength t input (i + 1) count ((len <<< 8) % 2 ^ t.sizeBits ||| b.toNat)

/-- What a successful `parse_rlp_item` hands back: `out_data` as an index into
`input`, `out_len` and the returned `int`. -/
structure ParsedItem where
  outData : Nat
  outLen : Nat
  consumed : Int
deriving DecidableEq, Repr

/-- The long string and long list branches, which differ in the base of `len_of_len` only. -/
def parseLong (t : Target) (input : List UInt8) (inputLen lenOfLen : Nat) :
    Except Fault (Option ParsedItem) :=
  if lenOfLen > t.sub inputLen 1 then .ok none
  else do
    let len ← readLength t input 0 lenOfLen 0
    if len > t.sub (t.sub inputLen 1) lenOfLen then return none
    else return some ⟨1 + lenOfLen, len, toInt (t.add (t.add 1 lenOfLen) len)⟩

/-- `parse_rlp_item`. -/
def parseRlpItem (t : Target) (input : List UInt8) (inputLen : Nat) :
    Except Fault (Option ParsedItem) :=
  if inputLen = 0 then .ok none
  else do
    let prefixByte ← readByte input 0
    if prefixByte.toNat ≤ 0x7f then return some ⟨0, 1, 1⟩
    else if prefixByte.toNat ≤ 0xb7 then
      let len := prefixByte.toNat - 0x80
      if len > t.sub inputLen 1 then return none
      else return some ⟨1, len, toInt (t.add 1 len)⟩
    else if prefixByte.toNat ≤ 0xbf then parseLong t input inputLen (prefixByte.toNat - 0xb7)
    else if prefixByte.toNat ≤ 0xf7 then
      let len := prefixByte.toNat - 0xc0
      if t.add 1 len > inputLen then return none
      else return some ⟨1, len, toInt (t.add 1 len)⟩
    else parseLong t input inputLen (prefixByte.toNat - 0xf7)

/-- `parse_rlp_list_header`: the payload's length and the header's. -/
def parseRlpListHeader (t : Target) (input : List UInt8) (inputLen : Nat) :
    Except Fault (Option (Nat × Nat)) :=
  if inputLen = 0 then .ok none
  else do
    let prefixByte ← readByte input 0
    if prefixByte.toNat ≥ 0xc0 ∧ prefixByte.toNat ≤ 0xf7 then
      let payloadLen := prefixByte.toNat - 0xc0
      if payloadLen > t.sub inputLen 1 then return none
      else return some (payloadLen, 1)
    else if prefixByte.toNat ≥ 0xf8 then
      let lenOfLen := prefixByte.toNat - 0xf7
      if lenOfLen > t.sub inputLen 1 then return none
      else
        let len ← readLength t input 0 lenOfLen 0
        if len > t.sub inputLen (t.add 1 lenOfLen) then return none
        else return some (len, t.add 1 lenOfLen)
    else return none

/-! ## The fields of a transaction -/

/-- One of the eleven reads of `decode_ledger_tx`: its test on `val_len`, its
test on the bytes at `val_ptr`, and its store. -/
structure Field where
  lenOk : Nat → Bool
  contentOk : List UInt8 → Bool
  store : ZondTx → List UInt8 → Except Fault ZondTx

def chainId : Field where
  lenOk n := n ≤ maxFieldSize
  contentOk _ := true
  store tx val := do
    let a ← memcpy tx.chainId val
    return { tx with chainId := a, chainIdLen := UInt8.ofNat val.length }

def nonce : Field where
  lenOk n := n ≤ 8
  contentOk _ := true
  store tx val := do
    let a ← memcpy tx.nonce val
    return { tx with nonce := a, nonceLen := UInt8.ofNat val.length }

def gasTipCap : Field where
  lenOk n := n ≤ maxFieldSize
  contentOk _ := true
  store tx val := do
    let a ← memcpy tx.gasTipCap val
    return { tx with gasTipCap := a, gasTipCapLen := UInt8.ofNat val.length }

def gasFeeCap : Field where
  lenOk n := n ≤ maxFieldSize
  contentOk _ := true
  store tx val := do
    let a ← memcpy tx.gasFeeCap val
    return { tx with gasFeeCap := a, gasFeeCapLen := UInt8.ofNat val.length }

def gas : Field where
  lenOk n := n ≤ 8
  contentOk _ := true
  store tx val := do
    let a ← memcpy tx.gas val
    return { tx with gas := a, gasLen := UInt8.ofNat val.length }

/-- The recipient is zeroed first; an empty one leaves it zero. -/
def recipient : Field where
  lenOk n := n = addressLength ∨ n = 0
  contentOk _ := true
  store tx val := do
    let a ← memcpyIfAny (Bytes.zero addressLength) val
    return { tx with toAddress := a, toLen := UInt8.ofNat val.length }

def value : Field where
  lenOk n := n ≤ maxFieldSize
  contentOk _ := true
  store tx val := do
    let a ← memcpy (Bytes.zero maxFieldSize) val
    return { tx with value := a, valueLen := UInt8.ofNat val.length }

def data : Field where
  lenOk n := n ≤ maxDataSize
  contentOk _ := true
  store tx val := do
    let a ← memcpyIfAny (Bytes.zero maxDataSize) val
    return { tx with data := a, dataLen := UInt16.ofNat val.length }

/-- Any item at all; nothing is stored. -/
def accessList : Field where
  lenOk _ := true
  contentOk _ := true
  store tx _ := .ok tx

def descriptor : Field where
  lenOk n := n = 3
  contentOk val := val = [0x01, 0x00, 0x00]
  store tx val := do
    let a ← memcpy tx.descriptor val
    return { tx with descriptor := a, descriptorLen := UInt8.ofNat val.length }

def extraParams : Field where
  lenOk n := n = 0
  contentOk _ := true
  store tx _ := .ok tx

def fields : List Field :=
  [chainId, nonce, gasTipCap, gasFeeCap, gas, recipient, value, data, accessList, descriptor,
    extraParams]

/-! ## `decode_ledger_tx` -/

/-- `p` and `remaining`. -/
structure Cursor where
  p : Nat
  remaining : Nat
deriving DecidableEq, Repr

/-- One item: parse it, test it, store it, step over it. The sources drop
`remaining` after the last item; it is stepped here too and never looked at. -/
def readField (t : Target) (rlp : List UInt8) (f : Field) (c : Cursor) (tx : ZondTx) :
    Except Fault (Option Cursor × ZondTx) := do
  match ← parseRlpItem t (rlp.drop c.p) c.remaining with
  | none => return (none, tx)
  | some it =>
    if it.consumed < 0 || !f.lenOk it.outLen then return (none, tx)
    else
      let val ← readBytes (rlp.drop c.p) it.outData it.outLen
      if f.contentOk val then
        let tx' ← f.store tx val
        return (some ⟨c.p + it.consumed.toNat, t.sub c.remaining it.consumed.toNat⟩, tx')
      else return (none, tx)

def readFields (t : Target) (rlp : List UInt8) :
    List Field → Cursor → ZondTx → Except Fault (Option Cursor × ZondTx)
  | [], c, tx => .ok (some c, tx)
  | f :: fs, c, tx => do
    match ← readField t rlp f c tx with
    | (none, tx') => return (none, tx')
    | (some c', tx') => readFields t rlp fs c' tx'

/-- `decode_ledger_tx`: the returned `int` and the transaction it leaves. The
sources also refuse null pointers, which have no counterpart here. -/
def decodeLedgerTx (t : Target) (rlp : List UInt8) (tx : ZondTx) : Except Fault (Int × ZondTx) :=
  if rlp.length = 0 then .ok (-1, tx)
  else do
    let typeByte ← readByte rlp 0
    if typeByte ≠ 0x02 then return (-1, tx)
    else
      let remaining := t.sub rlp.length 1
      match ← parseRlpListHeader t (rlp.drop 1) remaining with
      | none => return (-1, tx)
      | some (listPayloadLen, listHeaderLen) =>
        let payloadEnd := 1 + listHeaderLen + listPayloadLen
        let remaining := t.sub remaining listHeaderLen
        if listPayloadLen > remaining then return (-1, tx)
        else
          match ← readFields t rlp fields ⟨1 + listHeaderLen, remaining⟩ tx with
          | (none, tx') => return (-1, tx')
          | (some c, tx') => if c.p ≠ payloadEnd then return (-1, tx') else return (0, tx')

end LedgerZond.RlpDecode
