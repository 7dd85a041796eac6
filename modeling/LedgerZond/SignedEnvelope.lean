import LedgerZond.QrlTx

/-! # The signed envelope

What `tests/e2e/broadcast.mjs` makes of the parameters, a signature and a key:
thirteen items, of which the first eleven are those of the preimage. A reader
of the format gets back just what went in, and the device, which takes eleven
items and no more, takes no envelope for a preimage. -/
namespace LedgerZond.SignedEnvelope
open LedgerZond.CTypes LedgerZond.Types LedgerZond.RlpDecode LedgerZond.DecodeGrammar
open LedgerZond.TxGrammar LedgerZond.QrlTx
open Lib.Rlp Lib.BigEndian

/-- The `fields` of `encodeSignedTx`. -/
def signedFields (params : Params) (signature publicKey : List UInt8) : List (List UInt8) :=
  [rlpBytes (intToBytes params.chainId),
   rlpBytes (intToBytes params.nonce),
   rlpBytes (intToBytes params.tip),
   rlpBytes (intToBytes params.feeCap),
   rlpBytes (intToBytes params.gas),
   rlpBytes params.toAddress,
   rlpBytes (intToBytes params.value),
   rlpBytes (params.data.getD []),
   rlpList [],
   rlpBytes [1, 0, 0],
   rlpBytes [],
   rlpBytes signature,                          -- 4627 bytes
   rlpBytes publicKey]                          -- 2592 bytes

def encodeSignedTx (params : Params) (signature publicKey : List UInt8) : List UInt8 :=
  [0x02] ++ rlpList (signedFields params signature publicKey)

/-- The thirteen items of an envelope. -/
def signedItems (params : Params) (signature publicKey : List UInt8) : List Item :=
  preimageItems params ++ [stringItem signature, stringItem publicKey]

/-- The greatest length of a `Uint8Array`. -/
def maxArrayLen : Nat := 2 ^ 53 - 1

variable {params params' : Params} {signature signature' publicKey publicKey' b : List UInt8}
  {its its' : List Item}

/-! ## Reading -/

/-- Behind the type byte is one list, of just these items. -/
structure Reads (b : List UInt8) (its : List Item) : Prop where
  typeByte : b.head? = some 0x02
  list : ∃ lst, item? value (b.drop 1) = some (lst, []) ∧ lst.kind = .list ∧
    items? value its.length lst.payload = some (its, [])

/-- Bytes read back as one list of items only. -/
theorem Reads.unique (h : Reads b its) (h' : Reads b its') : its = its' := by
  obtain ⟨lst, hlst, -, hits⟩ := h.list
  obtain ⟨lst', hlst', -, hits'⟩ := h'.list
  cases hlst.symm.trans hlst'
  rw [items?_whole hits hits'] at hits
  cases hits.symm.trans hits'
  rfl

theorem length_le_rlpList {fields : List (List UInt8)} {field : List UInt8} (h : field ∈ fields) :
    field.length ≤ (rlpList fields).length := by
  have hflat : field.length ≤ fields.flatten.length :=
    (List.sublist_flatten_of_mem h).length_le
  rw [rlpList_eq]
  exact hflat.trans (length_le_frame .list fields.flatten)

/-- A string that is not longer than an array can be is read back. -/
theorem rlpBytes_reads (h : b.length ≤ maxArrayLen) (rest : List UInt8) :
    item? value (rlpBytes b ++ rest) = some (stringItem b, rest) := by
  have hmax : maxArrayLen < 256 ^ 8 := by decide
  rw [rlpBytes_eq]
  exact item?_encodeString rest (Nat.lt_of_le_of_lt h hmax) fun _ => value_minimal _

theorem length_le_rlpBytes (b : List UInt8) : b.length ≤ (rlpBytes b).length := by
  rw [rlpBytes_eq]
  exact length_le_encodeString b

/-- A list of fields is read back as the items its fields are. -/
theorem rlpList_reads {fields : List (List UInt8)} (hlen : (rlpList fields).length ≤ maxArrayLen)
    (h : List.Forall₂ (fun field it => ∀ rest, item? value (field ++ rest) = some (it, rest))
      fields its) : Reads ([0x02] ++ rlpList fields) its := by
  have hmax : maxArrayLen < 256 ^ 8 := by decide
  have hpayload : fields.flatten.length ≤ maxArrayLen := by
    rw [rlpList_eq] at hlen
    exact (length_le_frame .list fields.flatten).trans hlen
  have hlist := @item?_frame value .list _ [] (Nat.lt_of_le_of_lt hpayload hmax)
    fun _ => value_minimal _
  rw [List.append_nil, ← encodeList, ← rlpList_eq] at hlist
  have hits := items?_flatten h
  rw [h.length_eq] at hits
  exact ⟨rfl, _, hlist, rfl, hits⟩

theorem encodeSignedTx_readsItems
    (hlen : (encodeSignedTx params signature publicKey).length ≤ maxArrayLen) :
    Reads (encodeSignedTx params signature publicKey) (signedItems params signature publicKey) := by
  have hlist : (rlpList (signedFields params signature publicKey)).length ≤ maxArrayLen := by
    rw [encodeSignedTx, List.length_append] at hlen
    omega
  have hbytes : ∀ {b}, rlpBytes b ∈ signedFields params signature publicKey → ∀ rest,
      item? value (rlpBytes b ++ rest) = some (stringItem b, rest) := fun hb =>
    rlpBytes_reads (((length_le_rlpBytes _).trans (length_le_rlpList hb)).trans hlist)
  have hint : ∀ {n}, rlpBytes (intToBytes n) ∈ signedFields params signature publicKey → ∀ rest,
      item? value (rlpBytes (intToBytes n) ++ rest) = some (stringItem (minimal n), rest) := by
    intro n hn rest
    rw [hbytes hn, intToBytes_eq]
  have hempty : ∀ rest, item? value (rlpList [] ++ rest) = some (⟨.list, [], []⟩, rest) :=
    fun rest => item?_frame .list rest (by simp) (by simp)
  refine rlpList_reads hlist ?_
  simp only [signedFields, List.mem_cons] at hbytes hint
  exact .cons (hint (by simp)) <| .cons (hint (by simp)) <| .cons (hint (by simp)) <|
    .cons (hint (by simp)) <| .cons (hint (by simp)) <| .cons (hbytes (by simp)) <|
    .cons (hint (by simp)) <| .cons (hbytes (by simp)) <| .cons hempty <|
    .cons (hbytes (by simp)) <| .cons (hbytes (by simp)) <| .cons (hbytes (by simp)) <|
    .cons (hbytes (by simp)) .nil

/-! ## What the items say -/

/-- The same transaction: data that is left out is empty data. -/
structure SameParams (params params' : Params) : Prop where
  chainId : params.chainId = params'.chainId
  nonce : params.nonce = params'.nonce
  tip : params.tip = params'.tip
  feeCap : params.feeCap = params'.feeCap
  gas : params.gas = params'.gas
  toAddress : params.toAddress = params'.toAddress
  value : params.value = params'.value
  data : params.data.getD [] = params'.data.getD []

theorem minimal_injective {m n : Nat} (h : minimal m = minimal n) : m = n := by
  rw [← value_minimal m, h, value_minimal]

theorem stringItem_injective {x y : List UInt8} (h : stringItem x = stringItem y) : x = y :=
  congrArg Item.payload h

theorem preimageItems_injective (h : preimageItems params = preimageItems params') :
    SameParams params params' := by
  simp only [preimageItems, List.cons.injEq] at h
  obtain ⟨h1, h2, h3, h4, h5, h6, h7, h8, -⟩ := h
  exact ⟨minimal_injective (stringItem_injective h1), minimal_injective (stringItem_injective h2),
    minimal_injective (stringItem_injective h3), minimal_injective (stringItem_injective h4),
    minimal_injective (stringItem_injective h5), stringItem_injective h6,
    minimal_injective (stringItem_injective h7), stringItem_injective h8⟩

/-- **An envelope reads back** as its thirteen items, and says which
transaction, which signature and which key it was made of. -/
theorem encodeSignedTx_reads
    (hlen : (encodeSignedTx params signature publicKey).length ≤ maxArrayLen) :
    Reads (encodeSignedTx params signature publicKey) (signedItems params signature publicKey) ∧
      ∀ params' signature' publicKey',
        encodeSignedTx params' signature' publicKey' = encodeSignedTx params signature publicKey →
        SameParams params params' ∧ signature = signature' ∧ publicKey = publicKey' := by
  have hreads := encodeSignedTx_readsItems hlen
  refine ⟨hreads, ?_⟩
  intro params' signature' publicKey' heq
  have hother : Reads (encodeSignedTx params signature publicKey)
      (signedItems params' signature' publicKey') := by
    rw [← heq]
    exact encodeSignedTx_readsItems (by rw [heq]; exact hlen)
  obtain ⟨hpre, hlast⟩ := List.append_inj (hreads.unique hother) rfl
  simp only [List.cons.injEq, and_true] at hlast
  exact ⟨preimageItems_injective hpre, stringItem_injective hlast.1, stringItem_injective hlast.2⟩

theorem creation_reads :
    Reads (encodeSignedTx contractCreation [1, 2] [3])
        (signedItems contractCreation [1, 2] [3]) ∧
      ∀ params' signature' publicKey',
        encodeSignedTx params' signature' publicKey' = encodeSignedTx contractCreation [1, 2] [3] →
        SameParams contractCreation params' ∧ [1, 2] = signature' ∧ [3] = publicKey' :=
  encodeSignedTx_reads (by decide)

/-! ## The device and the envelope -/

/-- Bytes that are one list are accepted with eleven items or not at all. -/
theorem eleven_of_accepted {t : Target} {prior tx : ZondTx} (h : Reads b its)
    (hb : b.length ≤ intMax) (hdec : decodeLedgerTx t b prior = .ok (0, tx)) : its.length = 11 := by
  obtain ⟨lst, eleven, htx⟩ := (accepted_iff_isTx prior hb).mp ⟨tx, hdec⟩
  obtain ⟨lst', hlst', -, hits'⟩ := h.list
  obtain ⟨rest, hlst⟩ := htx.list
  have hmax := t.intMax_lt
  have hbehind : (b.drop 1).length ≤ b.length := by simp
  -- no length the bytes announce is longer than they are, so none of them wraps
  have hwhole : (item? t.wrap (b.drop 1)) = some (lst', []) := by
    refine item?_congr hlst' fun hne => t.wrap_eq ?_
    have hshort := item?_payload_length hlst'
    rw [item?_lenBytes hlst' hne]
    omega
  cases hlst.symm.trans hwhole
  have hpayload := item?_payload_length hlst'
  have hagree : items? t.wrap its.length lst.payload = some (its, []) := by
    refine items?_congr hits' fun it hit hne => t.wrap_eq ?_
    have hle := items?_lenBytes hits' it hit hne
    omega
  exact items?_whole hagree htx.items

/-- **The device signs no envelope**: whatever was put into one, the device
takes it for no preimage. -/
theorem encodeSignedTx_refused (t : Target) (prior tx : ZondTx)
    (hlen : (encodeSignedTx params signature publicKey).length ≤ intMax) :
    decodeLedgerTx t (encodeSignedTx params signature publicKey) prior ≠ .ok (0, tx) := by
  intro hdec
  have hmax : intMax ≤ maxArrayLen := by decide
  have h := eleven_of_accepted (encodeSignedTx_readsItems (hlen.trans hmax)) hlen hdec
  exact absurd h (by simp [signedItems, preimageItems])

theorem creation_refused :
    decodeLedgerTx .device (encodeSignedTx contractCreation [1, 2] [3]) .zero ≠ .ok (0, .zero) :=
  encodeSignedTx_refused .device .zero .zero (by decide)

end LedgerZond.SignedEnvelope
