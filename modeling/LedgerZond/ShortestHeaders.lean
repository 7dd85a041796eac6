import LedgerZond.ItemKinds
import LedgerZond.Lib.RlpShortest
import LedgerZond.QrlTx
import LedgerZond.SignedBytes
import Mathlib.Tactic.IntervalCases

/-! # Headers that are not the shortest

The parsers take every header whose payload is there, also one the encoder
never writes: a byte below 0x80 behind 0x81, length bytes for a payload that
needs none, with zeros in front or with high bytes that a `size_t` drops. The
bytes of an accepted transaction, which are hashed as they came in, are the
preimage of its fields exactly where it has none of these. -/
namespace LedgerZond.ShortestHeaders
open LedgerZond.CTypes LedgerZond.Types LedgerZond.RlpDecode LedgerZond.RlpDecodeSoundness
open LedgerZond.TxGrammar LedgerZond.DecodeGrammar LedgerZond.ItemKinds LedgerZond.QrlTx
open LedgerZond.Platform LedgerZond.AppState LedgerZond.App LedgerZond.Requests
open LedgerZond.Displays LedgerZond.Steps LedgerZond.SignedBytes Lib.Rlp Lib.BigEndian

/-! ## Shortest headers -/

/-- How many length bytes a first byte asks for. -/
def lenOfLen (b : UInt8) : Nat :=
  if 0xb8 ≤ b.toNat ∧ b.toNat ≤ 0xbf then b.toNat - 0xb7
  else if 0xf8 ≤ b.toNat then b.toNat - 0xf7
  else 0

/-- The length bytes at the front of an input. -/
def lengthBytes : List UInt8 → List UInt8
  | [] => []
  | b :: rest => rest.take (lenOfLen b)

/-- The header at the front of an input is the one an encoder writes. -/
structure ShortestHeader (t : Target) (input : List UInt8) : Prop where
  /-- A byte below 0x80 is not put behind 0x81. -/
  unwrapped : ∀ b rest, input = 0x81 :: b :: rest → 0x80 ≤ b.toNat
  noZero : (lengthBytes input).head? ≠ some 0
  long : lengthBytes input ≠ [] → 56 ≤ value (lengthBytes input)
  fits : value (lengthBytes input) < 2 ^ t.sizeBits

/-- The encoding of a payload under the kind its prefix tells. -/
def encodingOf (prefixByte : UInt8) (payload : List UInt8) : List UInt8 :=
  if prefixByte.toNat < 0xc0 then rlpBytes payload else rlpList [payload]

/-- What the parsers take from the front of an input, header and payload, is
the encoding of the payload. -/
structure OnlyCanonical (t : Target) (input : List UInt8) : Prop where
  item : ∀ it, parseRlpItem t input input.length = .ok (some it) →
    input.take (it.outData + it.outLen) =
      encodingOf (input.headD 0) ((input.drop it.outData).take it.outLen)
  list : ∀ payloadLen headerLen,
    parseRlpListHeader t input input.length = .ok (some (payloadLen, headerLen)) →
    input.take (headerLen + payloadLen) = rlpList [(input.drop headerLen).take payloadLen]

variable {t : Target} {input raw payload rest : List UInt8} {it lst : Item}

theorem lenOfLen_short (k : Kind) {n : Nat} (h : n ≤ 55) :
    lenOfLen (UInt8.ofNat (k.short + n)) = 0 := by
  unfold lenOfLen
  cases k with
  | string =>
    have hbyte : (UInt8.ofNat (Kind.string.short + n)).toNat = 0x80 + n := by
      rw [UInt8.toNat_ofNat', Kind.short]
      omega
    rw [hbyte, if_neg (by omega), if_neg (by omega)]
  | list =>
    have hbyte : (UInt8.ofNat (Kind.list.short + n)).toNat = 0xc0 + n := by
      rw [UInt8.toNat_ofNat', Kind.short]
      omega
    rw [hbyte, if_neg (by omega), if_neg (by omega)]

theorem lenOfLen_long (k : Kind) {n : Nat} (h0 : n ≠ 0) (h8 : n ≤ 8) :
    lenOfLen (UInt8.ofNat (k.long + n)) = n := by
  unfold lenOfLen
  cases k with
  | string =>
    have hbyte : (UInt8.ofNat (Kind.string.long + n)).toNat = 0xb7 + n := by
      rw [UInt8.toNat_ofNat', Kind.long]
      omega
    rw [hbyte, if_pos (by omega)]
    omega
  | list =>
    have hbyte : (UInt8.ofNat (Kind.list.long + n)).toNat = 0xf7 + n := by
      rw [UInt8.toNat_ofNat', Kind.long]
      omega
    rw [hbyte, if_neg (by omega), if_pos (by omega)]
    omega

theorem lengthBytes_headerBytes (k : Kind) {lenBytes : List UInt8} {n : Nat}
    (h : Announces t.wrap lenBytes n) (rest : List UInt8) :
    lengthBytes (headerBytes k lenBytes n ++ rest) = lenBytes := by
  rw [headerBytes, List.cons_append, lengthBytes]
  by_cases hnil : lenBytes = []
  · rw [if_pos hnil, lenOfLen_short k (h.short hnil), hnil]
    rfl
  · have hpos := List.length_pos_iff.mpr hnil
    rw [if_neg hnil, lenOfLen_long k (by omega) h.length_le, List.take_left']
    rfl

/-- Length bytes are the encoder's where they have no zero in front and their
number is the length, and one that needs them. -/
theorem lenBytes_eq_iff (hann : Announces t.wrap it.lenBytes it.payload.length)
    (hlen : it.payload.length < 2 ^ t.sizeBits) : it.lenBytes = lenBytesOf it.payload ↔
      it.lenBytes.head? ≠ some 0 ∧ (it.lenBytes ≠ [] → 56 ≤ value it.lenBytes) ∧
        value it.lenBytes < 2 ^ t.sizeBits := by
  by_cases hnil : it.lenBytes = []
  · have hshort := hann.short hnil
    rw [lenBytesOf, if_pos hshort, hnil]
    simp
  · have hwrap := hann.long hnil
    constructor
    · intro heq
      unfold lenBytesOf at heq
      split at heq
      · exact absurd heq hnil
      · rw [heq, value_minimal]
        exact ⟨minimal_head _, fun _ => by omega, hlen⟩
    · rintro ⟨hzero, hlong, hfits⟩
      rw [t.wrap_eq hfits] at hwrap
      have h56 := hlong hnil
      rw [lenBytesOf, if_neg (by omega), ← hwrap, minimal_value hzero]

/-- A header of one byte before a payload of one byte is 0x81. -/
theorem unwrapped_iff {k : Kind} {p : List UInt8} (hp : p.length ≤ 55) :
    (∀ b rest', headerBytes k [] p.length ++ p ++ rest = 0x81 :: b :: rest' → 0x80 ≤ b.toNat) ↔
      ¬(k = .string ∧ isSingle p = true) := by
  have hhead : headerBytes k [] p.length = [UInt8.ofNat (k.short + p.length)] := by
    rw [headerBytes, if_pos rfl]
  rw [hhead]
  constructor
  · rintro hunwrapped ⟨rfl, hs⟩
    obtain ⟨b, rfl, hb⟩ := isSingle_iff.mp hs
    have h80 := hunwrapped b rest rfl
    omega
  · intro hno b rest' heq
    by_contra hb
    have hbyte := congrArg UInt8.toNat (List.cons.inj heq).1
    rw [UInt8.toNat_ofNat'] at hbyte
    change (k.short + p.length) % 2 ^ 8 = 0x81 at hbyte
    cases k with
    | list =>
      rw [Kind.short] at hbyte
      omega
    | string =>
      rw [Kind.short] at hbyte
      obtain ⟨x, rfl⟩ := List.length_eq_one_iff.mp (show p.length = 1 by omega)
      have hx : x = b := (List.cons.inj (List.cons.inj heq).2).1
      exact hno ⟨rfl, isSingle_iff.mpr ⟨b, by rw [hx], by omega⟩⟩

/-- A header with length bytes is not 0x81. -/
theorem unwrapped_of_long {k : Kind} {lenBytes : List UInt8} {n : Nat}
    (hann : Announces t.wrap lenBytes n) (hne : lenBytes ≠ []) {b : UInt8} {rest' : List UInt8} :
    headerBytes k lenBytes n ++ rest ≠ 0x81 :: b :: rest' := by
  intro heq
  have hbyte := congrArg UInt8.toNat (List.cons.inj heq).1
  have h8 := hann.length_le
  rw [if_neg hne, UInt8.toNat_ofNat'] at hbyte
  change (k.long + lenBytes.length) % 2 ^ 8 = 0x81 at hbyte
  cases k with
  | string =>
    rw [Kind.long] at hbyte
    omega
  | list =>
    rw [Kind.long] at hbyte
    omega

/-- The encoder's bytes, by the length bytes and by what is behind 0x81. -/
theorem encodes_iff (hann : Announces t.wrap it.lenBytes it.payload.length) :
    headerBytes it.kind it.lenBytes it.payload.length ++ it.payload = encodeItem it ↔
      (∀ b rest', headerBytes it.kind it.lenBytes it.payload.length ++ it.payload ++ rest =
        0x81 :: b :: rest' → 0x80 ≤ b.toNat) ∧ it.lenBytes = lenBytesOf it.payload := by
  rw [eq_encodeItem_iff hann]
  by_cases hnil : it.lenBytes = []
  · rw [hnil, unwrapped_iff (hann.short hnil)]
    exact and_comm
  · constructor
    · rintro ⟨heq, -⟩
      refine ⟨fun b rest' hbytes => ?_, heq⟩
      rw [List.append_assoc] at hbytes
      exact absurd hbytes (unwrapped_of_long hann hnil)
    · rintro ⟨-, heq⟩
      refine ⟨heq, fun hs => ?_⟩
      obtain ⟨b, hpay, -⟩ := isSingle_iff.mp hs.2
      have hone : it.payload.length = 1 := by rw [hpay, List.length_singleton]
      rw [heq, lenBytesOf, if_pos (by omega)] at hnil
      exact hnil rfl

/-- **A shortest header** is what makes an item's bytes the encoder's. -/
theorem shortestHeader_iff (hread : item? t.wrap input = some (it, rest))
    (hlen : input.length < 2 ^ t.sizeBits) :
    ShortestHeader t input ↔ input = encodeItem it ++ rest := by
  rcases item?_cases hread with ⟨b, hb, rfl, rfl⟩ | ⟨hann, rfl⟩
  · have hnone : lenOfLen b = 0 := by
      rw [lenOfLen, if_neg (by omega), if_neg (by omega)]
    have henc : encodeItem (byteItem b) = [b] := by
      have hs : isSingle [b] = true := isSingle_iff.mpr ⟨b, rfl, by omega⟩
      show encodeString [b] = [b]
      rw [encodeString, if_pos hs]
    rw [henc]
    refine iff_of_true ⟨?_, ?_, ?_, ?_⟩ rfl
    · intro x rest' heq
      rw [(List.cons.inj heq).1] at hb
      exact absurd hb (by decide)
    · simp [lengthBytes, hnone]
    · simp [lengthBytes, hnone]
    · simp [lengthBytes, hnone]
  · have hbytes : lengthBytes (headerBytes it.kind it.lenBytes it.payload.length ++ it.payload ++
        rest) = it.lenBytes := by
      rw [List.append_assoc]
      exact lengthBytes_headerBytes it.kind hann _
    have hpay : it.payload.length < 2 ^ t.sizeBits := by
      simp only [List.length_append] at hlen
      omega
    rw [List.append_cancel_right_eq, encodes_iff hann, lenBytes_eq_iff hann hpay]
    constructor
    · rintro ⟨hwrap, hzero, hlong, hfits⟩
      rw [hbytes] at hzero hlong hfits
      exact ⟨hwrap, hzero, hlong, hfits⟩
    · rintro ⟨hwrap, hzero, hlong, hfits⟩
      rw [← hbytes] at hzero hlong hfits
      exact ⟨hwrap, hzero, hlong, hfits⟩

/-! ## What the parsers take -/

theorem encodingOf_eq (hread : item? t.wrap input = some (it, rest)) :
    encodingOf (input.headD 0) it.payload = encodeItem it := by
  have hk := item?_kind hread
  unfold encodingOf encodeItem
  cases hkind : it.kind with
  | string =>
    rw [if_pos (hk.mpr hkind), rlpBytes_eq]
  | list =>
    rw [if_neg (fun hlt => by rw [hk.mp hlt] at hkind; cases hkind), rlpList_eq, encodeList,
      List.flatten_singleton]

/-- The bytes taken for an item, where its header is shortest. -/
theorem taken_eq {hd : Header} (hlen : input.length < 2 ^ t.sizeBits)
    (hh : header? t.wrap input = some hd) (hle : hd.size + hd.payloadLen ≤ input.length) :
    ShortestHeader t input ↔ input.take (hd.size + hd.payloadLen) =
      encodingOf (input.headD 0) ((input.drop hd.size).take hd.payloadLen) := by
  have hread := item?_of_header hh hle
  have henc := encodingOf_eq hread
  rw [shortestHeader_iff hread hlen, ← henc]
  constructor
  · intro heq
    have hsplit := (List.take_append_drop (hd.size + hd.payloadLen) input).trans heq
    exact List.append_cancel_right hsplit
  · intro htake
    rw [← htake, List.take_append_drop]

/-- **The headers that are taken** are canonical exactly where they are shortest. -/
theorem onlyCanonical_iff (hlen : input.length < 2 ^ t.sizeBits) :
    OnlyCanonical t input ↔ ((item? t.wrap input).isSome → ShortestHeader t input) := by
  constructor
  · intro hcanonical hsome
    obtain ⟨⟨it, rest⟩, hread⟩ := Option.isSome_iff_exists.mp hsome
    obtain ⟨hd, hh, hle, -, -⟩ := item?_eq_some hread
    rw [taken_eq hlen hh hle]
    exact hcanonical.item _ ((parseRlpItem_eq_some_iff hlen).mpr ⟨hd, hh, hle, rfl⟩)
  · intro hshortest
    have htaken : ∀ hd, header? t.wrap input = some hd → hd.size + hd.payloadLen ≤ input.length →
        input.take (hd.size + hd.payloadLen) =
          encodingOf (input.headD 0) ((input.drop hd.size).take hd.payloadLen) := by
      intro hd hh hle
      refine (taken_eq hlen hh hle).mp (hshortest ?_)
      rw [item?_of_header hh hle]
      rfl
    refine ⟨fun p hp => ?_, fun payloadLen headerLen hp => ?_⟩
    · obtain ⟨hd, hh, hle, rfl⟩ := (parseRlpItem_eq_some_iff hlen).mp hp
      exact htaken hd hh hle
    · obtain ⟨hd, hh, hk, hle, heq⟩ := (parseRlpListHeader_eq_some_iff hlen).mp hp
      rw [Prod.mk.injEq] at heq
      obtain ⟨rfl, rfl⟩ := heq
      rw [htaken hd hh hle, encodingOf, if_neg]
      intro hstring
      have hkind := (item?_kind (item?_of_header hh hle)).mp hstring
      rw [hk] at hkind
      cases hkind

/-! ## One payload, one string -/

/-- The whole of `raw` is accepted as a string item with that payload. -/
def StringItem (t : Target) (raw payload : List UInt8) : Prop :=
  (raw.headD 0).toNat < 0xc0 ∧ ∃ it, parseRlpItem t raw raw.length = .ok (some it) ∧
    it.outData + it.outLen = raw.length ∧ raw.drop it.outData = payload

theorem stringItem_iff (hlen : raw.length < 2 ^ t.sizeBits) : StringItem t raw payload ↔
    ∃ lenBytes, item? t.wrap raw = some (⟨.string, lenBytes, payload⟩, []) := by
  constructor
  · rintro ⟨hfront, it, hp, hwhole, rfl⟩
    obtain ⟨hd, hh, hle, rfl⟩ := (parseRlpItem_eq_some_iff hlen).mp hp
    have hwhole' : hd.size + hd.payloadLen = raw.length := hwhole
    have hread := item?_of_header hh hle
    have hk : hd.kind = .string := (item?_kind hread).mp hfront
    refine ⟨hd.lenBytes, ?_⟩
    rw [hread, hk, hwhole', List.drop_length,
      List.take_of_length_le (by rw [List.length_drop]; omega)]
    rfl
  · rintro ⟨lenBytes, hread⟩
    obtain ⟨hd, hh, hle, hit, hrest⟩ := item?_eq_some hread
    have hwhole := congrArg List.length hrest
    rw [List.length_nil, List.length_drop] at hwhole
    refine ⟨(item?_kind hread).mpr rfl, parsedOf hd,
      (parseRlpItem_eq_some_iff hlen).mpr ⟨hd, hh, hle, rfl⟩,
      by show hd.size + hd.payloadLen = raw.length; omega, ?_⟩
    rw [Item.mk.injEq] at hit
    rw [hit.2.2, List.take_of_length_le (by rw [List.length_drop]; omega)]
    rfl

theorem wrap_modest (t : Target) : Modest t.wrap := fun _ => Nat.mod_le _ _

/-- The encoder's string is accepted, with the shortest header. -/
theorem rlpBytes_stringItem (hlen : payload.length < 2 ^ t.sizeBits)
    (henc : (rlpBytes payload).length < 2 ^ t.sizeBits) :
    StringItem t (rlpBytes payload) payload ∧ ShortestHeader t (rlpBytes payload) := by
  have hbits : 2 ^ t.sizeBits ≤ 256 ^ 8 := by cases t <;> decide
  have hread : item? t.wrap (rlpBytes payload) =
      some (⟨.string, lenBytesOf payload, payload⟩, []) := by
    have hround := @item?_encodeString t.wrap payload [] (by omega) fun _ => by
      rw [t.wrap_eq (by rwa [value_minimal]), value_minimal]
    rwa [List.append_nil, ← rlpBytes_eq] at hround
  refine ⟨(stringItem_iff henc).mpr ⟨_, hread⟩, (shortestHeader_iff hread henc).mpr ?_⟩
  rw [List.append_nil, rlpBytes_eq]
  rfl

/-- **Of the strings with one payload** one alone has the shortest header. -/
theorem stringItem_unique_iff (hraw : raw.length < 2 ^ t.sizeBits) (h : StringItem t raw payload) :
    (∀ raw', raw'.length < 2 ^ t.sizeBits → StringItem t raw' payload → ShortestHeader t raw' →
      raw' = raw) ↔ ShortestHeader t raw := by
  obtain ⟨lenBytes, hread⟩ := (stringItem_iff hraw).mp h
  have hle := encodeString_shortest (wrap_modest t) hread le_rfl le_rfl
  have hpay : payload.length ≤ raw.length := by
    obtain ⟨hd, -, hle', hit, -⟩ := item?_eq_some hread
    rw [Item.mk.injEq] at hit
    rw [hit.2.2, List.length_take, List.length_drop]
    omega
  have henc : (rlpBytes payload).length < 2 ^ t.sizeBits := by
    rw [rlpBytes_eq]
    exact lt_of_le_of_lt hle hraw
  obtain ⟨hitem, hshortest⟩ := rlpBytes_stringItem (lt_of_le_of_lt hpay hraw) henc
  constructor
  · intro honly
    rw [← honly _ henc hitem hshortest]
    exact hshortest
  · intro hshort raw' hraw' h' hshort'
    obtain ⟨lenBytes', hread'⟩ := (stringItem_iff hraw').mp h'
    rw [(shortestHeader_iff hread hraw).mp hshort, (shortestHeader_iff hread' hraw').mp hshort']
    rfl

/-! ## The preimage of the fields -/

/-- The numbers, the recipient and the data of a decoded transaction. -/
def paramsOf (tx : ZondTx) : Params where
  chainId := value (tx.chainId.toList.take tx.chainIdLen.toNat)
  nonce := value (tx.nonce.toList.take tx.nonceLen.toNat)
  tip := value (tx.gasTipCap.toList.take tx.gasTipCapLen.toNat)
  feeCap := value (tx.gasFeeCap.toList.take tx.gasFeeCapLen.toNat)
  gas := value (tx.gas.toList.take tx.gasLen.toNat)
  toAddress := tx.toAddress.toList.take tx.toLen.toNat
  value := value (tx.value.toList.take tx.valueLen.toNat)
  data := some (tx.data.toList.take tx.dataLen.toNat)

/-- The items that are integers. -/
def IsInteger (i : Nat) : Prop := i < 5 ∨ i = 6

/-- Bytes as an encoder of transactions without an access list writes them: a
list with nothing behind it, strings, and the shortest headers and integers. -/
structure CanonicalTx (t : Target) (b : List UInt8) (lst : Item) (its : List Item)
    (raws : List (List UInt8)) : Prop where
  isTx : IsTx t.wrap b lst its
  whole : item? t.wrap (b.drop 1) = some (lst, [])
  header : ShortestHeader t (b.drop 1)
  cut : lst.payload = raws.flatten ∧ ItemsOf t.wrap raws its
  noAccess : raws[8]? = some [0xc0]
  strings : ∀ i raw it, raws[i]? = some raw → its[i]? = some it → IsByteField i →
    it.kind = .string ∧ ShortestHeader t raw
  integers : ∀ i it, its[i]? = some it → IsInteger i → it.payload.head? ≠ some 0

def CanonicalPreimage (t : Target) (b : List UInt8) : Prop :=
  ∃ lst its raws, CanonicalTx t b lst its raws

variable {b : List UInt8} {prior tx : ZondTx} {its : List Item} {raws : List (List UInt8)}
  {params : Params}

theorem preimageFields_eq (params : Params) :
    preimageFields params = (preimageItems params).map encodeItem := by
  simp only [preimageFields, preimageItems, rlpBytes_eq, intToBytes_eq]
  rfl

theorem preimageItems_string {i : Nat} (hi : IsByteField i)
    (hit : (preimageItems params)[i]? = some it) : it.kind = .string := by
  obtain ⟨hlt, h8⟩ := hi
  interval_cases i
  all_goals first | exact absurd rfl h8 | (cases hit; rfl)

theorem preimageItems_integer {i : Nat} (hi : IsInteger i)
    (hit : (preimageItems params)[i]? = some it) : it.payload.head? ≠ some 0 := by
  have hlt : i < 7 := by rcases hi with h | h <;> omega
  interval_cases i
  all_goals first | (cases hit; exact minimal_head _) | (rcases hi with h | h <;> omega)

/-- The encoder's bytes are canonical. -/
theorem encodeUnsignedPreimage_canonical (t : Target) (h : params.InRange) :
    CanonicalPreimage t (encodeUnsignedPreimage params) := by
  obtain ⟨hlen, lst, htx⟩ := encodeUnsignedPreimage_isTx t h
  have hbits := t.intMax_lt
  have hsize := preimageFields_length h
  have hwhole := preimageList_read t h
  obtain ⟨rest, hread⟩ := htx.list
  have hread' : item? t.wrap (rlpList (preimageFields params)) = some (lst, rest) := hread
  rw [hwhole, Option.some.injEq, Prod.mk.injEq] at hread'
  obtain ⟨rfl, rfl⟩ := hread'
  have hbody : (rlpList (preimageFields params)).length < 2 ^ t.sizeBits := by
    simp only [encodeUnsignedPreimage, List.cons_append, List.nil_append, List.length_cons] at hlen
    omega
  have hitems : ItemsOf t.wrap (preimageFields params) (preimageItems params) := by
    refine List.Forall₂.imp (fun e it hit => ?_) (preimageFields_read t h)
    rw [← List.append_nil e]
    exact hit []
  refine ⟨_, _, preimageFields params, htx, hwhole, (shortestHeader_iff hwhole hbody).mpr ?_,
    ⟨rfl, hitems⟩, rfl, ?_, ?_⟩
  · rw [rlpList_eq, List.append_nil]
    rfl
  · intro i raw it hraw hit hfield
    have hmem := List.mem_of_getElem? hraw
    have hle := (List.sublist_flatten_of_mem hmem).length_le
    have hmax : 2400 ≤ intMax := by decide
    refine ⟨preimageItems_string hfield hit, ?_⟩
    rw [shortestHeader_iff (hitems.read hraw hit) (by omega), List.append_nil]
    rw [preimageFields_eq, List.getElem?_map, hit] at hraw
    exact (Option.some.inj hraw).symm
  · exact fun i it hit hint => preimageItems_integer hint hit

/-- Canonical bytes are cut into the encodings of the items. -/
theorem CanonicalTx.raws_eq (h : CanonicalTx t b lst its raws) (hb : b.length ≤ intMax) :
    raws = its.map encodeItem := by
  obtain ⟨hpay, hraws⟩ := h.cut
  have hbits := t.intMax_lt
  have hcount : its.length = 11 := h.isTx.rules.length_eq.symm
  have hsize : lst.payload.length ≤ b.length := by
    obtain ⟨hd, -, -, rfl, -⟩ := item?_eq_some h.whole
    simp only [List.length_take, List.length_drop]
    omega
  refine List.ext_getElem? fun i => ?_
  rw [List.getElem?_map]
  rcases Nat.lt_or_ge i 11 with hi | hi
  swap
  · rw [List.getElem?_eq_none (by rw [hraws.length_eq]; omega),
      List.getElem?_eq_none (by omega)]
    rfl
  have hlt : i < raws.length := by
    rw [hraws.length_eq]
    omega
  have hraw : raws[i]? = some raws[i] := List.getElem?_eq_getElem _
  have hit : its[i]? = some its[i] := List.getElem?_eq_getElem _
  have hread := hraws.read hraw hit
  rw [hraw, hit, Option.map_some, Option.some.injEq]
  by_cases h8 : i = 8
  · subst h8
    have hempty := h.noAccess
    rw [hraw, Option.some.injEq] at hempty
    rw [hempty] at hread ⊢
    have hlist : item? t.wrap [0xc0] = some (⟨.list, [], []⟩, []) := by cases t <;> decide
    rw [hlist, Option.some.injEq, Prod.mk.injEq] at hread
    rw [← hread.1]
    rfl
  · have hle := (List.sublist_flatten_of_mem (List.mem_of_getElem? hraw)).length_le
    have hshort := (h.strings i _ _ hraw hit ⟨hi, h8⟩).2
    rw [shortestHeader_iff hread (by rw [← hpay] at hle; omega), List.append_nil] at hshort
    exact hshort

theorem encodeItem_of_string (hk : it.kind = .string) : encodeItem it = rlpBytes it.payload := by
  rw [encodeItem, hk, rlpBytes_eq]

theorem encodeItem_of_integer (hk : it.kind = .string) (hzero : it.payload.head? ≠ some 0) :
    encodeItem it = rlpBytes (intToBytes (value it.payload)) := by
  rw [encodeItem_of_string hk, intToBytes_eq, minimal_value hzero]

/-- Canonical bytes are the encoder's for the numbers they hold. -/
theorem CanonicalTx.eq_encode {c n tip fee g r v d al ds ex : Item}
    (h : CanonicalTx t b lst [c, n, tip, fee, g, r, v, d, al, ds, ex] raws)
    (hb : b.length ≤ intMax) :
    b = encodeUnsignedPreimage ⟨value c.payload, value n.payload, value tip.payload,
      value fee.payload, value g.payload, r.payload, value v.payload, some d.payload⟩ := by
  have hraws := h.raws_eq hb
  have hkind : ∀ i it, [c, n, tip, fee, g, r, v, d, al, ds, ex][i]? = some it → IsByteField i →
      it.kind = .string := by
    intro i it hit hfield
    have hlt : i < raws.length := by
      rw [hraws, List.length_map]
      exact hfield.1
    exact (h.strings i _ it (List.getElem?_eq_getElem hlt) hit hfield).1
  have hinteger : ∀ i it, [c, n, tip, fee, g, r, v, d, al, ds, ex][i]? = some it →
      IsByteField i → IsInteger i → encodeItem it = rlpBytes (intToBytes (value it.payload)) :=
    fun i it hit hfield hint =>
      encodeItem_of_integer (hkind i it hit hfield) (h.integers i it hit hint)
  have hstring : ∀ i it, [c, n, tip, fee, g, r, v, d, al, ds, ex][i]? = some it →
      IsByteField i → encodeItem it = rlpBytes it.payload :=
    fun i it hit hfield => encodeItem_of_string (hkind i it hit hfield)
  have haccess : encodeItem al = rlpList [] := by
    have hget := h.noAccess
    rw [hraws] at hget
    exact Option.some.inj hget
  have hrules := h.isTx.rules
  simp only [itemRules, List.forall₂_cons, List.forall₂_nil_left_iff] at hrules
  obtain ⟨-, -, -, -, -, -, -, -, -, hds, hex, -⟩ := hrules
  have hfields : preimageFields ⟨value c.payload, value n.payload, value tip.payload,
      value fee.payload, value g.payload, r.payload, value v.payload, some d.payload⟩ = raws := by
    rw [hraws]
    simp only [List.map_cons, List.map_nil, preimageFields, Option.getD_some, haccess]
    rw [hinteger 0 c rfl (by decide) (.inl (by omega)),
      hinteger 1 n rfl (by decide) (.inl (by omega)),
      hinteger 2 tip rfl (by decide) (.inl (by omega)),
      hinteger 3 fee rfl (by decide) (.inl (by omega)),
      hinteger 4 g rfl (by decide) (.inl (by omega)), hinteger 6 v rfl (by decide) (.inr rfl),
      hstring 5 r rfl (by decide), hstring 7 d rfl (by decide), hstring 9 ds rfl (by decide),
      hstring 10 ex rfl (by decide), hds, hex]
  have hty := h.isTx.typeByte
  cases b with
  | nil => cases hty
  | cons x body =>
    have hbody : body.length < 2 ^ t.sizeBits := by
      have hbits := t.intMax_lt
      rw [List.length_cons] at hb
      omega
    have hx : x = 0x02 := Option.some.inj hty
    have hlist := (shortestHeader_iff h.whole hbody).mp h.header
    rw [List.drop_succ_cons, List.drop_zero, List.append_nil, encodeItem, h.isTx.kind] at hlist
    rw [encodeUnsignedPreimage, hfields, rlpList_eq, encodeList, ← h.cut.1, hx, hlist]
    rfl

/-- The fields of an accepted transaction are in range. -/
theorem inRange_of_isTx {c n tip fee g r v d al ds ex : Item}
    (h : IsTx t.wrap b lst [c, n, tip, fee, g, r, v, d, al, ds, ex]) :
    Params.InRange ⟨value c.payload, value n.payload, value tip.payload, value fee.payload,
      value g.payload, r.payload, value v.payload, some d.payload⟩ := by
  have hrules := h.rules
  simp only [itemRules, List.forall₂_cons, List.forall₂_nil_left_iff] at hrules
  obtain ⟨hc, hn, htip, hfee, hg, hr, hv, hd, -⟩ := hrules
  have hvalue : ∀ {p : List UInt8} {k : Nat}, p.length ≤ k → value p < 256 ^ k := fun hp =>
    lt_of_lt_of_le (value_lt _) (Nat.pow_le_pow_right (by omega) hp)
  exact ⟨hvalue hc, hvalue hn, hvalue htip, hvalue hfee, hvalue hg,
    hr.symm.imp id List.eq_nil_of_length_eq_zero, hvalue hv, hd⟩

/-- **The bytes of an accepted transaction** are the preimage of its fields
exactly where they are canonical. -/
theorem preimage_iff (hb : b.length ≤ intMax) (hdec : decodeLedgerTx t b prior = .ok (0, tx)) :
    b = encodeUnsignedPreimage (paramsOf tx) ↔ CanonicalPreimage t b := by
  obtain ⟨lst, its, htx, -, hholds⟩ := decodeLedgerTx_accepted hb hdec
  obtain ⟨c, n, tip, fee, g, r, v, d, al, ds, ex, rfl, hc, hn, htip, hfee, hg, hr, hv, hd, hds⟩ :=
    hholds
  have hparams : paramsOf tx = ⟨value c.payload, value n.payload, value tip.payload,
      value fee.payload, value g.payload, r.payload, value v.payload, some d.payload⟩ := by
    rw [paramsOf, hc.2, hn.2, htip.2, hfee.2, hg.2, hr.2, hv.2, hd.2]
  rw [hparams]
  constructor
  · intro heq
    rw [heq]
    exact encodeUnsignedPreimage_canonical t (inRange_of_isTx htx)
  · rintro ⟨lst', its', raws, hcanonical⟩
    obtain ⟨rfl, rfl⟩ := htx.unique hcanonical.isTx
    exact hcanonical.eq_encode hb

/-! ## What is signed -/

/-- A signature call of the step `en`, taken behind `hist`, signs the hash of
the preimage of the fields that were shown. -/
def SignsSighash (sdk : Sdk) (hist : History) (en : Entry) : Prop :=
  ∀ msg c sk, Effect.sign msg c sk ∈ en.out →
    msg = sdk.keccak256 (encodeUnsignedPreimage (paramsOf en.pre.ctx.txInfo.txData)) ∧
      ∃ pairs blind d, en.pre.screen = .transaction pairs blind ∧ d ∈ hist ∧
        Effect.draw en.pre.screen ∈ d.out ∧ IsReviewOf sdk d.post.nvm en.pre.ctx pairs

/-- In any run, canonical bytes are signed as the fields that were shown. -/
theorem run_signsSighash {sdk : Sdk} {hist : History} {s : State} (h : Run sdk Serial hist s) :
    Throughout (fun hist en => CanonicalPreimage .device en.pre.ctx.txInfo.rawTx.bytes →
      SignsSighash sdk hist en) hist := by
  refine h.throughout_of_step fun hist s e hrun _ hcanonical msg c sk hsign => ?_
  obtain ⟨⟨o, pairs, blind, -, hscr, -⟩, hmsg, -⟩ := (step_did sdk s e).sign_mem hsign
  obtain ⟨hdec, -, d, hdrawn⟩ := (streams_of_run hrun).review pairs blind hscr
  obtain ⟨prior, hdecodes⟩ := hdec.decodes
  have hb := s.ctx.txInfo.rawTx.length_le.trans maxTransactionLen_le
  refine ⟨?_, pairs, blind, d, hscr, hdrawn.mem, hdrawn.draw, hdrawn.review⟩
  show msg = sdk.keccak256 (encodeUnsignedPreimage (paramsOf s.ctx.txInfo.txData))
  rw [hmsg, hdec.hash, ← (preimage_iff hb hdecodes).mpr hcanonical]

/-- What a shortest header is good for. -/
structure ShortestIsCanonical (t : Target) : Prop where
  /-- What is taken is the encoding of its payload. -/
  headers : ∀ input, input.length < 2 ^ t.sizeBits →
    (OnlyCanonical t input ↔ ((item? t.wrap input).isSome → ShortestHeader t input))
  /-- No other string with the payload has one. -/
  strings : ∀ raw payload, raw.length < 2 ^ t.sizeBits → StringItem t raw payload →
    ((∀ raw', raw'.length < 2 ^ t.sizeBits → StringItem t raw' payload →
      ShortestHeader t raw' → raw' = raw) ↔ ShortestHeader t raw)
  /-- The bytes of a transaction are the preimage of its fields. -/
  preimages : ∀ b prior tx, b.length ≤ intMax → decodeLedgerTx t b prior = .ok (0, tx) →
    (b = encodeUnsignedPreimage (paramsOf tx) ↔ CanonicalPreimage t b)
  signed : ∀ sdk hist s, Run sdk Serial hist s →
    Throughout (fun hist en => CanonicalPreimage .device en.pre.ctx.txInfo.rawTx.bytes →
      SignsSighash sdk hist en) hist

/-- **Shortest headers** are what canonical encodings are, item by item, and
with them the transactions whose sighash is signed. -/
theorem shortest_isCanonical (t : Target) : ShortestIsCanonical t where
  headers _ hlen := onlyCanonical_iff hlen
  strings _ _ hraw h := stringItem_unique_iff hraw h
  preimages _ _ _ hb hdec := preimage_iff hb hdec
  signed _ _ _ h := run_signsSighash h

/-- A contract creation with the nonce 5 behind 0x81. -/
def wrappedNonce : List UInt8 :=
  [0x02, 0xcf, 0x80, 0x81, 0x05, 0x80, 0x80, 0x80, 0x80, 0x80, 0x80, 0xc0, 0x83, 1, 0, 0, 0x80]

/-- Digests that tell it from everything else. -/
def wrappedDigests (input : List UInt8) : Bytes 32 :=
  if input = wrappedNonce then ⟨List.replicate 32 1, rfl⟩ else .zero _

def wrappedSdk : Sdk := referenceSdk wrappedDigests

/-- The latest event first. -/
def wrappedEvents : List Event :=
  [signTx 2 0 wrappedNonce (by decide), signTx 0 0 canonicalPath canonicalPath_fits]

def wrappedReview : History × State := runOf wrappedSdk wrappedEvents

theorem wrappedReview_run :
    Run wrappedSdk Serial (entry wrappedSdk wrappedReview.2 approve :: wrappedReview.1)
      (step wrappedSdk wrappedReview.2 approve).1 :=
  Lib.Machine.Run.exec ⟨.zero, rfl⟩ (approve :: wrappedEvents) (by decide)

theorem wrappedReview_signs :
    ∃ msg c sk, Effect.sign msg c sk ∈ (entry wrappedSdk wrappedReview.2 approve).out :=
  signs_of_any (by decide)

/-- Its hash is not that of the fields it was decoded to. -/
theorem wrappedReview_mHash : wrappedReview.2.ctx.txInfo.mHash ≠
    wrappedSdk.keccak256 (encodeUnsignedPreimage (paramsOf wrappedReview.2.ctx.txInfo.txData)) := by
  decide

/-- The byte 5 is taken with and without 0x81, and a transaction with the
former is signed, though its bytes are not the preimage of what it shows. -/
theorem wrappedNonce_signed :
    ¬OnlyCanonical .device [0x81, 0x05] ∧
      (StringItem .device [0x05] [0x05] ∧ StringItem .device [0x81, 0x05] [0x05]) ∧
      Run wrappedSdk Serial (entry wrappedSdk wrappedReview.2 approve :: wrappedReview.1)
        (step wrappedSdk wrappedReview.2 approve).1 ∧
      ¬SignsSighash wrappedSdk wrappedReview.1 (entry wrappedSdk wrappedReview.2 approve) := by
  have hbits : ∀ {input : List UInt8}, input.length ≤ 2 →
      input.length < 2 ^ Target.device.sizeBits := fun hle => lt_of_le_of_lt hle (by decide)
  refine ⟨?_, ⟨?_, ?_⟩, wrappedReview_run, ?_⟩
  · intro hcanonical
    have hshortest := (onlyCanonical_iff (hbits le_rfl)).mp hcanonical (by decide)
    exact absurd (hshortest.unwrapped 5 [] rfl) (by decide)
  · exact (stringItem_iff (hbits (by decide))).mpr ⟨[], by decide⟩
  · exact (stringItem_iff (hbits (by decide))).mpr ⟨[], by decide⟩
  · intro hsigns
    obtain ⟨msg, c, sk, hsign⟩ := wrappedReview_signs
    have hdid := step_did wrappedSdk wrappedReview.2 approve
    obtain ⟨-, hmsg, -⟩ := hdid.sign_mem hsign
    exact wrappedReview_mHash (hmsg.symm.trans (hsigns msg c sk hsign).1)

end LedgerZond.ShortestHeaders
