import LedgerZond.DecodeGrammar
import Mathlib.Tactic.IntervalCases

/-! # The host's encoder

`tests/e2e/qrltx.mjs`: the unsigned preimage a host sends to the device. A
`Uint8Array` is a list of bytes, a `BigInt` that is not negative a `Nat`, and a
string the list of its UTF-16 units, of which those in pairs do not occur. -/
namespace LedgerZond.QrlTx
open LedgerZond.CTypes LedgerZond.Types LedgerZond.RlpDecode LedgerZond.DecodeGrammar
open LedgerZond.TxGrammar Lib.Rlp Lib.BigEndian

/-! ## `toBytes` and `intToBytes` -/

def isHexDigit (c : Char) : Bool :=
  ('0' ≤ c && c ≤ '9') || ('a' ≤ c && c ≤ 'f') || ('A' ≤ c && c ≤ 'F')

/-- The value of a hexadecimal digit. -/
def hexValue (c : Char) : Nat :=
  if '0' ≤ c ∧ c ≤ '9' then c.toNat - '0'.toNat
  else if 'a' ≤ c ∧ c ≤ 'f' then c.toNat - 'a'.toNat + 10
  else if 'A' ≤ c ∧ c ≤ 'F' then c.toNat - 'A'.toNat + 10
  else 0

/-- The bytes hexadecimal digits write, two to a byte. -/
def pairs : List Char → List UInt8
  | hi :: lo :: rest => UInt8.ofNat (hexValue hi * 16 + hexValue lo) :: pairs rest
  | _ => []

/-- What `.` does not match. -/
def isLineTerminator (c : Char) : Bool :=
  c == '\n' || c == '\r' || c.toNat == 0x2028 || c.toNat == 0x2029

/-- What `parseInt` skips in front of a number. -/
def isStrWhiteSpace (c : Char) : Bool :=
  isLineTerminator c || c.toNat == 0x09 || c.toNat == 0x0b || c.toNat == 0x0c ||
    c.toNat == 0x20 || c.toNat == 0xa0 || c.toNat == 0x1680 ||
    (0x2000 ≤ c.toNat && c.toNat ≤ 0x200a) || c.toNat == 0x202f || c.toNat == 0x205f ||
    c.toNat == 0x3000 || c.toNat == 0xfeff

/-- `parseInt(b, 16)`, as a `Uint8Array` takes it: modulo 256, and 0 for `NaN`.
The digits end at the first character that is none. -/
def parseByte (hi lo : Char) : UInt8 :=
  if isHexDigit hi then
    if isHexDigit lo then UInt8.ofNat (hexValue hi * 16 + hexValue lo)
    else UInt8.ofNat (hexValue hi)
  else if isHexDigit lo then
    if hi = '-' then 0 - UInt8.ofNat (hexValue lo)
    else if hi = '+' ∨ isStrWhiteSpace hi then UInt8.ofNat (hexValue lo)
    else 0
  else 0

/-- `hex.match(/../g)`, and `parseInt` on each match. -/
def matchPairs : List Char → List UInt8
  | hi :: lo :: rest =>
    if isLineTerminator hi || isLineTerminator lo then matchPairs (lo :: rest)
    else parseByte hi lo :: matchPairs rest
  | _ => []

/-- `if (hex.startsWith('0x') || hex.startsWith('0X')) hex = hex.slice(2)`. -/
def sliceHexMark : List Char → List Char
  | '0' :: 'x' :: rest => rest
  | '0' :: 'X' :: rest => rest
  | hex => hex

/-- `if (h.length % 2) h = '0' + h`. -/
def padEven (h : List Char) : List Char := if h.length % 2 = 1 then '0' :: h else h

def toBytes (hex : List Char) : List UInt8 := matchPairs (padEven (sliceHexMark hex))

def intToBytes (v : Nat) : List UInt8 :=
  if v = 0 then [] else toBytes (padEven (Nat.toDigits 16 v))

/-! ## RLP -/

def rlpBytes (b : List UInt8) : List UInt8 :=
  if b.length = 1 ∧ b.headD 0 < 0x80 then b
  else if b.length ≤ 55 then UInt8.ofNat (0x80 + b.length) :: b
  else
    let ln := intToBytes b.length
    UInt8.ofNat (0xb7 + ln.length) :: (ln ++ b)

def rlpList (items : List (List UInt8)) : List UInt8 :=
  let payload := items.flatten
  if payload.length ≤ 55 then UInt8.ofNat (0xc0 + payload.length) :: payload
  else
    let ln := intToBytes payload.length
    UInt8.ofNat (0xf7 + ln.length) :: (ln ++ payload)

/-- The parameters of `encodeUnsignedPreimage`; `data` may be left out. -/
structure Params where
  chainId : Nat
  nonce : Nat
  tip : Nat
  feeCap : Nat
  gas : Nat
  toAddress : List UInt8
  value : Nat
  data : Option (List UInt8)

/-- The `fields` of `encodeUnsignedPreimage`. -/
def preimageFields (params : Params) : List (List UInt8) :=
  [rlpBytes (intToBytes params.chainId),
   rlpBytes (intToBytes params.nonce),
   rlpBytes (intToBytes params.tip),
   rlpBytes (intToBytes params.feeCap),
   rlpBytes (intToBytes params.gas),
   rlpBytes params.toAddress,
   rlpBytes (intToBytes params.value),
   rlpBytes (params.data.getD []),
   rlpList [],                                  -- access_list
   rlpBytes [1, 0, 0],                          -- descriptor
   rlpBytes []]                                 -- extra_params

def encodeUnsignedPreimage (params : Params) : List UInt8 :=
  [0x02] ++ rlpList (preimageFields params)

/-! ## The encoder writes the shortest encodings -/

theorem hexValue_digitChar {d : Nat} (h : d < 16) : hexValue (Nat.digitChar d) = d := by
  interval_cases d <;> decide

theorem isHexDigit_digitChar {d : Nat} (h : d < 16) : isHexDigit (Nat.digitChar d) = true := by
  interval_cases d <;> decide

/-- A digit is on one line. -/
theorem isLineTerminator_hexDigit {c : Char} (h : isHexDigit c = true) :
    isLineTerminator c = false := by
  have hlow : c.toNat ≤ 102 := by
    simp only [isHexDigit, Bool.or_eq_true, Bool.and_eq_true, decide_eq_true_eq] at h
    rcases h with (⟨-, h⟩ | ⟨-, h⟩) | ⟨-, h⟩
    · exact (show c.toNat ≤ 57 from h).trans (by decide)
    · exact h
    · exact (show c.toNat ≤ 70 from h).trans (by decide)
  have hn : c ≠ '\n' := by rintro rfl; cases h
  have hr : c ≠ '\r' := by rintro rfl; cases h
  simp only [isLineTerminator, Bool.or_eq_false_iff, beq_eq_false_iff_ne]
  exact ⟨⟨⟨hn, hr⟩, by omega⟩, by omega⟩

/-- Digits are matched two by two. -/
theorem matchPairs_hexDigits {cs : List Char} (h : ∀ c ∈ cs, isHexDigit c = true) :
    matchPairs cs = pairs cs := by
  induction cs using pairs.induct with
  | case1 hi lo rest ih =>
    have hhi := h hi List.mem_cons_self
    have hlo := h lo (List.mem_cons_of_mem _ List.mem_cons_self)
    have hrest : ∀ c ∈ rest, isHexDigit c = true := fun c hc =>
      h c (List.mem_cons_of_mem _ (List.mem_cons_of_mem _ hc))
    rw [matchPairs, isLineTerminator_hexDigit hhi, isLineTerminator_hexDigit hlo, parseByte, hhi,
      hlo, pairs, ih hrest]
    rfl
  | case2 cs hshort =>
    match cs, hshort with
    | [], _ => rfl
    | [_], _ => rfl
    | hi :: lo :: rest, hshort => exact absurd rfl (hshort hi lo rest)

theorem digitChar_ne_x {d : Nat} (h : d < 16) :
    Nat.digitChar d ≠ 'x' ∧ Nat.digitChar d ≠ 'X' := by
  interval_cases d <;> decide

theorem pairs_concat {xs : List Char} (h : xs.length % 2 = 0) (hi lo : Char) :
    pairs (xs ++ [hi, lo]) = pairs xs ++ [UInt8.ofNat (hexValue hi * 16 + hexValue lo)] := by
  induction xs using pairs.induct with
  | case1 a b rest ih =>
    simp only [List.length_cons] at h
    simp [pairs, ih (by omega)]
  | case2 xs hxs =>
    match xs, h with
    | [], _ => rfl
    | [_], h => simp at h
    | a :: b :: rest, _ => exact absurd rfl (hxs a b rest)

theorem padEven_length (h : List Char) : (padEven h).length % 2 = 0 := by
  unfold padEven
  split
  · simp only [List.length_cons]
    omega
  · omega

theorem padEven_concat (h : List Char) (a b : Char) :
    padEven (h ++ [a, b]) = padEven h ++ [a, b] := by
  unfold padEven
  simp only [List.length_append, List.length_cons, List.length_nil, Nat.add_mod_right]
  split <;> rfl

/-- The last byte of a number above 255 is its last two hexadecimal digits. -/
theorem toDigits_byte {n : Nat} (h : 256 ≤ n) :
    Nat.toDigits 16 n =
      Nat.toDigits 16 (n / 256) ++ [Nat.digitChar (n / 16 % 16), Nat.digitChar (n % 16)] := by
  rw [Nat.toDigits_of_base_le (by omega) (by omega : 16 ≤ n),
    Nat.toDigits_of_base_le (by omega) (by omega : 16 ≤ n / 16), Nat.div_div_eq_div_mul]
  simp

theorem minimal_byte {n : Nat} (h : 256 ≤ n) :
    minimal n = minimal (n / 256) ++ [UInt8.ofNat (n % 256)] := by
  rw [minimal, Nat.digits_def' (by omega) (by omega), List.reverse_cons, List.map_append]
  rfl

theorem pairs_toDigits {n : Nat} (h0 : 0 < n) :
    pairs (padEven (Nat.toDigits 16 n)) = minimal n := by
  induction n using Nat.strongRecOn with
  | _ n ih =>
    by_cases h : n < 256
    · rw [minimal_of_lt h0 h]
      by_cases h16 : n < 16
      · rw [Nat.toDigits_of_lt_base h16]
        simp [padEven, pairs, hexValue_digitChar h16, show hexValue '0' = 0 by decide]
      · have htwo : Nat.toDigits 16 n = [Nat.digitChar (n / 16), Nat.digitChar (n % 16)] := by
          rw [Nat.toDigits_of_base_le (by omega) (by omega),
            Nat.toDigits_of_lt_base (by omega : n / 16 < 16)]
          rfl
        rw [htwo, padEven, if_neg (by simp)]
        simp only [pairs, hexValue_digitChar (by omega : n / 16 < 16),
          hexValue_digitChar (by omega : n % 16 < 16)]
        rw [show n / 16 * 16 + n % 16 = n by omega]
    · have hhi : n / 16 % 16 < 16 := Nat.mod_lt _ (by omega)
      have hlo : n % 16 < 16 := Nat.mod_lt _ (by omega)
      have hbyte : n / 16 % 16 * 16 + n % 16 = n % 256 := by
        have hdiv : n / 16 / 16 = n / 256 := Nat.div_div_eq_div_mul n 16 16
        omega
      calc pairs (padEven (Nat.toDigits 16 n))
        _ = pairs (padEven (Nat.toDigits 16 (n / 256))) ++ [UInt8.ofNat (n % 256)] := by
            rw [toDigits_byte (by omega), padEven_concat, pairs_concat (padEven_length _),
              hexValue_digitChar hhi, hexValue_digitChar hlo, hbyte]
        _ = minimal (n / 256) ++ [UInt8.ofNat (n % 256)] := by
            rw [ih (n / 256) (Nat.div_lt_self h0 (by omega)) (Nat.div_pos (by omega) (by omega))]
        _ = minimal n := (minimal_byte (by omega)).symm

/-- A hexadecimal numeral is made of the digits below 16. -/
theorem mem_toDigits (n : Nat) : ∀ c ∈ Nat.toDigits 16 n, ∃ d < 16, c = Nat.digitChar d := by
  induction n using Nat.strongRecOn with
  | _ n ih =>
    intro c hc
    by_cases h : n < 16
    · rw [Nat.toDigits_of_lt_base h, List.mem_singleton] at hc
      exact ⟨n, h, hc⟩
    · rw [Nat.toDigits_of_base_le (by omega) (by omega), List.mem_append,
        List.mem_singleton] at hc
      rcases hc with hc | rfl
      · exact ih (n / 16) (Nat.div_lt_self (by omega) (by omega)) c hc
      · exact ⟨n % 16, Nat.mod_lt n (by omega), rfl⟩

/-- So is one of even length. -/
theorem mem_padEven_toDigits {n : Nat} {c : Char} (h : c ∈ padEven (Nat.toDigits 16 n)) :
    ∃ d < 16, c = Nat.digitChar d := by
  unfold padEven at h
  split at h
  · rcases List.mem_cons.mp h with rfl | h
    · exact ⟨0, by decide, rfl⟩
    · exact mem_toDigits n c h
  · exact mem_toDigits n c h

/-- No numeral starts with the mark `toBytes` strips. -/
theorem sliceHexMark_toDigits (n : Nat) :
    sliceHexMark (padEven (Nat.toDigits 16 n)) = padEven (Nat.toDigits 16 n) := by
  have hno : ∀ c ∈ padEven (Nat.toDigits 16 n), c ≠ 'x' ∧ c ≠ 'X' := by
    intro c hc
    obtain ⟨d, hd, rfl⟩ := mem_padEven_toDigits hc
    exact digitChar_ne_x hd
  unfold sliceHexMark
  split
  · rename_i heq
    exact absurd rfl (hno 'x' (by simp [heq])).1
  · rename_i heq
    exact absurd rfl (hno 'X' (by simp [heq])).2
  · rfl

theorem intToBytes_eq (v : Nat) : intToBytes v = minimal v := by
  unfold intToBytes
  split
  · rename_i h
    rw [h, minimal_zero]
  · have heven := padEven_length (Nat.toDigits 16 v)
    have hdigits : ∀ c ∈ padEven (Nat.toDigits 16 v), isHexDigit c = true := by
      intro c hc
      obtain ⟨d, hd, rfl⟩ := mem_padEven_toDigits hc
      exact isHexDigit_digitChar hd
    rw [toBytes, sliceHexMark_toDigits, padEven, if_neg (by omega), matchPairs_hexDigits hdigits]
    exact pairs_toDigits (by omega)

theorem rlpBytes_eq (b : List UInt8) : rlpBytes b = encodeString b := by
  have hsingle : isSingle b = decide (b.length = 1 ∧ b.headD 0 < 0x80) := by
    match b with
    | [] => rfl
    | [x] => simp [isSingle, UInt8.lt_iff_toNat_lt]
    | x :: y :: rest => simp [isSingle]
  simp only [rlpBytes, encodeString, hsingle, decide_eq_true_eq, frame, intToBytes_eq, Kind.short,
    Kind.long]

theorem rlpList_eq (items : List (List UInt8)) : rlpList items = encodeList items := by
  simp only [rlpList, encodeList, frame, intToBytes_eq, Kind.short, Kind.long]

/-! ## Encoding then decoding -/

/-- The parameters a transaction can have: integers of 256 and of 64 bits, a
recipient of 64 bytes or none, and at most 2048 bytes of data. -/
structure Params.InRange (params : Params) : Prop where
  chainId : params.chainId < 2 ^ 256
  nonce : params.nonce < 2 ^ 64
  tip : params.tip < 2 ^ 256
  feeCap : params.feeCap < 2 ^ 256
  gas : params.gas < 2 ^ 64
  toAddress : params.toAddress.length = 64 ∨ params.toAddress = []
  value : params.value < 2 ^ 256
  data : (params.data.getD []).length ≤ 2048

/-- The payloads of the items that are strings; the access list is the ninth item. -/
def stringItem (payload : List UInt8) : Item := ⟨.string, lenBytesOf payload, payload⟩

def preimageItems (params : Params) : List Item :=
  [stringItem (minimal params.chainId), stringItem (minimal params.nonce),
    stringItem (minimal params.tip), stringItem (minimal params.feeCap),
    stringItem (minimal params.gas), stringItem params.toAddress,
    stringItem (minimal params.value), stringItem (params.data.getD []), ⟨.list, [], []⟩,
    stringItem [1, 0, 0], stringItem []]

theorem wrap_minimal (t : Target) {n : Nat} (h : n ≤ intMax) : t.wrap (minimal n) = n := by
  have hlt := t.intMax_lt
  rw [t.wrap_eq (by rw [value_minimal]; omega), value_minimal]

theorem item?_rlpBytes (t : Target) {b : List UInt8} (h : b.length ≤ 2048) (rest : List UInt8) :
    item? t.wrap (rlpBytes b ++ rest) = some (stringItem b, rest) := by
  rw [rlpBytes_eq]
  exact item?_encodeString rest (by omega) fun _ => wrap_minimal t (by simp only [intMax]; omega)

theorem rlpBytes_length_le {b : List UInt8} {k : Nat} (h : b.length ≤ k) (hk : k ≤ 2048) :
    (rlpBytes b).length ≤ 9 + k := by
  rw [rlpBytes_eq]
  exact (encodeString_length_le (by omega)).trans (by omega)

theorem minimal_le {n k : Nat} (h : n < 2 ^ (8 * k)) : (minimal n).length ≤ k :=
  minimal_length_le (by rwa [show 256 = 2 ^ 8 by decide, ← Nat.pow_mul])

theorem preimageFields_read (t : Target) {params : Params} (h : params.InRange) :
    List.Forall₂ (fun e it => ∀ rest, item? t.wrap (e ++ rest) = some (it, rest))
      (preimageFields params) (preimageItems params) := by
  have hint : ∀ {n k : Nat}, n < 2 ^ (8 * k) → k ≤ 32 → ∀ rest,
      item? t.wrap (rlpBytes (intToBytes n) ++ rest) = some (stringItem (minimal n), rest) := by
    intro n k hn hk rest
    rw [intToBytes_eq]
    exact item?_rlpBytes t ((minimal_le hn).trans (by omega)) rest
  have hto : params.toAddress.length ≤ 2048 := by rcases h.toAddress with h | h <;> simp [h]
  have hlist : ∀ rest, item? t.wrap (rlpList [] ++ rest) = some (⟨.list, [], []⟩, rest) :=
    fun rest => item?_frame .list rest (by simp) (by simp)
  exact .cons (hint (k := 32) h.chainId (by omega)) <| .cons (hint (k := 8) h.nonce (by omega)) <|
    .cons (hint (k := 32) h.tip (by omega)) <| .cons (hint (k := 32) h.feeCap (by omega)) <|
    .cons (hint (k := 8) h.gas (by omega)) <| .cons (item?_rlpBytes t hto) <|
    .cons (hint (k := 32) h.value (by omega)) <| .cons (item?_rlpBytes t h.data) <|
    .cons hlist <| .cons (item?_rlpBytes t (by simp)) <| .cons (item?_rlpBytes t (by simp)) .nil

/-- Besides the data, the fields take few bytes. -/
theorem preimageFields_length_le {params : Params} (h : params.InRange) :
    (preimageFields params).flatten.length ≤ 352 + (params.data.getD []).length := by
  have hint : ∀ {n k : Nat}, n < 2 ^ (8 * k) → k ≤ 32 →
      (rlpBytes (intToBytes n)).length ≤ 9 + k := by
    intro n k hn hk
    rw [intToBytes_eq]
    exact rlpBytes_length_le (minimal_le hn) (by omega)
  have hto : params.toAddress.length ≤ 64 := by rcases h.toAddress with h | h <;> simp [h]
  have h1 := hint (k := 32) h.chainId (by omega)
  have h2 := hint (k := 8) h.nonce (by omega)
  have h3 := hint (k := 32) h.tip (by omega)
  have h4 := hint (k := 32) h.feeCap (by omega)
  have h5 := hint (k := 8) h.gas (by omega)
  have h6 := rlpBytes_length_le hto (by omega)
  have h7 := hint (k := 32) h.value (by omega)
  have h8 := rlpBytes_length_le (Nat.le_refl _) h.data
  have h9 : (rlpList []).length = 1 := rfl
  have h10 : (rlpBytes [1, 0, 0]).length = 4 := rfl
  have h11 : (rlpBytes []).length = 1 := rfl
  simp only [preimageFields, List.flatten_cons, List.flatten_nil, List.length_append,
    List.length_nil, h9, h10, h11]
  omega

theorem preimageFields_length {params : Params} (h : params.InRange) :
    (preimageFields params).flatten.length ≤ 2400 := by
  have hle := preimageFields_length_le h
  have hdata := h.data
  omega

/-- The list behind the type byte, as it is read back. -/
theorem preimageList_read (t : Target) {params : Params} (h : params.InRange) :
    item? t.wrap (rlpList (preimageFields params)) =
      some (⟨.list, lenBytesOf (preimageFields params).flatten,
        (preimageFields params).flatten⟩, []) := by
  have hlen := preimageFields_length h
  have hread : item? t.wrap (frame .list (preimageFields params).flatten ++ []) = _ :=
    item?_frame .list [] (by omega) fun _ => wrap_minimal t (by simp only [intMax]; omega)
  rwa [List.append_nil, ← encodeList, ← rlpList_eq] at hread

/-- The preimage is a transaction whose items are the parameters. -/
theorem encodeUnsignedPreimage_isTx (t : Target) {params : Params} (h : params.InRange) :
    (encodeUnsignedPreimage params).length ≤ intMax ∧
      ∃ lst, IsTx t.wrap (encodeUnsignedPreimage params) lst (preimageItems params) := by
  have hlen := preimageFields_length h
  have hlist : rlpList (preimageFields params) = frame .list (preimageFields params).flatten :=
    rlpList_eq _
  refine ⟨?_, _, ⟨rfl, ⟨[], preimageList_read t h⟩, rfl, items?_flatten (preimageFields_read t h),
    ?_⟩⟩
  · have hle := frame_length_le .list (p := (preimageFields params).flatten) (by omega)
    simp only [encodeUnsignedPreimage, hlist, List.cons_append, List.nil_append, List.length_cons,
      intMax]
    omega
  · have h1 : (minimal params.chainId).length ≤ 32 := minimal_le h.chainId
    have h2 : (minimal params.nonce).length ≤ 8 := minimal_le h.nonce
    have h3 : (minimal params.tip).length ≤ 32 := minimal_le h.tip
    have h4 : (minimal params.feeCap).length ≤ 32 := minimal_le h.feeCap
    have h5 : (minimal params.gas).length ≤ 8 := minimal_le h.gas
    have h6 : params.toAddress.length = 0 ∨ params.toAddress.length = 64 := by
      rcases h.toAddress with h | h <;> simp [h]
    have h7 : (minimal params.value).length ≤ 32 := minimal_le h.value
    exact .cons h1 <| .cons h2 <| .cons h3 <| .cons h4 <| .cons h5 <| .cons h6 <| .cons h7 <|
      .cons h.data <| .cons trivial <| .cons rfl <| .cons rfl .nil

/-- The decoder accepts what the host encodes, and the transaction then holds
the parameters, each integer as its shortest bytes. -/
def RoundTrips (t : Target) (params : Params) (prior : ZondTx) : Prop :=
  ∃ tx, decodeLedgerTx t (encodeUnsignedPreimage params) prior = .ok (0, tx) ∧
    HoldsField tx.chainId tx.chainIdLen.toNat (minimal params.chainId) ∧
    HoldsField tx.nonce tx.nonceLen.toNat (minimal params.nonce) ∧
    HoldsField tx.gasTipCap tx.gasTipCapLen.toNat (minimal params.tip) ∧
    HoldsField tx.gasFeeCap tx.gasFeeCapLen.toNat (minimal params.feeCap) ∧
    HoldsField tx.gas tx.gasLen.toNat (minimal params.gas) ∧
    HoldsField tx.toAddress tx.toLen.toNat params.toAddress ∧
    HoldsField tx.value tx.valueLen.toNat (minimal params.value) ∧
    HoldsField tx.data tx.dataLen.toNat (params.data.getD []) ∧
    HoldsField tx.descriptor tx.descriptorLen.toNat [0x01, 0x00, 0x00]

/-- **Encode then decode is the identity**, in both builds and whatever `tx` held. -/
theorem encodeUnsignedPreimage_roundTrips (t : Target) {params : Params} (h : params.InRange)
    (prior : ZondTx) : RoundTrips t params prior := by
  obtain ⟨hlen, lst, htx⟩ := encodeUnsignedPreimage_isTx t h
  obtain ⟨tx, hdec, -, c, n, tip, fee, g, r, v, d, al, ds, ex, hits, hholds⟩ :=
    decodeLedgerTx_of_isTx prior hlen htx
  simp only [preimageItems, List.cons.injEq] at hits
  obtain ⟨rfl, rfl, rfl, rfl, rfl, rfl, rfl, rfl, rfl, rfl, -⟩ := hits
  exact ⟨tx, hdec, hholds⟩

/-- The parameters of the unit tests' contract creation. -/
def contractCreation : Params where
  chainId := 3151908
  nonce := 1
  tip := 10 ^ 9
  feeCap := 10 ^ 10
  gas := 500000
  toAddress := []
  value := 10 ^ 16
  data := none

theorem contractCreation_roundTrips : RoundTrips .device contractCreation .zero :=
  encodeUnsignedPreimage_roundTrips .device
    ⟨by decide, by decide, by decide, by decide, by decide, .inr rfl, by decide, by decide⟩ .zero

/-- The unit tests' vector is its preimage. -/
example : encodeUnsignedPreimage contractCreation = toBytes
    "02e48330182401843b9aca008502540be4008307a12080872386f26fc1000080c08301000080".toList := by
  decide

end LedgerZond.QrlTx
