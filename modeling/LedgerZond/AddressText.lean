import LedgerZond.Address
import LedgerZond.QrlTx

/-! # What a checksummed address reads as

The body of the text is read back as the host reads hexadecimal digits,
whatever their case, so that two addresses never have one text. -/
namespace LedgerZond.AddressText
open LedgerZond.CTypes LedgerZond.Types LedgerZond.Platform LedgerZond.Address LedgerZond.QrlTx

theorem nibble_high (n : Nat) : n >>> 4 = n / 16 := Nat.shiftRight_eq_div_pow n 4

theorem nibble_low (n : Nat) : n &&& 0x0f = n % 16 := Nat.and_two_pow_sub_one_eq_mod n 4

theorem hexValue_hexc {n : Nat} (h : n < 16) : hexValue (hexc n) = n := by
  interval_cases n <;> decide

/-- Upper case does not change the value of a digit. -/
theorem hexValue_upper {c : Char} (h : 'a' ≤ c ∧ c ≤ 'f') :
    hexValue (Char.ofNat (c.toNat - ('a'.toNat - 'A'.toNat))) = hexValue c := by
  have hlow : 97 ≤ c.toNat := h.1
  have hhigh : c.toNat ≤ 102 := h.2
  have hc : c = Char.ofNat c.toNat := c.ofNat_toNat.symm
  generalize c.toNat = n at hlow hhigh hc
  subst hc
  interval_cases n <;> decide

/-- Reading pairs of digits looks at their values only. -/
theorem pairs_congr {xs ys : List Char} (h : xs.map hexValue = ys.map hexValue) :
    pairs xs = pairs ys := by
  induction xs using pairs.induct generalizing ys with
  | case1 hi lo rest ih =>
    simp only [List.map_cons] at h
    obtain ⟨hi', ys', rfl, hhi, hys⟩ := List.map_eq_cons_iff.mp h.symm
    obtain ⟨lo', rest', rfl, hlo, hrest⟩ := List.map_eq_cons_iff.mp hys
    rw [pairs, pairs, hhi, hlo, ih hrest.symm]
  | case2 xs hshort =>
    -- fewer than two digits on either side
    have hlen := congrArg List.length h
    simp only [List.length_map] at hlen
    have hnone : ∀ zs : List Char, zs.length < 2 → pairs zs = [] := by
      intro zs hzs
      rw [pairs]
      intro hi lo rest hcons
      simp only [hcons, List.length_cons] at hzs
      omega
    have hxs : xs.length < 2 := by
      cases xs with
      | nil => decide
      | cons hi tail =>
        cases tail with
        | nil => exact Nat.lt_succ_self 1
        | cons lo rest => exact absurd rfl (hshort hi lo rest)
    rw [hnone xs hxs, hnone ys (by omega)]

/-- A byte is written as its high half and its low half. -/
theorem bytesToHexString_cons (b : UInt8) (src : List UInt8) : bytesToHexString (b :: src) =
    hexc (b.toNat / 16) :: hexc (b.toNat % 16) :: bytesToHexString src := by
  rw [← nibble_high, ← nibble_low]
  rfl

theorem pairs_bytesToHexString (src : List UInt8) : pairs (bytesToHexString src) = src := by
  induction src with
  | nil => rfl
  | cons b src ih =>
    have hb := b.toNat_lt
    have hbyte : UInt8.ofNat (b.toNat / 16 * 16 + b.toNat % 16) = b := by
      rw [Nat.div_add_mod']
      exact UInt8.ofNat_toNat
    rw [bytesToHexString_cons, pairs, ih, hexValue_hexc (by omega), hexValue_hexc (by omega),
      hbyte]

/-- The casing leaves the value of each digit alone. -/
theorem checksumCase_values (mask : Bytes addressSize) (body : List Char) :
    (checksumCase mask body).map hexValue = body.map hexValue := by
  apply List.ext_getElem
  · simp [checksumCase]
  · intro i hi hi'
    simp only [checksumCase, List.getElem_map, List.getElem_mapIdx]
    split
    · rename_i hcase
      exact hexValue_upper ⟨hcase.1, hcase.2.1⟩
    · rfl

/-- **The text of an address** is a `Q` and digits that read back as its bytes. -/
theorem formatChecksummedAddress_reads {sdk : Sdk} {hashed : Bool} {address : Bytes addressSize}
    {outLen : Nat} {text : List Char}
    (h : formatChecksummedAddress sdk hashed address outLen = some text) :
    ∃ body, text = 'Q' :: body ∧ pairs body = address.toList := by
  unfold formatChecksummedAddress at h
  split_ifs at h with hlen hhash
  have htext := Option.some.inj h
  refine ⟨_, htext.symm, ?_⟩
  rw [pairs_congr (checksumCase_values _ _), pairs_bytesToHexString]

theorem formatChecksummedAddress_injective {sdk : Sdk} {hashed hashed' : Bool}
    {address address' : Bytes addressSize} {outLen outLen' : Nat} {text : List Char}
    (h : formatChecksummedAddress sdk hashed address outLen = some text)
    (h' : formatChecksummedAddress sdk hashed' address' outLen' = some text) :
    address = address' := by
  obtain ⟨body, rfl, hbody⟩ := formatChecksummedAddress_reads h
  obtain ⟨body', hcons, hbody'⟩ := formatChecksummedAddress_reads h'
  apply CArray.ext
  rw [← hbody, ← hbody', (List.cons.inj hcons).2]

/-! ## The checksum -/

/-- The characters `format_checksummed_address` leaves in `out`, the NUL at
`out[1 + 2 * ADDRESS_SIZE]` included. -/
def checksummedOut (sdk : Sdk) (hashed : Bool) (address : Bytes addressSize) (outLen : Nat) :
    Option (List Char) :=
  (formatChecksummedAddress sdk hashed address outLen).map (· ++ ['\x00'])

def IsHexDigit (c : Char) : Prop := c.isDigit = true ∨ ('a' ≤ c ∧ c ≤ 'f') ∨ ('A' ≤ c ∧ c ≤ 'F')

/-- Hexadecimal digits, read without regard to case. -/
def decodeHex (body : List Char) : List UInt8 := pairs (body.map Char.toLower)

/-- The half bytes of a byte string, the high one of each byte first. -/
def nibbles (bs : List UInt8) : List Nat := bs.flatMap fun b => [b.toNat / 16, b.toNat % 16]

/-- The hash of a text of characters below 256. -/
def hashOf (sdk : Sdk) (text : List Char) : Bytes addressSize :=
  sdk.shake256 (text.map fun c => UInt8.ofNat c.toNat)

/-- `out` holds a text of `address` that can be checked without the address. -/
structure SelfVerifying (sdk : Sdk) (address : Bytes addressSize) (outLen : Nat)
    (body : List Char) : Prop where
  written : checksummedOut sdk true address outLen = some ('Q' :: body ++ ['\x00'])
  length : body.length = 128
  hexDigits : ∀ c ∈ body, IsHexDigit c
  decodes : decodeHex body = address.toList
  letters : ∀ (i : Nat) (c : Char), body[i]? = some c → c.isDigit = false →
    (c.isUpper = true ↔
      ∃ n ≥ 8, (nibbles (hashOf sdk (body.map Char.toLower)).toList)[i]? = some n)
  digits : ∀ (i : Nat) (c : Char), (bytesToHexString address.toList)[i]? = some c →
    c.isDigit = true → body[i]? = some c
  reproduces : ∀ address' : Bytes addressSize, address'.toList = decodeHex body →
    checksummedOut sdk true address' outLen = some ('Q' :: body ++ ['\x00'])
  distinct : ∀ address' body', checksummedOut sdk true address' outLen =
      some ('Q' :: body' ++ ['\x00']) →
    body'.map Char.toLower = body.map Char.toLower → address' = address

theorem mem_bytesToHexString {src : List UInt8} {c : Char} (h : c ∈ bytesToHexString src) :
    ∃ n < 16, c = hexc n := by
  obtain ⟨b, -, hc⟩ := List.mem_flatMap.mp h
  have hb := b.toNat_lt
  rw [nibble_high, nibble_low] at hc
  rcases List.mem_cons.mp hc with rfl | hc
  · exact ⟨_, by omega, rfl⟩
  · exact ⟨_, by omega, List.mem_singleton.mp hc⟩

theorem length_bytesToHexString (src : List UInt8) :
    (bytesToHexString src).length = 2 * src.length := by
  induction src with
  | nil => rfl
  | cons b src ih =>
    rw [bytesToHexString_cons, List.length_cons, List.length_cons, ih, List.length_cons]
    omega

theorem getElem?_nibbles (bs : List UInt8) (i : Nat) : (nibbles bs)[i]? =
    bs[i / 2]?.map fun b => if i % 2 = 0 then b.toNat / 16 else b.toNat % 16 := by
  induction bs generalizing i with
  | nil => rfl
  | cons b bs ih =>
    have hcons : nibbles (b :: bs) = b.toNat / 16 :: b.toNat % 16 :: nibbles bs := rfl
    rw [hcons]
    match i with
    | 0 => rfl
    | 1 => rfl
    | i + 2 =>
      rw [List.getElem?_cons_succ, List.getElem?_cons_succ, ih, Nat.add_mod_right,
        Nat.add_div_right i (by decide), List.getElem?_cons_succ]

/-- `nibble` of the casing loop is the half byte at its index. -/
theorem nibbles_mask (mask : Bytes addressSize) {i : Nat} (h : i < 128) :
    (nibbles mask.toList)[i]? = some (maskNibble mask i) := by
  have hsize : mask.toList.length = 64 := mask.size_eq
  have hlt : i / 2 < mask.toList.length := by omega
  rw [getElem?_nibbles, List.getElem?_eq_getElem hlt, Option.map_some, maskNibble,
    List.getD_eq_getElem?_getD, List.getElem?_eq_getElem hlt, Option.getD_some, nibble_high,
    nibble_low]

/-- One character of the casing loop. -/
def cased (nibble : Nat) (c : Char) : Char :=
  if 'a' ≤ c ∧ c ≤ 'f' ∧ nibble ≥ 8 then Char.ofNat (c.toNat - ('a'.toNat - 'A'.toNat)) else c

theorem getElem?_checksumCase (mask : Bytes addressSize) (body : List Char) (i : Nat) :
    (checksumCase mask body)[i]? = body[i]?.map (cased (maskNibble mask i)) :=
  List.getElem?_mapIdx

/-- What the loop makes of a lower-case digit: the same digit, upper-case
exactly where it is a letter and its half byte is at least eight. -/
theorem cased_hexc (nibble : Nat) {n : Nat} (h : n < 16) :
    IsHexDigit (cased nibble (hexc n)) ∧ (cased nibble (hexc n)).toLower = hexc n ∧
      ((cased nibble (hexc n)).isDigit = false →
        ((cased nibble (hexc n)).isUpper = true ↔ nibble ≥ 8)) ∧
      ((hexc n).isDigit = true → cased nibble (hexc n) = hexc n) := by
  unfold cased IsHexDigit
  by_cases hm : nibble ≥ 8
  · simp only [hm, and_true, iff_true]
    interval_cases n <;> decide
  · simp only [hm, and_false, if_false, iff_false]
    interval_cases n <;> decide

variable {sdk : Sdk} {address : Bytes addressSize} {outLen : Nat}

/-- The body that is written for an address. -/
def bodyOf (sdk : Sdk) (address : Bytes addressSize) : List Char :=
  checksumCase (hashOf sdk (bytesToHexString address.toList)) (bytesToHexString address.toList)

theorem checksummedOut_eq (h : 1 + 2 * addressSize + 1 ≤ outLen) :
    checksummedOut sdk true address outLen = some ('Q' :: bodyOf sdk address ++ ['\x00']) := by
  unfold checksummedOut formatChecksummedAddress
  rw [if_neg (by omega)]
  rfl

theorem bodyOf_length : (bodyOf sdk address).length = 128 := by
  rw [bodyOf, checksumCase, List.length_mapIdx, length_bytesToHexString, address.size_eq]
  rfl

/-- A character of the body and the digit it was made of. -/
theorem getElem?_bodyOf {i : Nat} {c : Char} (h : (bodyOf sdk address)[i]? = some c) :
    ∃ n < 16, (bytesToHexString address.toList)[i]? = some (hexc n) ∧
      c = cased (maskNibble (hashOf sdk (bytesToHexString address.toList)) i) (hexc n) := by
  rw [bodyOf, getElem?_checksumCase, Option.map_eq_some_iff] at h
  obtain ⟨d, hd, rfl⟩ := h
  obtain ⟨n, hn, rfl⟩ := mem_bytesToHexString (List.mem_of_getElem? hd)
  exact ⟨n, hn, hd, rfl⟩

/-- In lower case, the body is the plain text of the address. -/
theorem bodyOf_toLower :
    (bodyOf sdk address).map Char.toLower = bytesToHexString address.toList := by
  apply List.ext_getElem?
  intro i
  rw [List.getElem?_map]
  cases hc : (bodyOf sdk address)[i]? with
  | none =>
    rw [bodyOf, getElem?_checksumCase, Option.map_eq_none_iff] at hc
    rw [hc]
    rfl
  | some c =>
    obtain ⟨n, hn, hd, rfl⟩ := getElem?_bodyOf hc
    rw [hd, Option.map_some, (cased_hexc _ hn).2.1]

theorem decodeHex_bodyOf : decodeHex (bodyOf sdk address) = address.toList := by
  rw [decodeHex, bodyOf_toLower, pairs_bytesToHexString]

/-- **The checksummed address** is faithful and verifies itself. -/
theorem formatChecksummedAddress_selfVerifying (sdk : Sdk) (address : Bytes addressSize)
    {outLen : Nat} (h : 1 + 2 * addressSize + 1 ≤ outLen) :
    ∃ body, SelfVerifying sdk address outLen body := by
  refine ⟨bodyOf sdk address, checksummedOut_eq h, bodyOf_length, ?_, decodeHex_bodyOf, ?_, ?_, ?_,
    ?_⟩
  · intro c hc
    obtain ⟨i, hi⟩ := List.mem_iff_getElem?.mp hc
    obtain ⟨n, hn, -, rfl⟩ := getElem?_bodyOf hi
    exact (cased_hexc _ hn).1
  · intro i c hc hletter
    have hi : i < 128 := by
      rw [← @bodyOf_length sdk address]
      exact (List.getElem?_eq_some_iff.mp hc).1
    obtain ⟨n, hn, -, rfl⟩ := getElem?_bodyOf hc
    rw [bodyOf_toLower, nibbles_mask _ hi, (cased_hexc _ hn).2.2.1 hletter]
    simp only [Option.some.injEq, exists_eq_right']
  · intro i c hc hdigit
    obtain ⟨n, hn, rfl⟩ := mem_bytesToHexString (List.mem_of_getElem? hc)
    rw [bodyOf, getElem?_checksumCase, hc, Option.map_some, (cased_hexc _ hn).2.2.2 hdigit]
  · intro address' haddress
    rw [decodeHex_bodyOf] at haddress
    rw [CArray.ext haddress]
    exact checksummedOut_eq h
  · intro address' body' hout hsame
    rw [checksummedOut_eq h, Option.some.injEq, List.cons_append, List.cons_append,
      List.cons.injEq] at hout
    have hbody := List.append_cancel_right hout.2
    rw [← hbody, bodyOf_toLower, bodyOf_toLower] at hsame
    exact CArray.ext (by rw [← pairs_bytesToHexString address'.toList, hsame,
      pairs_bytesToHexString])

/-- A device whose digests raise every other character. -/
def raisingSdk : Sdk :=
  { referenceSdk fun _ => .zero _ with shake256 := fun _ => ⟨List.replicate 64 0xf0, rfl⟩ }

/-- The address `abab…ab`, which is shown as `AbAb…Ab`. -/
theorem mixedCase_selfVerifying : ∃ body,
    SelfVerifying raisingSdk ⟨List.replicate 64 0xab, rfl⟩ 130 body ∧
      body.take 4 = ['A', 'b', 'A', 'b'] := by
  obtain ⟨body, hbody⟩ := @formatChecksummedAddress_selfVerifying raisingSdk
    ⟨List.replicate 64 0xab, rfl⟩ 130 (by decide)
  refine ⟨body, hbody, ?_⟩
  have hout := hbody.written.symm.trans (checksummedOut_eq (by decide))
  rw [Option.some.injEq, List.cons_append, List.cons_append, List.cons.injEq] at hout
  rw [List.append_cancel_right hout.2]
  decide +kernel

end LedgerZond.AddressText
