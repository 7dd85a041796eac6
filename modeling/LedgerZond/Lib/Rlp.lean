import LedgerZond.Lib.BigEndian

/-! # Recursive length prefix items

Items are read off the front of a byte string. How the length bytes of a long
header become a number is a parameter `len`: `BigEndian.value` is the format's
own reading, a reader of bounded width is another. A parser that succeeds has
consumed a nonempty front part and does not depend on what follows it
(`item?_eq_some_iff`); everything about a bounded window of a longer input is
derived from that. -/
namespace Lib.Rlp
open Lib.BigEndian

inductive Kind where
  | string
  | list
deriving DecidableEq, Repr

/-- A header: the bytes it takes, its length bytes, the length it announces. -/
structure Header where
  kind : Kind
  size : Nat
  lenBytes : List UInt8
  payloadLen : Nat
deriving DecidableEq, Repr

/-- An item: its kind, the length bytes of its header, its payload. -/
structure Item where
  kind : Kind
  lenBytes : List UInt8
  payload : List UInt8
deriving DecidableEq, Repr

/-- A header with `n` length bytes after its first byte. -/
def longHeader (len : List UInt8 → Nat) (kind : Kind) (n : Nat) (rest : List UInt8) :
    Option Header :=
  if n ≤ rest.length then some ⟨kind, 1 + n, rest.take n, len (rest.take n)⟩ else none

def header? (len : List UInt8 → Nat) : List UInt8 → Option Header
  | [] => none
  | b :: rest =>
    if b.toNat ≤ 0x7f then some ⟨.string, 0, [], 1⟩
    else if b.toNat ≤ 0xb7 then some ⟨.string, 1, [], b.toNat - 0x80⟩
    else if b.toNat ≤ 0xbf then longHeader len .string (b.toNat - 0xb7) rest
    else if b.toNat ≤ 0xf7 then some ⟨.list, 1, [], b.toNat - 0xc0⟩
    else longHeader len .list (b.toNat - 0xf7) rest

/-- The item at the front of `bs` and the bytes after it. -/
def item? (len : List UInt8 → Nat) (bs : List UInt8) : Option (Item × List UInt8) :=
  (header? len bs).bind fun h =>
    if h.size + h.payloadLen ≤ bs.length then
      some (⟨h.kind, h.lenBytes, (bs.drop h.size).take h.payloadLen⟩,
        bs.drop (h.size + h.payloadLen))
    else none

/-- The first `n` items of `bs` and the bytes after them. -/
def items? (len : List UInt8 → Nat) : Nat → List UInt8 → Option (List Item × List UInt8)
  | 0, bs => some ([], bs)
  | n + 1, bs => (item? len bs).bind fun (it, rest) =>
      (items? len n rest).map fun (its, after) => (it :: its, after)

variable {len len' : List UInt8 → Nat}

/-! ## Headers -/

theorem longHeader_append {kind n rest h} (ys : List UInt8)
    (hh : longHeader len kind n rest = some h) : longHeader len kind n (rest ++ ys) = some h := by
  unfold longHeader at hh ⊢
  split at hh
  · rename_i hn
    rw [if_pos (by simp; omega), List.take_append_of_le_length hn]
    exact hh
  · cases hh

theorem header?_append {bs h} (ys : List UInt8) (hh : header? len bs = some h) :
    header? len (bs ++ ys) = some h := by
  cases bs with
  | nil => cases hh
  | cons b rest =>
    simp only [header?, List.cons_append] at hh ⊢
    split_ifs at hh ⊢ with h1 h2 h3 h4
    · exact hh
    · exact hh
    · exact longHeader_append ys hh
    · exact hh
    · exact longHeader_append ys hh

/-- What a header that was read satisfies: it takes a byte or announces one,
and what it announces is the reading of its length bytes. -/
structure Header.Fits (len : List UInt8 → Nat) (h : Header) : Prop where
  pos : 0 < h.size + h.payloadLen
  lenBytes_le : h.lenBytes.length ≤ 8
  payloadLen_eq : h.lenBytes ≠ [] → h.payloadLen = len h.lenBytes

theorem longHeader_fits {kind n rest h} (hn : n ≤ 8)
    (hh : longHeader len kind n rest = some h) : h.Fits len := by
  unfold longHeader at hh
  split at hh
  next hle =>
    cases hh
    have hlen : (rest.take n).length = n := List.length_take_of_le hle
    exact ⟨by simp, by simp only [hlen]; exact hn, fun _ => rfl⟩
  next => cases hh

theorem header?_fits {bs h} (hh : header? len bs = some h) : h.Fits len := by
  cases bs with
  | nil => cases hh
  | cons b rest =>
    have hb := b.toNat_lt
    simp only [header?] at hh
    split_ifs at hh with h1 h2 h3 h4
    · cases hh
      exact ⟨by simp, by simp, by simp⟩
    · cases hh
      exact ⟨by simp, by simp, by simp⟩
    · exact longHeader_fits (by omega) hh
    · cases hh
      exact ⟨by simp, by simp, by simp⟩
    · exact longHeader_fits (by omega) hh

theorem longHeader_kind {kind n rest h} (hh : longHeader len kind n rest = some h) :
    h.kind = kind := by
  unfold longHeader at hh
  split at hh
  · cases hh
    rfl
  · cases hh

/-- The kind of a header is told by its first byte. -/
theorem header?_kind {b rest h} (hh : header? len (b :: rest) = some h) :
    h.kind = .list ↔ 0xc0 ≤ b.toNat := by
  simp only [header?] at hh
  split_ifs at hh with h1 h2 h3 h4
  · cases hh
    exact iff_of_false nofun (by omega)
  · cases hh
    exact iff_of_false nofun (by omega)
  · rw [longHeader_kind hh]
    exact iff_of_false nofun (by omega)
  · cases hh
    exact iff_of_true rfl (by omega)
  · exact iff_of_true (longHeader_kind hh) (by omega)

theorem longHeader_take {kind n rest h m} (hh : longHeader len kind n rest = some h)
    (hm : n ≤ m) : longHeader len kind n (rest.take m) = some h := by
  unfold longHeader at hh ⊢
  split at hh
  · rename_i hn
    rw [if_pos (by simp; omega), List.take_take, Nat.min_eq_left hm]
    exact hh
  · cases hh

/-- A header depends on nothing but its own bytes. -/
theorem header?_take {bs h m} (hh : header? len bs = some h) (hm : 0 < m) (hs : h.size ≤ m) :
    header? len (bs.take m) = some h := by
  obtain ⟨m, rfl⟩ : ∃ k, m = k + 1 := ⟨m - 1, by omega⟩
  cases bs with
  | nil => cases hh
  | cons b rest =>
    simp only [header?, List.take_succ_cons] at hh ⊢
    have hlong : ∀ {kind n}, longHeader len kind n rest = some h →
        longHeader len kind n (rest.take m) = some h := by
      intro kind n hl
      refine longHeader_take hl ?_
      unfold longHeader at hl
      split at hl
      · cases hl
        simp at hs
        omega
      · cases hl
    split_ifs at hh ⊢ with h1 h2 h3 h4
    · exact hh
    · exact hh
    · exact hlong hh
    · exact hh
    · exact hlong hh

/-- A header is read from every input that has its bytes in front. -/
theorem header?_shared {bs bs' h n} (hh : header? len bs = some h) (hn : 0 < n) (hs : h.size ≤ n)
    (hshared : bs.take n <+: bs') : header? len bs' = some h := by
  obtain ⟨ys, rfl⟩ := hshared
  exact header?_append ys (header?_take hh hn hs)

/-- The same header with its length bytes read by `len`. -/
def Header.reread (len : List UInt8 → Nat) (h : Header) : Header :=
  if h.lenBytes = [] then h else { h with payloadLen := len h.lenBytes }

/-- Another reading of length bytes finds the same header, reread. -/
theorem header?_reread {bs h} (hh : header? len bs = some h) :
    header? len' bs = some (h.reread len') := by
  have hlong : ∀ {kind n rest}, 0 < n → longHeader len kind n rest = some h →
      longHeader len' kind n rest = some (h.reread len') := by
    intro kind n rest hn hh
    unfold longHeader at hh ⊢
    split at hh
    · rename_i hle
      cases hh
      have hlen : (rest.take n).length = n := List.length_take_of_le hle
      have hne : rest.take n ≠ [] := fun he => by simp [he] at hlen; omega
      rw [if_pos hle, Header.reread, if_neg hne]
    · cases hh
  cases bs with
  | nil => cases hh
  | cons b rest =>
    simp only [header?] at hh ⊢
    split_ifs at hh ⊢ with h1 h2 h3 h4
    · cases hh
      rfl
    · cases hh
      rfl
    · exact hlong (by omega) hh
    · cases hh
      rfl
    · exact hlong (by omega) hh

/-- Two readings that agree on a header's length bytes read the same header. -/
theorem header?_congr {bs h} (hh : header? len bs = some h)
    (hl : h.lenBytes ≠ [] → len' h.lenBytes = len h.lenBytes) : header? len' bs = some h := by
  have hsame : h.reread len' = h := by
    unfold Header.reread
    split
    · rfl
    · rename_i hne
      rw [hl hne, ← (header?_fits hh).payloadLen_eq hne]
  rw [header?_reread hh, hsame]

/-! ## Items -/

theorem item?_eq_some {bs it rest} (h : item? len bs = some (it, rest)) :
    ∃ hd, header? len bs = some hd ∧ hd.size + hd.payloadLen ≤ bs.length ∧
      it = ⟨hd.kind, hd.lenBytes, (bs.drop hd.size).take hd.payloadLen⟩ ∧
      rest = bs.drop (hd.size + hd.payloadLen) := by
  obtain ⟨hd, hh, hi⟩ := Option.bind_eq_some_iff.mp h
  split at hi
  · rename_i hle
    simp only [Option.some.injEq, Prod.mk.injEq] at hi
    exact ⟨hd, hh, hle, hi.1.symm, hi.2.symm⟩
  · cases hi

theorem item?_of_header {bs hd} (hh : header? len bs = some hd)
    (hle : hd.size + hd.payloadLen ≤ bs.length) :
    item? len bs = some (⟨hd.kind, hd.lenBytes, (bs.drop hd.size).take hd.payloadLen⟩,
      bs.drop (hd.size + hd.payloadLen)) := by
  simp [item?, hh, hle]

theorem item?_append {bs it rest} (ys : List UInt8) (h : item? len bs = some (it, rest)) :
    item? len (bs ++ ys) = some (it, rest ++ ys) := by
  obtain ⟨hd, hh, hle, rfl, rfl⟩ := item?_eq_some h
  rw [item?_of_header (header?_append ys hh) (by simp; omega)]
  rw [List.drop_append_of_le_length (by omega), List.drop_append_of_le_length hle,
    List.take_append_of_le_length (by simp; omega)]

/-- An item that was read is the front part it was read from, and stays the
same item whatever follows it. -/
theorem item?_eq_some_iff {bs it rest} :
    item? len bs = some (it, rest) ↔ ∃ raw, bs = raw ++ rest ∧ item? len raw = some (it, []) := by
  constructor
  · intro h
    obtain ⟨hd, hh, hle, rfl, rfl⟩ := item?_eq_some h
    have hf := header?_fits hh
    refine ⟨bs.take (hd.size + hd.payloadLen), (List.take_append_drop _ _).symm, ?_⟩
    have hlen : (bs.take (hd.size + hd.payloadLen)).length = hd.size + hd.payloadLen :=
      List.length_take_of_le hle
    rw [item?_of_header (header?_take hh hf.pos (by omega)) (by omega)]
    simp [List.drop_take, List.take_take]
  · intro hsplit
    obtain ⟨raw, rfl, h⟩ := hsplit
    exact item?_append rest h

/-- Reading an item consumes at least one byte. -/
theorem item?_shortens {bs it rest} (h : item? len bs = some (it, rest)) :
    rest.length < bs.length := by
  obtain ⟨hd, hh, hle, -, rfl⟩ := item?_eq_some h
  have hpos := (header?_fits hh).pos
  simp
  omega

theorem item?_lenBytes {bs it rest} (h : item? len bs = some (it, rest)) (hne : it.lenBytes ≠ []) :
    len it.lenBytes = it.payload.length := by
  obtain ⟨hd, hh, hle, rfl, -⟩ := item?_eq_some h
  rw [← (header?_fits hh).payloadLen_eq hne]
  simp
  omega

theorem item?_payload_length {bs it rest} (h : item? len bs = some (it, rest)) :
    it.payload.length ≤ bs.length := by
  obtain ⟨hd, -, hle, rfl, -⟩ := item?_eq_some h
  simp

theorem item?_lenBytes_length {bs it rest} (h : item? len bs = some (it, rest)) :
    it.lenBytes.length ≤ 8 := by
  obtain ⟨hd, hh, -, rfl, -⟩ := item?_eq_some h
  exact (header?_fits hh).lenBytes_le

theorem item?_congr {bs it rest} (h : item? len bs = some (it, rest))
    (hl : it.lenBytes ≠ [] → len' it.lenBytes = len it.lenBytes) :
    item? len' bs = some (it, rest) := by
  obtain ⟨hd, hh, hle, rfl, rfl⟩ := item?_eq_some h
  exact item?_of_header (header?_congr hh hl) hle

/-! ## Sequences of items -/

theorem items?_succ {n bs its after} :
    items? len (n + 1) bs = some (its, after) ↔ ∃ it rest its',
      its = it :: its' ∧ item? len bs = some (it, rest) ∧
      items? len n rest = some (its', after) := by
  simp only [items?, Option.bind_eq_some_iff, Option.map_eq_some_iff, Prod.exists, Prod.mk.injEq]
  constructor
  · intro hread
    obtain ⟨it, rest, hi, its', r, hr, rfl, rfl⟩ := hread
    exact ⟨it, rest, its', rfl, hi, hr⟩
  · intro hread
    obtain ⟨it, rest, its', rfl, hi, hr⟩ := hread
    exact ⟨it, rest, hi, its', after, hr, rfl, rfl⟩

theorem items?_append {n bs its rest} (ys : List UInt8)
    (h : items? len n bs = some (its, rest)) :
    items? len n (bs ++ ys) = some (its, rest ++ ys) := by
  induction n generalizing bs its with
  | zero =>
    simp only [items?, Option.some.injEq, Prod.mk.injEq] at h ⊢
    exact ⟨h.1, by rw [h.2]⟩
  | succ n ih =>
    obtain ⟨it, r, its', rfl, hi, hr⟩ := items?_succ.mp h
    exact items?_succ.mpr ⟨it, r ++ ys, its', rfl, item?_append ys hi, ih hr⟩

theorem items?_eq_some_iff {n bs its rest} :
    items? len n bs = some (its, rest) ↔
      ∃ raw, bs = raw ++ rest ∧ items? len n raw = some (its, []) := by
  constructor
  · intro h
    induction n generalizing bs its with
    | zero =>
      simp only [items?, Option.some.injEq, Prod.mk.injEq] at h ⊢
      exact ⟨[], by simp [h.2], h.1, rfl⟩
    | succ n ih =>
      obtain ⟨it, r, its', rfl, hi, hr⟩ := items?_succ.mp h
      obtain ⟨raw, rfl, hraw⟩ := item?_eq_some_iff.mp hi
      obtain ⟨raws, rfl, hraws⟩ := ih hr
      refine ⟨raw ++ raws, by simp, items?_succ.mpr ⟨it, raws, its', rfl, ?_, hraws⟩⟩
      simpa using item?_append raws hraw
  · intro hsplit
    obtain ⟨raw, rfl, h⟩ := hsplit
    simpa using items?_append rest h

/-- Reading `n + m` items is reading `n` of them, and `m` behind those. -/
theorem items?_add {n m bs its after} (h : items? len (n + m) bs = some (its, after)) :
    ∃ rest, items? len n bs = some (its.take n, rest) ∧
      items? len m rest = some (its.drop n, after) := by
  induction n generalizing bs its with
  | zero =>
    rw [Nat.zero_add] at h
    exact ⟨bs, rfl, h⟩
  | succ n ih =>
    rw [Nat.succ_add] at h
    obtain ⟨it, r, its', rfl, hi, hr⟩ := items?_succ.mp h
    obtain ⟨rest, hfront, hback⟩ := ih hr
    exact ⟨rest, items?_succ.mpr ⟨it, r, _, rfl, hi, hfront⟩, hback⟩

/-- A window holds one number of items. -/
theorem items?_whole {n m bs its its'} (h : items? len n bs = some (its, []))
    (h' : items? len m bs = some (its', [])) : n = m := by
  have hle : ∀ {n m its its'}, items? len n bs = some (its, []) →
      items? len m bs = some (its', []) → m ≤ n := by
    intro n m its its' h h'
    by_contra hlt
    obtain ⟨k, rfl⟩ : ∃ k, m = n + (k + 1) := ⟨m - n - 1, by omega⟩
    obtain ⟨rest, hfront, hback⟩ := items?_add h'
    cases h.symm.trans hfront
    obtain ⟨it, r, _, -, hi, -⟩ := items?_succ.mp hback
    exact absurd (item?_shortens hi) (by simp)
  exact Nat.le_antisymm (hle h' h) (hle h h')

/-- **Confinement.** Reading `n` items from a window followed by other bytes,
and stopping exactly at the window's end, is reading them from the window. -/
theorem items?_confined {n win tail its rest} (hlen : rest.length = tail.length) :
    items? len n (win ++ tail) = some (its, rest) ↔
      rest = tail ∧ items? len n win = some (its, []) := by
  constructor
  · intro h
    obtain ⟨raw, heq, hraw⟩ := items?_eq_some_iff.mp h
    obtain ⟨rfl, rfl⟩ := List.append_inj' heq hlen.symm
    exact ⟨rfl, hraw⟩
  · intro hwindow
    obtain ⟨rfl, h⟩ := hwindow
    simpa using items?_append rest h

theorem items?_congr {n bs its rest} (h : items? len n bs = some (its, rest))
    (hl : ∀ it ∈ its, it.lenBytes ≠ [] → len' it.lenBytes = len it.lenBytes) :
    items? len' n bs = some (its, rest) := by
  induction n generalizing bs its with
  | zero => exact h
  | succ n ih =>
    obtain ⟨it, r, its', rfl, hi, hr⟩ := items?_succ.mp h
    exact items?_succ.mpr ⟨it, r, its', rfl, item?_congr hi (hl it (by simp)),
      ih hr fun x hx => hl x (by simp [hx])⟩

/-- No length read off an input exceeds the input. -/
theorem items?_lenBytes {n bs its rest} (h : items? len n bs = some (its, rest)) :
    ∀ it ∈ its, it.lenBytes ≠ [] → len it.lenBytes ≤ bs.length := by
  induction n generalizing bs its with
  | zero =>
    simp only [items?, Option.some.injEq, Prod.mk.injEq] at h
    simp [← h.1]
  | succ n ih =>
    obtain ⟨it, r, its', rfl, hi, hr⟩ := items?_succ.mp h
    have hlt := item?_shortens hi
    intro x hx hne
    rcases List.mem_cons.mp hx with rfl | hx
    · rw [item?_lenBytes hi hne]
      obtain ⟨hd, -, hle, rfl, -⟩ := item?_eq_some hi
      simp
    · exact (ih hr x hx hne).trans hlt.le

theorem items?_lenBytes_length {n bs its rest} (h : items? len n bs = some (its, rest)) :
    ∀ it ∈ its, it.lenBytes.length ≤ 8 := by
  induction n generalizing bs its with
  | zero =>
    simp only [items?, Option.some.injEq, Prod.mk.injEq] at h
    simp [← h.1]
  | succ n ih =>
    obtain ⟨it, r, its', rfl, hi, hr⟩ := items?_succ.mp h
    intro x hx
    rcases List.mem_cons.mp hx with rfl | hx
    · exact item?_lenBytes_length hi
    · exact ih hr x hx

/-! ## Encoding -/

/-- First byte of a short header, less the payload's length. -/
def Kind.short : Kind → Nat
  | .string => 0x80
  | .list => 0xc0

/-- First byte of a long header, less the number of length bytes. -/
def Kind.long : Kind → Nat
  | .string => 0xb7
  | .list => 0xf7

/-- The length bytes of the shortest header over a payload. -/
def lenBytesOf (payload : List UInt8) : List UInt8 :=
  if payload.length ≤ 55 then [] else minimal payload.length

/-- A payload under its shortest header. -/
def frame (k : Kind) (payload : List UInt8) : List UInt8 :=
  if payload.length ≤ 55 then UInt8.ofNat (k.short + payload.length) :: payload
  else UInt8.ofNat (k.long + (minimal payload.length).length) :: (minimal payload.length ++ payload)

/-- A byte string that is its own encoding. -/
def isSingle : List UInt8 → Bool
  | [b] => b.toNat < 0x80
  | _ => false

theorem isSingle_iff {p : List UInt8} : isSingle p = true ↔ ∃ b, p = [b] ∧ b.toNat < 0x80 := by
  unfold isSingle
  split
  · simp
  · rename_i hno
    simp only [Bool.false_eq_true, false_iff, not_exists, not_and]
    exact fun b hp => absurd hp (hno b)

def encodeString (p : List UInt8) : List UInt8 := if isSingle p then p else frame .string p

def encodeList (items : List (List UInt8)) : List UInt8 := frame .list items.flatten

/-- A header of a kind over `n` bytes, with given length bytes. -/
def headerBytes (k : Kind) (lenBytes : List UInt8) (n : Nat) : List UInt8 :=
  UInt8.ofNat (if lenBytes = [] then k.short + n else k.long + lenBytes.length) :: lenBytes

/-- Length bytes that a reader takes for `n`; none for a short header. -/
structure Announces (len : List UInt8 → Nat) (lenBytes : List UInt8) (n : Nat) : Prop where
  short : lenBytes = [] → n ≤ 55
  length_le : lenBytes.length ≤ 8
  long : lenBytes ≠ [] → len lenBytes = n

theorem length_headerBytes (k : Kind) (lenBytes : List UInt8) (n : Nat) :
    (headerBytes k lenBytes n).length = 1 + lenBytes.length := Nat.add_comm _ _

theorem header?_headerBytes (k : Kind) {lenBytes : List UInt8} {n : Nat} (rest : List UInt8)
    (h : Announces len lenBytes n) : header? len (headerBytes k lenBytes n ++ rest) =
      some ⟨k, 1 + lenBytes.length, lenBytes, n⟩ := by
  unfold headerBytes
  by_cases hs : lenBytes = []
  · have hn := h.short hs
    rw [if_pos hs, hs]
    cases k <;> simp only [Kind.short, List.cons_append, header?, UInt8.toNat_ofNat']
    · rw [if_neg (by omega), if_pos (by omega)]
      simp
      omega
    · rw [if_neg (by omega), if_neg (by omega), if_neg (by omega), if_pos (by omega)]
      simp
      omega
  · have h1 := List.length_pos_iff.mpr hs
    have h8 := h.length_le
    have hrest : longHeader len k lenBytes.length (lenBytes ++ rest) =
        some ⟨k, 1 + lenBytes.length, lenBytes, n⟩ := by
      rw [longHeader, if_pos (by simp), List.take_left', h.long hs]
      rfl
    rw [if_neg hs]
    cases k <;> simp only [Kind.long, List.cons_append, header?, UInt8.toNat_ofNat']
    · rw [if_neg (by omega), if_neg (by omega), if_pos (by omega)]
      rw [show (0xb7 + lenBytes.length) % 2 ^ 8 - 0xb7 = lenBytes.length by omega]
      exact hrest
    · rw [if_neg (by omega), if_neg (by omega), if_neg (by omega), if_neg (by omega)]
      rw [show (0xf7 + lenBytes.length) % 2 ^ 8 - 0xf7 = lenBytes.length by omega]
      exact hrest

/-- A payload under any header that announces it is read back. -/
theorem item?_headerBytes (k : Kind) {lenBytes p : List UInt8} (rest : List UInt8)
    (h : Announces len lenBytes p.length) :
    item? len (headerBytes k lenBytes p.length ++ p ++ rest) = some (⟨k, lenBytes, p⟩, rest) := by
  have hh := header?_headerBytes k (p ++ rest) h
  rw [← List.append_assoc] at hh
  have hlen := length_headerBytes k lenBytes p.length
  rw [item?_of_header hh (by simp only [List.length_append, hlen]; omega)]
  simp only [← hlen, List.append_assoc, List.drop_left', List.take_left']
  rw [← List.append_assoc, List.drop_left' (by simp)]

theorem frame_eq (k : Kind) (p : List UInt8) :
    frame k p = headerBytes k (lenBytesOf p) p.length ++ p := by
  unfold frame headerBytes lenBytesOf
  by_cases hs : p.length ≤ 55
  · rw [if_pos hs, if_pos hs, if_pos rfl]
    rfl
  · have h1 := minimal_length_pos (n := p.length) (by omega)
    rw [if_neg hs, if_neg hs, if_neg (List.length_pos_iff.mp h1)]
    rfl

/-- The encoder's length bytes announce the payload. -/
theorem announces_lenBytesOf {p : List UInt8} (hp : p.length < 256 ^ 8)
    (hlen : 55 < p.length → len (minimal p.length) = p.length) :
    Announces len (lenBytesOf p) p.length := by
  unfold lenBytesOf
  by_cases hs : p.length ≤ 55
  · rw [if_pos hs]
    exact ⟨fun _ => hs, by simp, by simp⟩
  · have h1 := minimal_length_pos (n := p.length) (by omega)
    rw [if_neg hs]
    exact ⟨fun hnil => absurd hnil (List.length_pos_iff.mp h1), minimal_length_le hp,
      fun _ => hlen (by omega)⟩

theorem item?_frame (k : Kind) {p : List UInt8} (rest : List UInt8) (hp : p.length < 256 ^ 8)
    (hlen : 55 < p.length → len (minimal p.length) = p.length) :
    item? len (frame k p ++ rest) = some (⟨k, lenBytesOf p, p⟩, rest) := by
  rw [frame_eq]
  exact item?_headerBytes k rest (announces_lenBytesOf hp hlen)

/-- **Round trip.** An encoded string at the front of an input is read back. -/
theorem item?_encodeString {p : List UInt8} (rest : List UInt8) (hp : p.length < 256 ^ 8)
    (hlen : 55 < p.length → len (minimal p.length) = p.length) :
    item? len (encodeString p ++ rest) = some (⟨.string, lenBytesOf p, p⟩, rest) := by
  unfold encodeString
  split
  · rename_i hs
    obtain ⟨b, rfl, hb⟩ := isSingle_iff.mp hs
    have hh : header? len ([b] ++ rest) = some ⟨.string, 0, [], 1⟩ := by
      simp only [List.cons_append, header?]
      rw [if_pos (by omega)]
    rw [item?_of_header hh (by simp)]
    simp [lenBytesOf]
  · exact item?_frame .string rest hp hlen

/-- A run of encodings, each read back in front of anything, splits into their items. -/
theorem items?_flatten {encs : List (List UInt8)} {its : List Item}
    (h : List.Forall₂ (fun e it => ∀ rest, item? len (e ++ rest) = some (it, rest)) encs its) :
    items? len encs.length encs.flatten = some (its, []) := by
  induction h with
  | nil => rfl
  | cons hi _ ih => exact items?_succ.mpr ⟨_, _, _, rfl, by simpa using hi _, ih⟩

/-- A header takes at most nine bytes. -/
theorem frame_length_le (k : Kind) {p : List UInt8} (hp : p.length < 256 ^ 8) :
    (frame k p).length ≤ 9 + p.length := by
  have h8 := minimal_length_le hp
  unfold frame
  split <;> simp only [List.length_cons, List.length_append] <;> omega

theorem length_le_frame (k : Kind) (p : List UInt8) : p.length ≤ (frame k p).length := by
  unfold frame
  split <;> simp only [List.length_cons, List.length_append] <;> omega

theorem length_le_encodeString (p : List UInt8) : p.length ≤ (encodeString p).length := by
  unfold encodeString
  split
  · exact Nat.le_refl _
  · exact length_le_frame .string p

theorem encodeString_length_le {p : List UInt8} (hp : p.length < 256 ^ 8) :
    (encodeString p).length ≤ 9 + p.length := by
  unfold encodeString
  split
  · omega
  · exact frame_length_le .string hp

end Lib.Rlp
