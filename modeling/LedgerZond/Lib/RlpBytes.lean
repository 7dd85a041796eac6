import LedgerZond.Lib.Rlp

/-! # The bytes items are read from

An item is a byte of its own, or a header and a payload whose bytes are known
from the item (`item?_cases`). So the bytes are the encoder's exactly when the
item has the encoder's length bytes, and a run of items is cut into the bytes
of each (`items?_iff_raws`), any of which can be exchanged for another's. -/
namespace Lib.Rlp
open Lib.BigEndian

variable {len : List UInt8 → Nat} {bs rest raw : List UInt8} {it : Item}

/-! ## One item -/

/-- A byte that is its own encoding, as an item. -/
def byteItem (b : UInt8) : Item := ⟨.string, [], [b]⟩

theorem longHeader_bytes {k : Kind} {n : Nat} {hd : Header}
    (hh : longHeader len k n rest = some hd) (hn : n ≠ 0) (h8 : n ≤ 8) :
    Announces len hd.lenBytes hd.payloadLen ∧ hd.kind = k ∧ hd.size = 1 + hd.lenBytes.length ∧
      hd.lenBytes.length = n ∧ rest.take n = hd.lenBytes := by
  unfold longHeader at hh
  split at hh
  next hle =>
    cases hh
    have hlen : (rest.take n).length = n := List.length_take_of_le hle
    refine ⟨⟨fun hnil => ?_, by simp only [hlen]; exact h8, fun _ => rfl⟩, rfl, ?_, hlen, rfl⟩
    · rw [show rest.take n = [] from hnil] at hlen
      exact absurd hlen.symm hn
    · simp only [hlen]
  next => cases hh

/-- A header that takes bytes of its own is `headerBytes`. -/
theorem header?_bytes {b : UInt8} {hd : Header} (hh : header? len (b :: rest) = some hd) :
    (b.toNat ≤ 0x7f ∧ hd = ⟨.string, 0, [], 1⟩) ∨
      (Announces len hd.lenBytes hd.payloadLen ∧ hd.size = 1 + hd.lenBytes.length ∧
        (b :: rest).take hd.size = headerBytes hd.kind hd.lenBytes hd.payloadLen) := by
  have hb := b.toNat_lt
  have hshort : ∀ k n, b.toNat = Kind.short k + n → n ≤ 55 →
      Announces len [] n ∧ (b :: rest).take 1 = headerBytes k [] n := by
    intro k n hbyte hn
    refine ⟨⟨fun _ => hn, by simp, by simp⟩, ?_⟩
    rw [headerBytes, if_pos rfl, ← hbyte, UInt8.ofNat_toNat]
    rfl
  have hlong : ∀ k n, longHeader len k n rest = some hd → n ≠ 0 → n ≤ 8 →
      b.toNat = Kind.long k + n →
      Announces len hd.lenBytes hd.payloadLen ∧ hd.size = 1 + hd.lenBytes.length ∧
        (b :: rest).take hd.size = headerBytes hd.kind hd.lenBytes hd.payloadLen := by
    intro k n hl hn h8 hbyte
    obtain ⟨hann, hk, hsize, hlen, htake⟩ := longHeader_bytes hl hn h8
    refine ⟨hann, hsize, ?_⟩
    have hne : hd.lenBytes ≠ [] := List.length_pos_iff.mp (by omega)
    rw [headerBytes, if_neg hne, hsize, hlen, Nat.add_comm 1, List.take_succ_cons, htake, hk,
      ← hbyte, UInt8.ofNat_toNat]
  simp only [header?] at hh
  split_ifs at hh with h1 h2 h3 h4
  · exact .inl ⟨h1, (Option.some.inj hh).symm⟩
  · cases hh
    obtain ⟨hann, htake⟩ :=
      hshort .string (b.toNat - 0x80) (by simp only [Kind.short]; omega) (by omega)
    exact .inr ⟨hann, rfl, htake⟩
  · exact .inr (hlong .string _ hh (by omega) (by omega) (by simp only [Kind.long]; omega))
  · cases hh
    obtain ⟨hann, htake⟩ :=
      hshort .list (b.toNat - 0xc0) (by simp only [Kind.short]; omega) (by omega)
    exact .inr ⟨hann, rfl, htake⟩
  · exact .inr (hlong .list _ hh (by omega) (by omega) (by simp only [Kind.long]; omega))

/-- **The bytes of an item.** -/
theorem item?_cases (h : item? len bs = some (it, rest)) :
    (∃ b, b.toNat ≤ 0x7f ∧ it = byteItem b ∧ bs = b :: rest) ∨
      (Announces len it.lenBytes it.payload.length ∧
        bs = headerBytes it.kind it.lenBytes it.payload.length ++ it.payload ++ rest) := by
  obtain ⟨hd, hh, hle, rfl, rfl⟩ := item?_eq_some h
  have hpay : ((bs.drop hd.size).take hd.payloadLen).length = hd.payloadLen := by
    rw [List.length_take, List.length_drop]
    omega
  cases bs with
  | nil => cases hh
  | cons b bs =>
    rcases header?_bytes hh with ⟨hb, rfl⟩ | ⟨hann, hsize, htake⟩
    · exact .inl ⟨b, hb, rfl, rfl⟩
    · simp only [hpay]
      refine .inr ⟨hann, ?_⟩
      rw [← htake, ← List.drop_drop, List.append_assoc, List.take_append_drop,
        List.take_append_drop]

/-- The kind of an item is told by its first byte. -/
theorem item?_kind (h : item? len bs = some (it, rest)) :
    (bs.headD 0).toNat < 0xc0 ↔ it.kind = .string := by
  obtain ⟨hd, hh, -, rfl, -⟩ := item?_eq_some h
  cases bs with
  | nil => cases hh
  | cons b bs =>
    rw [List.headD_cons, ← Nat.not_le, ← header?_kind hh]
    show ¬hd.kind = .list ↔ hd.kind = .string
    cases hd.kind <;> decide

/-! ## The encoder's bytes -/

/-- The encoding of an item's payload under its kind. -/
def encodeItem (it : Item) : List UInt8 :=
  match it.kind with
  | .string => encodeString it.payload
  | .list => frame .list it.payload

theorem headerBytes_inj {k : Kind} {lenBytes lenBytes' : List UInt8} {n n' : Nat}
    (h : headerBytes k lenBytes n = headerBytes k lenBytes' n') : lenBytes = lenBytes' :=
  (List.cons.inj h).2

/-- An item with a header is the encoder's exactly when it has the encoder's
length bytes and is not a byte that needs none. -/
theorem eq_encodeItem_iff (hann : Announces len it.lenBytes it.payload.length) :
    headerBytes it.kind it.lenBytes it.payload.length ++ it.payload = encodeItem it ↔
      it.lenBytes = lenBytesOf it.payload ∧ ¬(it.kind = .string ∧ isSingle it.payload = true) := by
  have hframe : headerBytes it.kind it.lenBytes it.payload.length ++ it.payload =
      frame it.kind it.payload ↔ it.lenBytes = lenBytesOf it.payload := by
    rw [frame_eq]
    constructor
    · intro heq
      exact headerBytes_inj (List.append_cancel_right heq)
    · intro hlen
      rw [hlen]
  obtain ⟨kind, lenBytes, payload⟩ := it
  cases kind with
  | list => simpa [encodeItem] using hframe
  | string =>
    simp only [encodeItem, encodeString, true_and]
    by_cases hs : isSingle payload = true
    · rw [if_pos hs]
      constructor
      · intro heq
        have hlen := congrArg List.length heq
        rw [List.length_append, length_headerBytes] at hlen
        omega
      · exact fun hno => absurd hs hno.2
    · rw [if_neg hs, hframe]
      exact ⟨fun h => ⟨h, hs⟩, fun h => h.1⟩

/-! ## Runs of items -/

/-- Each of the byte strings is the whole of an item. -/
def ItemsOf (len : List UInt8 → Nat) : List (List UInt8) → List Item → Prop :=
  List.Forall₂ fun raw it => item? len raw = some (it, [])

theorem items?_iff_raws {n : Nat} {its : List Item} : items? len n bs = some (its, rest) ↔
    ∃ raws, raws.length = n ∧ bs = raws.flatten ++ rest ∧ ItemsOf len raws its := by
  induction n generalizing bs its with
  | zero =>
    simp only [items?, Option.some.injEq, Prod.mk.injEq, List.length_eq_zero_iff]
    constructor
    · rintro ⟨rfl, rfl⟩
      exact ⟨[], rfl, rfl, .nil⟩
    · rintro ⟨raws, rfl, rfl, hits⟩
      cases hits
      exact ⟨rfl, rfl⟩
  | succ n ih =>
    rw [items?_succ]
    constructor
    · rintro ⟨it, after, its', rfl, hi, hr⟩
      obtain ⟨raw, rfl, hraw⟩ := item?_eq_some_iff.mp hi
      obtain ⟨raws, rfl, rfl, hits⟩ := ih.mp hr
      exact ⟨raw :: raws, rfl, (List.append_assoc _ _ _).symm, .cons hraw hits⟩
    · rintro ⟨raws, hlen, rfl, hits⟩
      cases hits with
      | nil => cases hlen
      | @cons raw it raws its' hraw hits =>
        refine ⟨it, raws.flatten ++ rest, its', rfl, ?_, ih.mpr ⟨raws, ?_, rfl, hits⟩⟩
        · exact item?_eq_some_iff.mpr ⟨raw, List.append_assoc _ _ _, hraw⟩
        · exact Nat.succ.inj hlen

theorem ItemsOf.read {raws : List (List UInt8)} {its : List Item} (h : ItemsOf len raws its)
    {i : Nat} (hraw : raws[i]? = some raw) (hit : its[i]? = some it) :
    item? len raw = some (it, []) := by
  induction h generalizing i with
  | nil => cases hraw
  | cons hfirst _ ih =>
    cases i with
    | zero =>
      cases hraw
      cases hit
      exact hfirst
    | succ i => exact ih hraw hit

/-- One item exchanged for another. -/
theorem ItemsOf.set {raws : List (List UInt8)} {its : List Item} (h : ItemsOf len raws its)
    (i : Nat) (hraw : item? len raw = some (it, [])) :
    ItemsOf len (raws.set i raw) (its.set i it) := by
  induction h generalizing i with
  | nil => exact .nil
  | cons hfirst hits ih =>
    cases i with
    | zero => exact .cons hraw hits
    | succ i => exact .cons hfirst (ih i)

end Lib.Rlp
