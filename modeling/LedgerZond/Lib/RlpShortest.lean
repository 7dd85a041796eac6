import LedgerZond.Lib.RlpBytes

/-! # The encoder's bytes are the shortest

Whatever reading of length bytes a parser uses, if it announces no more than
they hold, no item it reads takes fewer bytes than the encoding of a payload
that is no longer and no larger. -/
namespace Lib.Rlp
open Lib.BigEndian

/-- A reading of length bytes that announces no more than they hold. -/
def Modest (len : List UInt8 → Nat) : Prop := ∀ bs, len bs ≤ value bs

variable {len : List UInt8 → Nat} {raw rest p q lenBytes : List UInt8} {it : Item} {k k' : Kind}

/-- Length bytes for a longer payload are no fewer than the encoder's. -/
theorem lenBytesOf_length_le (hmodest : Modest len) (hann : Announces len lenBytes p.length)
    (hq : q.length ≤ p.length) : (lenBytesOf q).length ≤ lenBytes.length := by
  unfold lenBytesOf
  split
  · exact Nat.zero_le _
  · have hne : lenBytes ≠ [] := by
      intro hnil
      have hshort := hann.short hnil
      omega
    refine minimal_length_le ?_
    calc q.length
      _ ≤ p.length := hq
      _ = len lenBytes := (hann.long hne).symm
      _ ≤ value lenBytes := hmodest lenBytes
      _ < 256 ^ lenBytes.length := value_lt _

theorem length_frame (k : Kind) (p : List UInt8) :
    (frame k p).length = 1 + (lenBytesOf p).length + p.length := by
  rw [frame_eq, List.length_append, length_headerBytes]

/-- No header before a longer payload makes it shorter than the encoder's frame. -/
theorem frame_shortest (hmodest : Modest len) (hann : Announces len lenBytes p.length)
    (hq : q.length ≤ p.length) :
    (frame k q).length ≤ (headerBytes k' lenBytes p.length ++ p).length := by
  have hle := lenBytesOf_length_le hmodest hann hq
  rw [length_frame, List.length_append, length_headerBytes]
  omega

theorem length_encodeString_le (q : List UInt8) :
    (encodeString q).length ≤ (frame .string q).length := by
  unfold encodeString
  split
  · exact length_le_frame .string q
  · exact Nat.le_refl _

/-- A payload no larger than a byte below 0x80 is its own encoding, or empty. -/
theorem length_encodeString_byte {b : UInt8} (hb : b.toNat ≤ 0x7f) (hlen : q.length ≤ 1)
    (hval : value q ≤ value [b]) : (encodeString q).length ≤ 1 := by
  match q, hlen with
  | [], _ => exact Nat.le_refl _
  | [x], _ =>
    have hbyte : value [x] = x.toNat := by simp [value_cons]
    have hbyte' : value [b] = b.toNat := by simp [value_cons]
    have hs : isSingle [x] = true := isSingle_iff.mpr ⟨x, rfl, by omega⟩
    rw [encodeString, if_pos hs]
    exact Nat.le_refl _

/-- **No item is shorter** than the encoding of a string that is neither longer
nor larger than its payload. -/
theorem encodeString_shortest (hmodest : Modest len) (hread : item? len raw = some (it, []))
    (hlen : q.length ≤ it.payload.length) (hval : value q ≤ value it.payload) :
    (encodeString q).length ≤ raw.length := by
  rcases item?_cases hread with ⟨b, hb, rfl, rfl⟩ | ⟨hann, hraw⟩
  · exact length_encodeString_byte hb hlen hval
  · calc (encodeString q).length
      _ ≤ (frame .string q).length := length_encodeString_le q
      _ ≤ (headerBytes it.kind it.lenBytes it.payload.length ++ it.payload).length :=
          frame_shortest hmodest hann hlen
      _ = raw.length := by rw [hraw, List.append_nil]

/-- A number read from an item is encoded in no more bytes than the item's. -/
theorem encodeString_minimal_shortest (hmodest : Modest len)
    (hread : item? len raw = some (it, [])) :
    (encodeString (minimal (value it.payload))).length ≤ raw.length :=
  encodeString_shortest hmodest hread (minimal_length_le (value_lt _))
    (Nat.le_of_eq (value_minimal _))

/-- No list is shorter than the frame of a payload no longer than its own. -/
theorem frame_shortest_list (hmodest : Modest len) (hread : item? len raw = some (it, rest))
    (hk : it.kind = .list) (hq : q.length ≤ it.payload.length) :
    (frame .list q).length + rest.length ≤ raw.length := by
  rcases item?_cases hread with ⟨b, -, rfl, -⟩ | ⟨hann, hraw⟩
  · cases hk
  · have hle := @frame_shortest len it.payload q it.lenBytes .list it.kind hmodest hann hq
    rw [hraw, List.length_append]
    omega

theorem item?_ne_nil (hread : item? len raw = some (it, rest)) : 1 ≤ raw.length :=
  Nat.lt_of_le_of_lt (Nat.zero_le _) (item?_shortens hread)

/-- **No run of items is shorter** than encodings none of which is longer than
any bytes its item is read from. -/
theorem ItemsOf.shortest {raws encs : List (List UInt8)} {its : List Item}
    (hits : ItemsOf len raws its)
    (h : List.Forall₂ (fun e it => ∀ raw, item? len raw = some (it, []) → e.length ≤ raw.length)
      encs its) : encs.flatten.length ≤ raws.flatten.length := by
  induction hits generalizing encs with
  | nil =>
    cases h
    exact Nat.le_refl _
  | @cons raw it raws its hread _ ih =>
    cases h with
    | @cons e _ encs _ hle hles =>
      have hfirst := hle raw hread
      have hrest := ih hles
      rw [List.flatten_cons, List.flatten_cons, List.length_append, List.length_append]
      omega

end Lib.Rlp
