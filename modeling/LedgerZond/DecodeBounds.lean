import LedgerZond.DecodeGrammar

/-! # The decoder stays in bounds

The states `decode_ledger_tx` stands in before each of its reads are the ones
it `Reaches`. In all of them the cursor and what remains make up the input, so
that the subtractive comparisons of the item parser compare true lengths: what
a successful parse consumes is what it hands back, fits in an `int` and in
what remains, and no field's length is cut by its type. -/
namespace LedgerZond.DecodeBounds
open LedgerZond.CTypes LedgerZond.Types LedgerZond.RlpDecode LedgerZond.RlpDecodeSoundness
open LedgerZond.TxGrammar LedgerZond.DecodeGrammar Lib.Rlp

/-! ## The reads of one call -/

/-- The reads that are left, the cursor before them and the transaction as it
stands: the first come behind the two headers, each further one after a read. -/
inductive Reaches (t : Target) (rlp : List UInt8) (prior : ZondTx) :
    List Field → Cursor → ZondTx → Prop
  | first {listPayloadLen listHeaderLen : Nat} :
    rlp.head? = some 0x02 →
    parseRlpListHeader t (rlp.drop 1) (t.sub rlp.length 1) =
      .ok (some (listPayloadLen, listHeaderLen)) →
    listPayloadLen ≤ t.sub (t.sub rlp.length 1) listHeaderLen →
    Reaches t rlp prior fields
      ⟨1 + listHeaderLen, t.sub (t.sub rlp.length 1) listHeaderLen⟩ prior
  | next {f : Field} {fs : List Field} {c c' : Cursor} {tx tx' : ZondTx} :
    Reaches t rlp prior (f :: fs) c tx →
    readField t rlp f c tx = .ok (some c', tx') →
    Reaches t rlp prior fs c' tx'

/-- A read that fails stores nothing. -/
theorem readField_none {t : Target} {rlp : List UInt8} {f : Field} {c : Cursor} {tx tx' : ZondTx}
    (h : readField t rlp f c tx = .ok (none, tx')) : tx' = tx := by
  obtain ⟨r, -, h⟩ := bind_eq_ok h
  cases r with
  | none =>
    cases h
    rfl
  | some it =>
    simp only at h
    split at h
    · cases h
      rfl
    · obtain ⟨val, -, h⟩ := bind_eq_ok h
      split at h
      · obtain ⟨tx1, -, h⟩ := bind_eq_ok h
        cases h
      · cases h
        rfl

/-- The chain of reads goes through states that are reached, and ends in one. -/
theorem readFields_reached {t : Target} {rlp : List UInt8} {prior : ZondTx} :
    ∀ {fs : List Field} {c : Cursor} {tx tx' : ZondTx} {r : Option Cursor},
      Reaches t rlp prior fs c tx → readFields t rlp fs c tx = .ok (r, tx') →
      ∃ fs' c', Reaches t rlp prior fs' c' tx' ∧ ∀ last, r = some last → fs' = [] ∧ c' = last
  | [], c, tx, tx', r, hreach, hrun => by
    cases hrun
    exact ⟨[], c, hreach, fun last h => ⟨rfl, Option.some.inj h⟩⟩
  | f :: fs, c, tx, tx', r, hreach, hrun => by
    obtain ⟨⟨oc, tx1⟩, hread, hrest⟩ := bind_eq_ok hrun
    cases oc with
    | none =>
      cases hrest
      rw [readField_none hread]
      exact ⟨f :: fs, c, hreach, fun last h => by cases h⟩
    | some c1 => exact readFields_reached (hreach.next hread) hrest

/-- **The states reached are the decoder's.** What it leaves is the
transaction it was given or that of a state it reached, behind all eleven
reads when it returns 0. -/
theorem decodeLedgerTx_reached {t : Target} {b : List UInt8} {prior tx : ZondTx} {ret : Int}
    (h : decodeLedgerTx t b prior = .ok (ret, tx)) :
    (ret = -1 ∧ tx = prior) ∨ ∃ fs c, Reaches t b prior fs c tx ∧ (ret = 0 → fs = []) := by
  cases b with
  | nil =>
    cases h
    exact .inl ⟨rfl, rfl⟩
  | cons ty body =>
    unfold decodeLedgerTx at h
    rw [if_neg (by simp)] at h
    obtain ⟨typeByte, hty, h⟩ := bind_eq_ok h
    cases hty
    split at h
    · cases h
      exact .inl ⟨rfl, rfl⟩
    rename_i htype
    obtain ⟨lens, hhead, h⟩ := bind_eq_ok h
    cases lens with
    | none =>
      cases h
      exact .inl ⟨rfl, rfl⟩
    | some lens =>
      obtain ⟨listPayloadLen, listHeaderLen⟩ := lens
      simp only at h
      split at h
      · cases h
        exact .inl ⟨rfl, rfl⟩
      rename_i hle
      obtain ⟨⟨oc, tx1⟩, hrun, h⟩ := bind_eq_ok h
      have htype : ty = 0x02 := by simpa using htype
      obtain ⟨fs, c, hreach, hlast⟩ := readFields_reached
        (.first (by rw [htype]; rfl) hhead (Nat.le_of_not_lt hle)) hrun
      cases oc with
      | none =>
        cases h
        exact .inr ⟨fs, c, hreach, fun h0 => by cases h0⟩
      | some last =>
        simp only at h
        split at h
        · cases h
          exact .inr ⟨fs, c, hreach, fun _ => (hlast last rfl).1⟩
        · cases h
          exact .inr ⟨fs, c, hreach, fun _ => (hlast last rfl).1⟩

/-! ## Where a state that is reached stands -/

/-- The list header that is read takes a true part of the input, and the first
cursor stands right behind it. -/
theorem listHeader_read {t : Target} {b : List UInt8} {listPayloadLen listHeaderLen : Nat}
    (hb : b.length ≤ intMax) (hne : 0 < b.length)
    (h : parseRlpListHeader t (b.drop 1) (t.sub b.length 1) =
      .ok (some (listPayloadLen, listHeaderLen))) :
    ∃ hd, header? t.wrap (b.drop 1) = some hd ∧ hd.kind = .list ∧
      listHeaderLen = hd.size ∧ listPayloadLen = hd.payloadLen ∧
      1 + listHeaderLen + listPayloadLen ≤ b.length ∧
      ⟨1 + listHeaderLen, t.sub (t.sub b.length 1) listHeaderLen⟩ =
        cursorAt b (b.drop (1 + listHeaderLen)) := by
  have hbits := t.intMax_lt
  have hsub : t.sub b.length 1 = (b.drop 1).length := by
    rw [t.sub_eq hne (by omega), List.length_drop]
  rw [hsub, parseRlpListHeader_eq_some_iff (by rw [List.length_drop]; omega)] at h
  obtain ⟨hd, hh, hk, hfit, heq⟩ := h
  simp only [Prod.mk.injEq] at heq
  obtain ⟨rfl, rfl⟩ := heq
  rw [List.length_drop] at hfit hsub
  refine ⟨hd, hh, hk, rfl, rfl, by omega, ?_⟩
  rw [hsub, t.sub_eq (by omega) (by omega)]
  simp only [cursorAt, List.length_drop, Cursor.mk.injEq]
  omega

/-- A read that succeeds takes the item the input has at the cursor, tests and
stores it, and leaves the cursor behind it. -/
theorem readField_some {t : Target} {rlp bs : List UInt8} {f : Field} {c' : Cursor}
    {tx tx' : ZondTx} (hsuf : bs <:+ rlp) (hlen : rlp.length ≤ intMax)
    (h : readField t rlp f (cursorAt rlp bs) tx = .ok (some c', tx')) :
    ∃ it rest, item? t.wrap bs = some (it, rest) ∧ Accepts f it ∧
      f.store tx it.payload = .ok tx' ∧ c' = cursorAt rlp rest ∧ rest <:+ rlp := by
  rw [readField_eq f tx hsuf hlen] at h
  cases hit : item? t.wrap bs with
  | none =>
    rw [hit] at h
    cases h
  | some p =>
    obtain ⟨it, rest⟩ := p
    simp only [hit] at h
    split at h
    · rename_i hacc
      obtain ⟨raw, rfl, -⟩ := item?_eq_some_iff.mp hit
      cases hst : f.store tx it.payload with
      | error e =>
        rw [hst] at h
        cases h
      | ok tx1 =>
        rw [hst] at h
        cases h
        exact ⟨it, rest, rfl, hacc, hst, rfl, (List.suffix_append raw rest).trans hsuf⟩
    · cases h

/-- The cursor of a state that is reached stands before a last part of the input. -/
theorem Reaches.cursor {t : Target} {b : List UInt8} {prior tx : ZondTx} {fs : List Field}
    {c : Cursor} (hb : b.length ≤ intMax) (h : Reaches t b prior fs c tx) :
    ∃ bs, bs <:+ b ∧ c = cursorAt b bs ∧ fs <:+ fields := by
  induction h with
  | @first listPayloadLen listHeaderLen hty hhead hle =>
    have hne : 0 < b.length := by
      cases b with
      | nil => cases hty
      | cons ty body => simp
    obtain ⟨hd, -, -, -, -, -, hcur⟩ := listHeader_read hb hne hhead
    exact ⟨_, List.drop_suffix _ b, hcur, List.suffix_rfl⟩
  | next _ hread ih =>
    obtain ⟨bs, hsuf, rfl, hfs⟩ := ih
    obtain ⟨it, rest, -, -, -, rfl, hrest⟩ := readField_some hsuf hb hread
    exact ⟨rest, hrest, rfl, (List.suffix_cons _ _).trans hfs⟩

/-! ## The lengths that are stored -/

/-- The reads that store a length, and the field of the transaction they store it in. -/
def lengthFields : List (Field × (ZondTx → Nat)) :=
  [(chainId, fun tx => tx.chainIdLen.toNat), (nonce, fun tx => tx.nonceLen.toNat),
    (gasTipCap, fun tx => tx.gasTipCapLen.toNat), (gasFeeCap, fun tx => tx.gasFeeCapLen.toNat),
    (gas, fun tx => tx.gasLen.toNat), (recipient, fun tx => tx.toLen.toNat),
    (value, fun tx => tx.valueLen.toNat), (data, fun tx => tx.dataLen.toNat),
    (descriptor, fun tx => tx.descriptorLen.toNat)]

/-- A store that copies and then sets a length sets that length. -/
theorem stored_eq {α : Type} {x : Except Fault α} {g : α → ZondTx} {len : ZondTx → Nat} {n : Nat}
    {tx' : ZondTx} (hlen : ∀ a, len (g a) = n) (h : (do let a ← x; return g a) = .ok tx') :
    len tx' = n := by
  obtain ⟨a, -, h⟩ := bind_eq_ok h
  cases h
  exact hlen a

/-- A length that passes its test is stored whole. -/
theorem lengthFields_stored : ∀ p ∈ lengthFields, ∀ tx val tx', p.1.lenOk val.length = true →
    p.1.store tx val = .ok tx' → p.2 tx' = val.length := by
  intro p hp tx val tx' hl hst
  -- every bound is one the length's own type can hold
  have hbyte : ∀ bound < 256, val.length ≤ bound → (UInt8.ofNat val.length).toNat = val.length :=
    fun bound hbound hle => UInt8.toNat_ofNat_of_lt' (lt_of_le_of_lt hle hbound)
  simp only [lengthFields, List.mem_cons, List.not_mem_nil, or_false] at hp
  rcases hp with rfl | rfl | rfl | rfl | rfl | rfl | rfl | rfl | rfl
  · exact stored_eq (fun _ => hbyte maxFieldSize (by decide) (of_decide_eq_true hl)) hst
  · exact stored_eq (fun _ => hbyte 8 (by decide) (of_decide_eq_true hl)) hst
  · exact stored_eq (fun _ => hbyte maxFieldSize (by decide) (of_decide_eq_true hl)) hst
  · exact stored_eq (fun _ => hbyte maxFieldSize (by decide) (of_decide_eq_true hl)) hst
  · exact stored_eq (fun _ => hbyte 8 (by decide) (of_decide_eq_true hl)) hst
  · have hle : val.length ≤ addressLength := (of_decide_eq_true hl).elim le_of_eq (by omega)
    exact stored_eq (fun _ => hbyte addressLength (by decide) hle) hst
  · exact stored_eq (fun _ => hbyte maxFieldSize (by decide) (of_decide_eq_true hl)) hst
  · have hle : val.length ≤ maxDataSize := of_decide_eq_true hl
    exact stored_eq (fun _ => UInt16.toNat_ofNat_of_lt' (lt_of_le_of_lt hle (by decide))) hst
  · have hle : val.length ≤ 3 := le_of_eq (of_decide_eq_true hl)
    exact stored_eq (fun _ => hbyte 3 (by decide) hle) hst

/-! ## One read, and all of them -/

/-- A read of `rlp` at `c` does nothing out of bounds: it makes no access
outside the input or a destination; what the parser reports as consumed is
neither cut nor negative, is what it handed back and is there; `remaining`
does not wrap; and the length is stored as it was read. -/
structure ReadInBounds (t : Target) (rlp : List UInt8) (f : Field) (c : Cursor) (tx : ZondTx) :
    Prop where
  cursor : c.p + c.remaining = rlp.length
  noFault : ∃ r, readField t rlp f c tx = .ok r
  consumed : ∀ it, parseRlpItem t (rlp.drop c.p) c.remaining = .ok (some it) →
    0 ≤ it.consumed ∧ it.consumed = ((it.outData + it.outLen : Nat) : Int) ∧
      it.outData + it.outLen ≤ c.remaining
  stepped : ∀ it c' tx', parseRlpItem t (rlp.drop c.p) c.remaining = .ok (some it) →
    readField t rlp f c tx = .ok (some c', tx') →
    c'.p = c.p + it.consumed.toNat ∧ c'.remaining + it.consumed.toNat = c.remaining
  stored : ∀ it c' tx' len, parseRlpItem t (rlp.drop c.p) c.remaining = .ok (some it) →
    readField t rlp f c tx = .ok (some c', tx') → (f, len) ∈ lengthFields → len tx' = it.outLen

/-- A successful parse at the cursor, as the reference parser describes it. -/
theorem parseRlpItem_some {t : Target} {bs : List UInt8} {it : ParsedItem}
    (hlen : bs.length ≤ intMax) (h : parseRlpItem t bs bs.length = .ok (some it)) :
    ∃ hd, header? t.wrap bs = some hd ∧ hd.size + hd.payloadLen ≤ bs.length ∧
      it = ⟨hd.size, hd.payloadLen, ((hd.size + hd.payloadLen : Nat) : Int)⟩ := by
  rw [parseRlpItem_eq_some_iff (lt_of_le_of_lt hlen t.intMax_lt)] at h
  obtain ⟨hd, hh, hfit, rfl⟩ := h
  have hint : toInt (hd.size + hd.payloadLen) = ((hd.size + hd.payloadLen : Nat) : Int) :=
    toInt_eq (hfit.trans hlen)
  exact ⟨hd, hh, hfit, by rw [parsedOf, hint]⟩

/-- **One read.** At a cursor that stands before a last part of the input,
none of the reads leaves its bounds. -/
theorem readField_inBounds {t : Target} {b bs : List UInt8} {f : Field} (tx : ZondTx)
    (hb : b.length ≤ intMax) (hsuf : bs <:+ b) (hf : f ∈ fields) :
    ReadInBounds t b f (cursorAt b bs) tx := by
  have hle := hsuf.length_le
  have hbs : bs.length ≤ intMax := hle.trans hb
  have hparsed : ∀ it, parseRlpItem t (b.drop (cursorAt b bs).p) (cursorAt b bs).remaining =
      .ok (some it) → ∃ hd, header? t.wrap bs = some hd ∧ hd.size + hd.payloadLen ≤ bs.length ∧
        it = ⟨hd.size, hd.payloadLen, ((hd.size + hd.payloadLen : Nat) : Int)⟩ := by
    intro it h
    rw [drop_cursorAt hsuf] at h
    exact parseRlpItem_some hbs h
  constructor
  case cursor =>
    simp only [cursorAt]
    omega
  case noFault =>
    rw [readField_eq f tx hsuf hb]
    cases item? t.wrap bs with
    | none => exact ⟨_, rfl⟩
    | some p =>
      by_cases hacc : Accepts f p.1
      · obtain ⟨tx', htx'⟩ := fields_store f hf tx p.1.payload hacc.1
        exact ⟨(some (cursorAt b p.2), tx'), by simp only [if_pos hacc, htx', Except.map]⟩
      · exact ⟨(none, tx), by simp only [if_neg hacc]⟩
  case consumed =>
    intro it h
    obtain ⟨hd, -, hfit, rfl⟩ := hparsed it h
    exact ⟨by simp only; omega, rfl, hfit⟩
  case stepped =>
    intro it c' tx' h hread
    obtain ⟨hd, hh, hfit, rfl⟩ := hparsed it h
    obtain ⟨it', rest, hit, -, -, rfl, -⟩ := readField_some hsuf hb hread
    rw [item?_of_header hh hfit] at hit
    cases hit
    simp only [cursorAt, List.length_drop, Int.toNat_natCast]
    omega
  case stored =>
    intro it c' tx' len h hread hmem
    obtain ⟨hd, hh, hfit, rfl⟩ := hparsed it h
    obtain ⟨it', rest, hit, hacc, hst, -, -⟩ := readField_some hsuf hb hread
    rw [item?_of_header hh hfit] at hit
    cases hit
    have hwhole : len tx' = ((bs.drop hd.size).take hd.payloadLen).length :=
      lengthFields_stored (f, len) hmem tx _ tx' hacc.1 hst
    rw [hwhole, List.length_take, List.length_drop]
    show min hd.payloadLen (bs.length - hd.size) = hd.payloadLen
    omega

/-- One call of the decoder does nothing out of bounds: not as a whole, not
between the two headers, and not in any of its reads, through which it gets to
what it leaves. -/
structure InBounds (t : Target) (b : List UInt8) (prior : ZondTx) : Prop where
  noFault : ∃ ret tx, decodeLedgerTx t b prior = .ok (ret, tx)
  header : 0 < b.length → ∀ listPayloadLen listHeaderLen,
    parseRlpListHeader t (b.drop 1) (t.sub b.length 1) =
      .ok (some (listPayloadLen, listHeaderLen)) →
    t.sub b.length 1 + 1 = b.length ∧
      t.sub (t.sub b.length 1) listHeaderLen + listHeaderLen = t.sub b.length 1 ∧
      listPayloadLen ≤ t.sub (t.sub b.length 1) listHeaderLen
  reads : ∀ f fs c tx, Reaches t b prior (f :: fs) c tx → ReadInBounds t b f c tx
  reached : ∀ ret tx, decodeLedgerTx t b prior = .ok (ret, tx) →
    (ret = -1 ∧ tx = prior) ∨ ∃ fs c, Reaches t b prior fs c tx ∧ (ret = 0 → fs = [])

/-- **The decoder stays in bounds**, in both builds, on every input an `int`
can measure and whatever the transaction held before. -/
theorem decodeLedgerTx_inBounds (t : Target) {b : List UInt8} (hb : b.length ≤ intMax)
    (prior : ZondTx) : InBounds t b prior := by
  constructor
  case noFault =>
    obtain ⟨ret, tx, hdec, -⟩ := decodeLedgerTx_spec t hb prior
    exact ⟨ret, tx, hdec⟩
  case header =>
    intro hne listPayloadLen listHeaderLen h
    have hbits := t.intMax_lt
    obtain ⟨hd, -, -, -, -, hfit, -⟩ := listHeader_read hb hne h
    rw [t.sub_eq hne (by omega), t.sub_eq (by omega) (by omega)]
    omega
  case reads =>
    intro f fs c tx h
    obtain ⟨bs, hsuf, rfl, hfs⟩ := h.cursor hb
    exact readField_inBounds tx hb hsuf (hfs.subset (List.mem_cons_self ..))
  case reached => exact fun ret tx hdec => decodeLedgerTx_reached hdec

theorem validCreation_inBounds : InBounds .device validCreation .zero :=
  decodeLedgerTx_inBounds .device (by decide) .zero

end LedgerZond.DecodeBounds
