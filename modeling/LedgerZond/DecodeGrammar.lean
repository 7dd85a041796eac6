import LedgerZond.RlpDecodeSoundness
import LedgerZond.TxGrammar

/-! # What the decoder accepts

`decode_ledger_tx` bounds each of its eleven reads by the end of the input
and compares the cursor with the end of the list only once, after the last.
Since an item does not depend on what follows it, that accepts exactly the
lists whose payload splits into the eleven items (`decodeLedgerTx_spec`),
with one difference from the format: on the device the length bytes of a
long header are reduced modulo `2 ^ 32`. Bytes behind the list are accepted. -/
namespace LedgerZond.DecodeGrammar
open LedgerZond.CTypes LedgerZond.Types LedgerZond.RlpDecode LedgerZond.RlpDecodeSoundness
open LedgerZond.TxGrammar Lib.Rlp

/-! ## The decoder against the grammar -/

theorem forall₂_iff {α β γ : Type} {R : α → β → Prop} {S : γ → β → Prop} {xs : List α}
    {zs : List γ} (h : List.Forall₂ (fun x z => ∀ y, R x y ↔ S z y) xs zs) :
    ∀ ys, List.Forall₂ R xs ys ↔ List.Forall₂ S zs ys := by
  induction h with
  | nil => intro ys; cases ys <;> simp
  | cons hxz _ ih =>
    intro ys
    cases ys with
    | nil => simp
    | cons y ys => rw [List.forall₂_cons, List.forall₂_cons, hxz y, ih ys]

/-- The tests of the eleven reads are the rules of the grammar. -/
theorem accepts_iff_rules (its : List Item) :
    List.Forall₂ Accepts fields its ↔
      List.Forall₂ (fun rule it => rule it.payload) itemRules its := by
  refine forall₂_iff ?_ its
  refine .cons ?_ (.cons ?_ (.cons ?_ (.cons ?_ (.cons ?_ (.cons ?_ (.cons ?_ (.cons ?_ (.cons ?_
    (.cons ?_ (.cons ?_ .nil)))))))))) <;> intro it
  · simp only [Accepts, chainId, decide_eq_true_eq, and_true]
    exact Iff.rfl
  · simp only [Accepts, nonce, decide_eq_true_eq, and_true]
  · simp only [Accepts, gasTipCap, decide_eq_true_eq, and_true]
    exact Iff.rfl
  · simp only [Accepts, gasFeeCap, decide_eq_true_eq, and_true]
    exact Iff.rfl
  · simp only [Accepts, gas, decide_eq_true_eq, and_true]
  · simp only [Accepts, recipient, addressLength, decide_eq_true_eq, and_true, or_comm]
  · simp only [Accepts, value, decide_eq_true_eq, and_true]
    exact Iff.rfl
  · simp only [Accepts, data, decide_eq_true_eq, and_true]
    exact Iff.rfl
  · simp [Accepts, accessList]
  · simp only [Accepts, descriptor, decide_eq_true_eq, and_iff_right_iff_imp]
    intro h
    rw [h]
    rfl
  · simp [Accepts, extraParams]

/-- The part of the decoder behind the two headers. -/
def afterHeader (t : Target) (rlp bs : List UInt8) (payloadEnd : Nat) (tx : ZondTx) :
    Except Fault (Int × ZondTx) :=
  (readFields t rlp fields (cursorAt rlp bs) tx).bind fun r =>
    match r with
    | (none, tx') => .ok (-1, tx')
    | (some c, tx') => if c.p ≠ payloadEnd then .ok (-1, tx') else .ok (0, tx')

/-- An input that does not start with the type byte and a list is refused. -/
theorem decodeLedgerTx_refused {t : Target} {ty : UInt8} {body : List UInt8} (tx : ZondTx)
    (hb : (ty :: body).length ≤ intMax)
    (h : ty = 0x02 → ∀ lst tail, item? t.wrap body = some (lst, tail) → lst.kind ≠ .list) :
    decodeLedgerTx t (ty :: body) tx = .ok (-1, tx) := by
  have hbits := t.intMax_lt
  have hbody : body.length < 2 ^ t.sizeBits := by simp only [List.length_cons] at hb; omega
  have hread : readByte (ty :: body) 0 = .ok ty := rfl
  have hsub : t.sub (ty :: body).length 1 = body.length := t.sub_cons (by omega)
  unfold decodeLedgerTx
  rw [if_neg (by simp), hread]
  simp only [bind, Except.bind, pure, Except.pure, hsub, List.drop_succ_cons, List.drop_zero]
  by_cases hty : ty = 0x02
  · rw [if_neg (by simpa using hty), parseRlpListHeader_eq hbody]
    cases hh : header? t.wrap body with
    | none => rfl
    | some hd =>
      simp only [Option.bind]
      cases hf : fittingList body.length hd with
      | none => rfl
      | some r =>
        obtain ⟨hk, hfit, -⟩ := fittingList_eq_some_iff.mp hf
        exact absurd hk (h hty _ _ (item?_of_header hh hfit))
  · rw [if_pos hty]

/-- Behind the type byte and a list, the decoder is the chain of reads and the
comparison with the list's end. -/
theorem decodeLedgerTx_list {t : Target} {body tail : List UInt8} {lst : Item} (tx : ZondTx)
    (hb : (0x02 :: body).length ≤ intMax) (hitem : item? t.wrap body = some (lst, tail))
    (hk : lst.kind = .list) :
    decodeLedgerTx t (0x02 :: body) tx =
      afterHeader t (0x02 :: body) (lst.payload ++ tail) ((0x02 :: body).length - tail.length) tx ∧
    lst.payload ++ tail <:+ 0x02 :: body := by
  have hbits := t.intMax_lt
  have hbody : body.length < 2 ^ t.sizeBits := by simp only [List.length_cons] at hb; omega
  have hread : readByte (0x02 :: body) 0 = .ok 0x02 := rfl
  have hsub : t.sub (0x02 :: body).length 1 = body.length := t.sub_cons (by omega)
  obtain ⟨hd, hh, hfit, rfl, rfl⟩ := item?_eq_some hitem
  have hsplit : (body.drop hd.size).take hd.payloadLen ++ body.drop (hd.size + hd.payloadLen) =
      body.drop hd.size := by rw [← List.drop_drop, List.take_append_drop]
  have hhead : parseRlpListHeader t body body.length = .ok (some (hd.payloadLen, hd.size)) :=
    (parseRlpListHeader_eq_some_iff hbody).mpr ⟨hd, hh, hk, hfit, rfl⟩
  have hsub' : t.sub body.length hd.size = body.length - hd.size := t.sub_eq (by omega) hbody
  refine ⟨?_, by rw [hsplit]; exact (List.drop_suffix _ _).trans (List.suffix_cons _ _)⟩
  have hcur : (⟨1 + hd.size, body.length - hd.size⟩ : Cursor) =
      cursorAt (0x02 :: body) (body.drop hd.size) := by
    simp only [cursorAt, List.length_cons, List.length_drop, Cursor.mk.injEq, and_true]
    omega
  have hend : 1 + hd.size + hd.payloadLen =
      (0x02 :: body).length - (body.drop (hd.size + hd.payloadLen)).length := by
    simp only [List.length_cons, List.length_drop]
    omega
  unfold decodeLedgerTx
  rw [if_neg (by simp), hread, hsplit]
  simp only [bind, Except.bind, pure, Except.pure, hsub, List.drop_succ_cons, List.drop_zero,
    ne_eq, not_true_eq_false, if_false]
  simp only [hhead, hsub']
  rw [if_neg (by omega), hcur, hend]
  rfl

/-- The transactions of the grammar, as the decoder meets them: items read
without regard to the list's end that stop at it. -/
theorem isTx_iff {len : List UInt8 → Nat} {ty : UInt8} {body : List UInt8} {lst : Item}
    {its : List Item} :
    IsTx len (ty :: body) lst its ↔ ty = 0x02 ∧ lst.kind = .list ∧
      ∃ tail, item? len body = some (lst, tail) ∧
        items? len fields.length (lst.payload ++ tail) = some (its, tail) ∧
        List.Forall₂ Accepts fields its := by
  constructor
  · intro h
    obtain ⟨tail, ht⟩ := h.list
    exact ⟨by simpa using h.typeByte, h.kind, tail, by simpa using ht,
      (items?_confined rfl).mpr ⟨rfl, h.items⟩, (accepts_iff_rules its).mpr h.rules⟩
  · intro hread
    obtain ⟨hty, hk, tail, ht, hi, hacc⟩ := hread
    exact ⟨by simp [hty], ⟨tail, by simpa using ht⟩, hk, ((items?_confined rfl).mp hi).2,
      (accepts_iff_rules its).mp hacc⟩

/-- **The decoder, in one statement.** On an input an `int` can measure it
makes no access outside an array, returns 0 or -1, returns 0 exactly on the
transactions of the grammar, and then leaves the stores of their items. -/
theorem decodeLedgerTx_spec (t : Target) {b : List UInt8} (hb : b.length ≤ intMax) (tx : ZondTx) :
    ∃ ret tx', decodeLedgerTx t b tx = .ok (ret, tx') ∧
      ((ret = -1 ∧ ∀ lst its, ¬IsTx t.wrap b lst its) ∨
        (ret = 0 ∧ ∃ lst its, IsTx t.wrap b lst its ∧ storeAll fields its tx = .ok tx')) := by
  cases b with
  | nil =>
    refine ⟨-1, tx, rfl, .inl ⟨rfl, ?_⟩⟩
    intro lst its h
    have hty := h.typeByte
    simp at hty
  | cons ty body =>
    by_cases hlist : ty = 0x02 ∧ ∃ lst tail, item? t.wrap body = some (lst, tail) ∧ lst.kind = .list
    swap
    · refine ⟨-1, tx, decodeLedgerTx_refused tx hb fun hty lst tail hi hk =>
        hlist ⟨hty, lst, tail, hi, hk⟩, .inl ⟨rfl, fun lst its h => ?_⟩⟩
      obtain ⟨hty, hk, tail, hi, -⟩ := isTx_iff.mp h
      exact hlist ⟨hty, lst, tail, hi, hk⟩
    obtain ⟨rfl, lst, tail, hitem, hk⟩ := hlist
    obtain ⟨hdec, hsuf⟩ := decodeLedgerTx_list tx hb hitem hk
    obtain ⟨c, tx', hrun, hcase⟩ := readFields_eq (t := t) hb fields _ tx fields_store hsuf
    rw [hdec, afterHeader, hrun]
    have honly : ∀ lst' its, IsTx t.wrap (0x02 :: body) lst' its →
        items? t.wrap fields.length (lst.payload ++ tail) = some (its, tail) ∧
          List.Forall₂ Accepts fields its := by
      intro lst' its h
      obtain ⟨-, -, tail', hi, hits, hacc⟩ := isTx_iff.mp h
      rw [hitem] at hi
      simp only [Option.some.injEq, Prod.mk.injEq] at hi
      obtain ⟨rfl, rfl⟩ := hi
      exact ⟨hits, hacc⟩
    rcases hcase with ⟨rfl, hno⟩ | ⟨its, rest, rfl, hi, hacc, hst⟩
    · exact ⟨-1, tx', rfl, .inl ⟨rfl, fun lst' its h =>
        hno its tail (honly lst' its h).1 (honly lst' its h).2⟩⟩
    · obtain ⟨raw, hraw, -⟩ := items?_eq_some_iff.mp hi
      have hle : rest.length ≤ (0x02 :: body).length :=
        (List.IsSuffix.trans ⟨raw, hraw.symm⟩ hsuf).length_le
      have htail : tail.length ≤ (0x02 :: body).length :=
        (List.IsSuffix.trans (List.suffix_append _ _) hsuf).length_le
      -- the cursor is at the end of the list exactly when the bytes left are those behind it
      by_cases hlen : rest.length = tail.length
      · obtain ⟨rfl, -⟩ := (items?_confined hlen).mp hi
        exact ⟨0, tx', if_neg (by simp [cursorAt]),
          .inr ⟨rfl, lst, its, isTx_iff.mpr ⟨rfl, hk, rest, hitem, hi, hacc⟩, hst⟩⟩
      · refine ⟨-1, tx', if_pos (by simp only [cursorAt]; omega), .inl ⟨rfl, ?_⟩⟩
        intro lst' its' h
        have hi' := (honly lst' its' h).1
        rw [hi] at hi'
        simp only [Option.some.injEq, Prod.mk.injEq] at hi'
        exact hlen (by rw [hi'.2])

/-! ## What an accepted transaction holds -/

theorem holdsField_overlay {n : Nat} (a : Bytes n) (p : List UInt8) (hp : p.length ≤ n)
    (hn : n < 256) : HoldsField (a.overlay p) (UInt8.ofNat p.length).toNat p := by
  have hlen : (UInt8.ofNat p.length).toNat = p.length := by simp; omega
  exact ⟨hlen, by rw [hlen, overlay_take a hp]⟩

/-- What the stores of eleven payloads leave. -/
def storedTx (p1 p2 p3 p4 p5 p6 p7 p8 p10 : List UInt8) (tx : ZondTx) : ZondTx where
  chainId := tx.chainId.overlay p1
  chainIdLen := UInt8.ofNat p1.length
  nonce := tx.nonce.overlay p2
  nonceLen := UInt8.ofNat p2.length
  gasTipCap := tx.gasTipCap.overlay p3
  gasTipCapLen := UInt8.ofNat p3.length
  gasFeeCap := tx.gasFeeCap.overlay p4
  gasFeeCapLen := UInt8.ofNat p4.length
  gas := tx.gas.overlay p5
  gasLen := UInt8.ofNat p5.length
  toAddress := (Bytes.zero _).overlay p6
  toLen := UInt8.ofNat p6.length
  value := (Bytes.zero _).overlay p7
  valueLen := UInt8.ofNat p7.length
  data := (Bytes.zero _).overlay p8
  dataLen := UInt16.ofNat p8.length
  descriptor := tx.descriptor.overlay p10
  descriptorLen := UInt8.ofNat p10.length

theorem storeAll_stored {its : List Item} {tx tx' : ZondTx}
    (hacc : List.Forall₂ Accepts fields its) (hst : storeAll fields its tx = .ok tx') :
    ∃ i1 i2 i3 i4 i5 i6 i7 i8 i9 i10 i11, its = [i1, i2, i3, i4, i5, i6, i7, i8, i9, i10, i11] ∧
      (i1.payload.length ≤ maxFieldSize ∧ i2.payload.length ≤ 8 ∧
        i3.payload.length ≤ maxFieldSize ∧ i4.payload.length ≤ maxFieldSize ∧
        i5.payload.length ≤ 8 ∧ i6.payload.length ≤ addressLength ∧
        i7.payload.length ≤ maxFieldSize ∧ i8.payload.length ≤ maxDataSize ∧
        i10.payload.length ≤ 3) ∧
      tx' = storedTx i1.payload i2.payload i3.payload i4.payload i5.payload i6.payload i7.payload
        i8.payload i10.payload tx := by
  have hlen := hacc.length_eq
  match its, hlen with
  | [i1, i2, i3, i4, i5, i6, i7, i8, i9, i10, i11], _ =>
    simp only [fields, List.forall₂_cons, List.forall₂_nil_left_iff] at hacc
    obtain ⟨h1, h2, h3, h4, h5, h6, h7, h8, -, h10, -, -⟩ := hacc
    have h1 : i1.payload.length ≤ maxFieldSize := of_decide_eq_true h1.1
    have h2 : i2.payload.length ≤ 8 := of_decide_eq_true h2.1
    have h3 : i3.payload.length ≤ maxFieldSize := of_decide_eq_true h3.1
    have h4 : i4.payload.length ≤ maxFieldSize := of_decide_eq_true h4.1
    have h5 : i5.payload.length ≤ 8 := of_decide_eq_true h5.1
    have h6 : i6.payload.length ≤ addressLength := (of_decide_eq_true h6.1).elim le_of_eq (by omega)
    have h7 : i7.payload.length ≤ maxFieldSize := of_decide_eq_true h7.1
    have h8 : i8.payload.length ≤ maxDataSize := of_decide_eq_true h8.1
    have h10 : i10.payload.length ≤ 3 := le_of_eq (of_decide_eq_true h10.1)
    simp only [fields, storeAll, chainId, nonce, gasTipCap, gasFeeCap, gas, recipient, value, data,
      accessList, descriptor, extraParams, memcpy_ok _ h1, memcpy_ok _ h2, memcpy_ok _ h3,
      memcpy_ok _ h4, memcpy_ok _ h5, memcpyIfAny_ok _ h6, memcpy_ok _ h7, memcpyIfAny_ok _ h8,
      memcpy_ok _ h10, bind, Except.bind, pure, Except.pure, Except.ok.injEq] at hst
    exact ⟨i1, i2, i3, i4, i5, i6, i7, i8, i9, i10, i11, rfl,
      ⟨h1, h2, h3, h4, h5, h6, h7, h8, h10⟩, hst.symm⟩

/-- The stores of eleven accepted items leave a transaction that holds them. -/
theorem holds_of_storeAll {its : List Item} {tx tx' : ZondTx}
    (hacc : List.Forall₂ Accepts fields its) (hst : storeAll fields its tx = .ok tx') :
    Holds tx' its := by
  obtain ⟨i1, i2, i3, i4, i5, i6, i7, i8, i9, i10, i11, rfl,
    ⟨h1, h2, h3, h4, h5, h6, h7, h8, h10⟩, rfl⟩ := storeAll_stored hacc hst
  refine ⟨i1, i2, i3, i4, i5, i6, i7, i8, i9, i10, i11, rfl,
    holdsField_overlay _ _ h1 (by decide), holdsField_overlay _ _ h2 (by decide),
    holdsField_overlay _ _ h3 (by decide),
    holdsField_overlay _ _ h4 (by decide), holdsField_overlay _ _ h5 (by decide),
    holdsField_overlay _ _ h6 (by decide), holdsField_overlay _ _ h7 (by decide), ?_,
    holdsField_overlay _ _ h10 (by decide)⟩
  have hdl : (UInt16.ofNat i8.payload.length).toNat = i8.payload.length := by
    simp only [maxDataSize] at h8
    simp
    omega
  refine ⟨hdl, ?_⟩
  rw [show (storedTx i1.payload i2.payload i3.payload i4.payload i5.payload i6.payload i7.payload
    i8.payload i10.payload tx).dataLen.toNat = i8.payload.length from hdl]
  exact overlay_take _ h8

/-- A recipient that is empty is stored as zeros. -/
theorem toAddress_of_storeAll {its : List Item} {tx tx' : ZondTx}
    (hacc : List.Forall₂ Accepts fields its) (hst : storeAll fields its tx = .ok tx')
    (hto : tx'.toLen = 0) : tx'.toAddress = Bytes.zero _ := by
  obtain ⟨i1, i2, i3, i4, i5, i6, i7, i8, i9, i10, i11, rfl, hlens, rfl⟩ :=
    storeAll_stored hacc hst
  have h6 : i6.payload.length ≤ addressLength := hlens.2.2.2.2.2.1
  have hlen : (UInt8.ofNat i6.payload.length).toNat = i6.payload.length := by
    simp only [addressLength] at h6
    simp
    omega
  have hzero : i6.payload.length = 0 := by
    rw [← hlen, show UInt8.ofNat i6.payload.length = 0 from hto]
    rfl
  show (Bytes.zero addressLength).overlay i6.payload = Bytes.zero addressLength
  rw [List.eq_nil_of_length_eq_zero hzero, overlay_nil]

/-- An accepted input is a transaction of the wrapped grammar and the result
holds its items. -/
theorem decodeLedgerTx_accepted {t : Target} {b : List UInt8} {prior tx : ZondTx}
    (hb : b.length ≤ intMax) (h : decodeLedgerTx t b prior = .ok (0, tx)) :
    ∃ lst its, IsTx t.wrap b lst its ∧ storeAll fields its prior = .ok tx ∧ Holds tx its := by
  obtain ⟨ret, tx', hdec, hcase⟩ := decodeLedgerTx_spec t hb prior
  rw [h] at hdec
  simp only [Except.ok.injEq, Prod.mk.injEq] at hdec
  obtain ⟨rfl, rfl⟩ := hdec
  rcases hcase with ⟨h0, -⟩ | ⟨-, lst, its, htx, hst⟩
  · cases h0
  · exact ⟨lst, its, htx, hst, holds_of_storeAll ((accepts_iff_rules its).mpr htx.rules) hst⟩

/-- A transaction of the wrapped grammar is accepted. -/
theorem decodeLedgerTx_of_isTx {t : Target} {b : List UInt8} {lst : Item} {its : List Item}
    (prior : ZondTx) (hb : b.length ≤ intMax) (h : IsTx t.wrap b lst its) :
    ∃ tx, decodeLedgerTx t b prior = .ok (0, tx) ∧ storeAll fields its prior = .ok tx ∧
      Holds tx its := by
  obtain ⟨ret, tx, hdec, hcase⟩ := decodeLedgerTx_spec t hb prior
  rcases hcase with ⟨-, hno⟩ | ⟨rfl, lst', its', htx, hst⟩
  · exact absurd h (hno lst its)
  · obtain ⟨rfl, rfl⟩ := h.unique htx
    exact ⟨tx, hdec, hst, holds_of_storeAll ((accepts_iff_rules its).mpr htx.rules) hst⟩

/-- **What is accepted** is the wrapped grammar, whatever the output struct held. -/
theorem accepted_iff_isTx {t : Target} {b : List UInt8} (prior : ZondTx) (hb : b.length ≤ intMax) :
    (∃ tx, decodeLedgerTx t b prior = .ok (0, tx)) ↔ ∃ lst its, IsTx t.wrap b lst its := by
  constructor
  · intro hacc
    obtain ⟨tx, hdec⟩ := hacc
    obtain ⟨lst, its, htx, -⟩ := decodeLedgerTx_accepted hb hdec
    exact ⟨lst, its, htx⟩
  · intro hgrammar
    obtain ⟨lst, its, htx⟩ := hgrammar
    obtain ⟨tx, hdec, -⟩ := decodeLedgerTx_of_isTx prior hb htx
    exact ⟨tx, hdec⟩

/-- What a run of the decoder on a closed input says about its transaction. -/
theorem accepted_of_map {α : Type} (t : Target) (b : List UInt8) (prior : ZondTx) (f : ZondTx → α)
    (a : α) (h : (decodeLedgerTx t b prior).map (fun r => (r.1, f r.2)) = .ok (0, a)) :
    ∃ tx, decodeLedgerTx t b prior = .ok (0, tx) ∧ f tx = a := by
  cases hd : decodeLedgerTx t b prior with
  | error e => simp [hd, Except.map] at h
  | ok r =>
    simp only [hd, Except.map, Except.ok.injEq, Prod.mk.injEq] at h
    exact ⟨r.2, by rw [← h.1], h.2⟩

theorem maxTransactionLen_le : maxTransactionLen ≤ intMax := by decide

/-! ## The decoder and the format -/

/-- At `b`, the decoder returns 0 exactly on the transactions of the format,
and then holds the payloads of their items. -/
def MeetsGrammar (t : Target) (b : List UInt8) (prior : ZondTx) : Prop :=
  ((∃ tx, decodeLedgerTx t b prior = .ok (0, tx)) ↔
      ∃ lst its, IsTx Lib.BigEndian.value b lst its) ∧
    ∀ tx, decodeLedgerTx t b prior = .ok (0, tx) →
      ∃ lst its, IsTx Lib.BigEndian.value b lst its ∧ Holds tx its

/-- No header of `b`, read as the decoder reads it, announces `2 ^ w` bytes or
more, `w` being the width of `size_t`. -/
def NoWrap (t : Target) (b : List UInt8) : Prop :=
  ∀ lst its, IsTx t.wrap b lst its → LengthsFit t (lst :: its)

/-- **The decoder accepts the eleven-item grammar**, exactly where no length
wraps, and so on every input in the 64-bit build. -/
theorem decodeLedgerTx_meetsGrammar_iff (t : Target) {b : List UInt8}
    (hb : b.length ≤ maxTransactionLen) (prior : ZondTx) :
    (MeetsGrammar t b prior ↔ NoWrap t b) ∧ NoWrap .host b := by
  have hi : b.length ≤ intMax := hb.trans maxTransactionLen_le
  have hw : b.length < 2 ^ t.sizeBits := lt_of_le_of_lt hi t.intMax_lt
  refine ⟨⟨?_, ?_⟩, fun lst its htx => htx.fit_host⟩
  · intro h lst its htx
    obtain ⟨lst', its', htx'⟩ := h.1.mp ((accepted_iff_isTx prior hi).mpr ⟨lst, its, htx⟩)
    obtain ⟨hwrap, hfit⟩ := (grammar_iff_wrap hw).mp htx'
    obtain ⟨rfl, rfl⟩ := hwrap.unique htx
    exact hfit
  · intro h
    have hacc : ∀ tx, decodeLedgerTx t b prior = .ok (0, tx) →
        ∃ lst its, IsTx Lib.BigEndian.value b lst its ∧ Holds tx its := by
      intro tx hdec
      obtain ⟨lst, its, htx, -, hholds⟩ := decodeLedgerTx_accepted hi hdec
      exact ⟨lst, its, (grammar_iff_wrap hw).mpr ⟨htx, h lst its htx⟩, hholds⟩
    refine ⟨⟨?_, ?_⟩, hacc⟩
    · intro hret
      obtain ⟨tx, hdec⟩ := hret
      obtain ⟨lst, its, htx, -⟩ := hacc tx hdec
      exact ⟨lst, its, htx⟩
    · intro hgrammar
      obtain ⟨lst, its, htx⟩ := hgrammar
      have hwrap := ((grammar_iff_wrap hw).mp htx).1
      exact (accepted_iff_isTx prior hi).mpr ⟨lst, its, hwrap⟩

/-- A contract creation: nine empty items, the descriptor, an empty item. -/
def validCreation : List UInt8 :=
  [0x02, 0xce, 0x80, 0x80, 0x80, 0x80, 0x80, 0x80, 0x80, 0x80, 0x80, 0x83, 1, 0, 0, 0x80]

theorem validCreation_decodes : ∃ tx, decodeLedgerTx .device validCreation .zero = .ok (0, tx) := by
  obtain ⟨tx, hdec, -⟩ := accepted_of_map .device validCreation .zero (fun _ => ()) () (by decide)
  exact ⟨tx, hdec⟩

theorem validCreation_meetsGrammar :
    (∃ tx, decodeLedgerTx .device validCreation .zero = .ok (0, tx)) ∧
      (MeetsGrammar .device validCreation .zero ↔ NoWrap .device validCreation) ∧
      NoWrap .host validCreation :=
  ⟨validCreation_decodes, decodeLedgerTx_meetsGrammar_iff .device (by decide) .zero⟩

/-- Eleven items of which the first announces `2 ^ 32 + 1` bytes and has one. -/
def wrappingLength : List UInt8 :=
  [0x02, 0xd7, 0xbf, 0, 0, 0, 1, 0, 0, 0, 1, 5, 0x80, 0x80, 0x80, 0x80, 0x80, 0x80, 0x80, 0x80,
    0x83, 1, 0, 0, 0x80]

/-- The device accepts a length the format has no bytes for. -/
theorem wrappingLength_not_meetsGrammar : ¬MeetsGrammar .device wrappingLength .zero := by
  intro h
  obtain ⟨tx, hdec, -⟩ := accepted_of_map .device wrappingLength .zero (fun _ => ()) () (by decide)
  obtain ⟨lst, its, htx⟩ := h.1.mp ⟨tx, hdec⟩
  have hhost := (grammar_iff_host (by decide)).mp htx
  obtain ⟨tx', hdec'⟩ := (accepted_iff_isTx .zero (by decide)).mpr ⟨lst, its, hhost⟩
  have hrefused : (decodeLedgerTx .host wrappingLength .zero).map Prod.fst = .ok (-1) := by decide
  simp [hdec', Except.map] at hrefused

/-! ## Bytes behind the list -/

/-- Bytes behind an accepted list are accepted with it, and decode to the same. -/
theorem decodeLedgerTx_append {t : Target} {b s : List UInt8} {prior tx : ZondTx}
    (hbs : (b ++ s).length ≤ intMax) (h : decodeLedgerTx t b prior = .ok (0, tx)) :
    decodeLedgerTx t (b ++ s) prior = .ok (0, tx) := by
  have hb : b.length ≤ intMax := by simp only [List.length_append] at hbs; omega
  obtain ⟨lst, its, htx, hst, -⟩ := decodeLedgerTx_accepted hb h
  obtain ⟨tx', hdec, hst', -⟩ := decodeLedgerTx_of_isTx prior hbs (htx.append s)
  rw [hst, Except.ok.injEq] at hst'
  rw [hdec, hst']

/-- If the decoder accepts `b`, its list header announces the end of `b`. -/
def EndsAtList (t : Target) (b : List UInt8) : Prop :=
  ∀ prior tx, decodeLedgerTx t b prior = .ok (0, tx) →
    ∃ listPayloadLen listHeaderLen,
      parseRlpListHeader t (b.drop 1) (b.length - 1) = .ok (some (listPayloadLen, listHeaderLen)) ∧
        b.length = 1 + listHeaderLen + listPayloadLen

/-- If the decoder accepts `b`, it refuses `b` with `s` behind it, unless `s` is empty. -/
def RejectsSuffix (t : Target) (b s : List UInt8) : Prop :=
  ∀ prior tx, decodeLedgerTx t b prior = .ok (0, tx) → s ≠ [] →
    ∀ tx', decodeLedgerTx t (b ++ s) prior ≠ .ok (0, tx')

/-- No proper initial segment of `b` is a transaction. -/
def NoShorterTx (t : Target) (b : List UInt8) : Prop :=
  ∀ core s, b = core ++ s → s ≠ [] → ∀ lst its, ¬IsTx t.wrap core lst its

/-- A transaction ends with its list, whose header is read there whatever follows. -/
theorem isTx_split {t : Target} {b : List UInt8} {lst : Item} {its : List Item}
    (h : IsTx t.wrap b lst its) :
    ∃ core rest listPayloadLen listHeaderLen, b = core ++ rest ∧ IsTx t.wrap core lst its ∧
      core.length = 1 + listHeaderLen + listPayloadLen ∧
      ∀ s, (core ++ s).length ≤ intMax →
        parseRlpListHeader t ((core ++ s).drop 1) ((core ++ s).length - 1) =
          .ok (some (listPayloadLen, listHeaderLen)) := by
  cases b with
  | nil =>
    have hty := h.typeByte
    simp at hty
  | cons ty body =>
    obtain ⟨rest, hitem⟩ := h.list
    have hitem' : item? t.wrap body = some (lst, rest) := by simpa using hitem
    obtain ⟨raw, rfl, hraw⟩ := item?_eq_some_iff.mp hitem'
    obtain ⟨hd, hh, hfit, hlst, hrest⟩ := item?_eq_some hraw
    have hk : hd.kind = .list := by rw [← h.kind, hlst]
    have hlen := congrArg List.length hrest
    simp only [List.length_nil, List.length_drop] at hlen
    refine ⟨ty :: raw, rest, hd.payloadLen, hd.size, rfl,
      ⟨h.typeByte, ⟨[], by simpa using hraw⟩, h.kind, h.items, h.rules⟩, ?_, fun s hs => ?_⟩
    · simp only [List.length_cons]
      omega
    · have hbits := t.intMax_lt
      have hraws : (raw ++ s).length < 2 ^ t.sizeBits := by
        simp only [List.cons_append, List.length_cons] at hs
        omega
      have hfits : hd.size + hd.payloadLen ≤ (raw ++ s).length := by
        rw [List.length_append]
        omega
      show parseRlpListHeader t (raw ++ s) (raw ++ s).length = _
      exact (parseRlpListHeader_eq_some_iff hraws).mpr
        ⟨hd, header?_append s hh, hk, hfits, rfl⟩

/-- **Bytes behind the list** are what keeps an accepted input from ending with
its list: the decoder accepts every transaction with anything behind it. -/
theorem decodeLedgerTx_endsAtList_iff (t : Target) {b s : List UInt8}
    (hbs : (b ++ s).length ≤ intMax) :
    (EndsAtList t b ↔ NoShorterTx t b) ∧
      (RejectsSuffix t b s ↔ ((∃ lst its, IsTx t.wrap b lst its) → s = [])) := by
  have hb : b.length ≤ intMax := by simp only [List.length_append] at hbs; omega
  refine ⟨⟨?_, ?_⟩, ⟨?_, ?_⟩⟩
  · intro h core rest hsplit hne lst its htx
    obtain ⟨tx, hdec, -⟩ := decodeLedgerTx_of_isTx .zero hb (hsplit ▸ htx.append rest)
    obtain ⟨pl, hl, hhead, hend⟩ := h .zero tx hdec
    obtain ⟨core', rest', pl', hl', rfl, -, hlen, hhead'⟩ := isTx_split htx
    -- `b` and its initial segment have one list header, so one end of the list
    rw [List.append_assoc] at hsplit
    subst hsplit
    rw [hhead' _ hb] at hhead
    simp only [Except.ok.injEq, Option.some.injEq, Prod.mk.injEq] at hhead
    have hpos := List.length_pos_iff.mpr hne
    simp only [List.length_append] at hend
    omega
  · intro h prior tx hdec
    obtain ⟨lst, its, htx, -⟩ := decodeLedgerTx_accepted hb hdec
    obtain ⟨core, rest, pl, hl, rfl, hcore, hlen, hhead⟩ := isTx_split htx
    refine ⟨pl, hl, hhead rest hb, ?_⟩
    by_cases hne : rest = []
    · rw [hne, List.append_nil, hlen]
    · exact absurd hcore (h core rest rfl hne lst its)
  · intro h hgrammar
    by_contra hne
    obtain ⟨tx, hdec⟩ := (accepted_iff_isTx .zero hb).mpr hgrammar
    exact h .zero tx hdec hne tx (decodeLedgerTx_append hbs hdec)
  · intro h prior tx hdec hne tx' hdec'
    exact hne (h ((accepted_iff_isTx prior hb).mp ⟨tx, hdec⟩))

theorem validCreation_endsAtList :
    (∃ tx, decodeLedgerTx .device validCreation .zero = .ok (0, tx)) ∧
      (EndsAtList .device validCreation ↔ NoShorterTx .device validCreation) ∧
      (RejectsSuffix .device validCreation [0x07] ↔
        ((∃ lst its, IsTx Target.device.wrap validCreation lst its) →
          ([0x07] : List UInt8) = [])) :=
  ⟨validCreation_decodes, decodeLedgerTx_endsAtList_iff .device (by decide)⟩

/-- A byte behind that transaction is accepted with it. -/
theorem validCreation_suffix_accepted :
    ¬EndsAtList .device (validCreation ++ [0x07]) ∧
      ¬RejectsSuffix .device validCreation [0x07] := by
  obtain ⟨tx, hdec⟩ := validCreation_decodes
  have happ := decodeLedgerTx_append (s := [0x07]) (by decide) hdec
  refine ⟨?_, fun hrej => hrej .zero tx hdec (by decide) tx happ⟩
  intro hends
  obtain ⟨pl, hl, hhead, hend⟩ := hends .zero tx happ
  have hread : parseRlpListHeader .device ((validCreation ++ [0x07]).drop 1)
      ((validCreation ++ [0x07]).length - 1) = .ok (some (14, 1)) := by decide
  rw [hread] at hhead
  simp only [Except.ok.injEq, Option.some.injEq, Prod.mk.injEq] at hhead
  obtain ⟨rfl, rfl⟩ := hhead
  exact absurd hend (by decide)

end LedgerZond.DecodeGrammar
