import LedgerZond.RlpDecode

/-! # The item parser is the reference parser with a wrapped length

On an input a `size_t` can measure, `parse_rlp_item` and
`parse_rlp_list_header` make no access outside it and return what
`Rlp.header?` reads there when length bytes are reduced modulo the width of
`size_t`; so on lists they agree, and what is behind an item does not change it
(`parsers_agree`). The chained reads of `decode_ledger_tx` are then `Rlp.items?`. -/
namespace LedgerZond.RlpDecodeSoundness
open LedgerZond.CTypes LedgerZond.Types LedgerZond.RlpDecode
open Lib.Rlp

/-! ## The length loop -/

theorem readLength_eq {t : Target} {input : List UInt8} :
    ∀ (count i : Nat), 1 + i + count ≤ input.length →
      readLength t input i count (t.wrap ((input.drop 1).take i)) =
        .ok (t.wrap ((input.drop 1).take (i + count)))
  | 0, _, _ => rfl
  | count + 1, i, h => by
    have hi : i < (input.drop 1).length := by simp; omega
    have hb : input[1 + i]? = some (input.drop 1)[i] := by
      simp [Nat.add_comm 1 i, List.getElem?_eq_getElem (show i + 1 < input.length by omega)]
    have hnext : (input.drop 1).take i ++ [(input.drop 1)[i]] = (input.drop 1).take (i + 1) :=
      List.take_append_getElem hi
    simp only [readLength, readByte_ok hb, bind, Except.bind, t.shift_or]
    rw [hnext, readLength_eq count (i + 1) (by omega)]
    congr 3
    omega

theorem readLength_zero {t : Target} {input : List UInt8} {count : Nat}
    (h : 1 + count ≤ input.length) :
    readLength t input 0 count 0 = .ok (t.wrap ((input.drop 1).take count)) := by
  have hloop := @readLength_eq t input count 0 (by omega)
  simpa [Target.wrap] using hloop

/-! ## Items -/

/-- What `parse_rlp_item` hands back for a header. -/
def parsedOf (h : Header) : ParsedItem := ⟨h.size, h.payloadLen, toInt (h.size + h.payloadLen)⟩

/-- A header whose payload fits in `n` bytes. -/
def fitting (n : Nat) (h : Header) : Option ParsedItem :=
  if h.size + h.payloadLen ≤ n then some (parsedOf h) else none

theorem fitting_eq_some_iff {n : Nat} {h : Header} {it : ParsedItem} :
    fitting n h = some it ↔ h.size + h.payloadLen ≤ n ∧ it = parsedOf h := by
  unfold fitting
  split
  · rename_i hfit
    rw [Option.some.injEq, eq_comm]
    exact (and_iff_right hfit).symm
  · rename_i hno
    simp [hno]

theorem parseLong_eq {t : Target} {b : UInt8} {rest : List UInt8} {n : Nat} (kind : Kind)
    (hlen : (b :: rest).length < 2 ^ t.sizeBits) :
    parseLong t (b :: rest) (b :: rest).length n =
      .ok ((longHeader t.wrap kind n rest).bind (fitting (b :: rest).length)) := by
  have h1 : t.sub (b :: rest).length 1 = rest.length := t.sub_cons hlen
  unfold parseLong longHeader
  rw [h1]
  by_cases hn : n ≤ rest.length
  · rw [if_neg (by omega), if_pos hn, readLength_zero (by simp; omega),
      t.sub_eq hn (by simp at hlen; omega)]
    simp only [bind, Except.bind, Option.bind, fitting, parsedOf, List.drop_succ_cons,
      List.drop_zero]
    by_cases hfit : t.wrap (rest.take n) ≤ rest.length - n
    · have hall : 1 + n + t.wrap (rest.take n) < 2 ^ t.sizeBits := by simp at hlen; omega
      rw [if_neg (by omega), if_pos (by simp; omega), t.add_eq (a := 1) (by omega), t.add_eq hall]
      rfl
    · rw [if_pos (by omega), if_neg (by simp; omega)]
      rfl
  · rw [if_pos (by omega), if_neg hn]
    rfl

/-- `parse_rlp_item` on a whole input stays inside it and reads its front header. -/
theorem parseRlpItem_eq {t : Target} {input : List UInt8} (hlen : input.length < 2 ^ t.sizeBits) :
    parseRlpItem t input input.length =
      .ok ((header? t.wrap input).bind (fitting input.length)) := by
  cases input with
  | nil => rfl
  | cons b rest =>
    have hb := b.toNat_lt
    have h1 : t.sub (b :: rest).length 1 = rest.length := t.sub_cons hlen
    have hadd : ∀ k, k < 256 → t.add 1 k = 1 + k := fun k hk =>
      t.add_eq (lt_of_le_of_lt (by simp [intMax]; omega) t.intMax_lt)
    have hread : readByte (b :: rest) 0 = .ok b := rfl
    unfold parseRlpItem
    rw [if_neg (by simp), hread]
    simp only [bind, Except.bind, pure, Except.pure, header?, h1]
    split_ifs with c1 c2 c3 c4 c5 c6
    · simp [fitting, parsedOf]
      rfl
    · simp [fitting, if_neg (show ¬(1 + (b.toNat - 0x80) ≤ rest.length + 1) by omega)]
    · simp [fitting, parsedOf, if_pos (show 1 + (b.toNat - 0x80) ≤ rest.length + 1 by omega),
        hadd _ (show b.toNat - 0x80 < 256 by omega)]
    · exact parseLong_eq .string hlen
    · rw [hadd _ (by omega)] at c6
      simp only [List.length_cons] at c6
      simp [fitting, if_neg (show ¬(1 + (b.toNat - 0xc0) ≤ rest.length + 1) by omega)]
    · rw [hadd _ (by omega)] at c6 ⊢
      simp only [List.length_cons] at c6
      simp [fitting, parsedOf, if_pos (show 1 + (b.toNat - 0xc0) ≤ rest.length + 1 by omega)]
    · exact parseLong_eq .list hlen

/-- What `parse_rlp_item` takes is a front header whose payload is there. -/
theorem parseRlpItem_eq_some_iff {t : Target} {input : List UInt8}
    (hlen : input.length < 2 ^ t.sizeBits) {it : ParsedItem} :
    parseRlpItem t input input.length = .ok (some it) ↔ ∃ hd,
      header? t.wrap input = some hd ∧ hd.size + hd.payloadLen ≤ input.length ∧
        it = parsedOf hd := by
  rw [parseRlpItem_eq hlen, Except.ok.injEq, Option.bind_eq_some_iff]
  simp only [fitting_eq_some_iff]

/-- What `parse_rlp_list_header` hands back for a header. -/
def fittingList (n : Nat) (h : Header) : Option (Nat × Nat) :=
  if h.kind = .list ∧ h.size + h.payloadLen ≤ n then some (h.payloadLen, h.size) else none

theorem fittingList_eq_some_iff {n : Nat} {h : Header} {r : Nat × Nat} :
    fittingList n h = some r ↔
      h.kind = .list ∧ h.size + h.payloadLen ≤ n ∧ r = (h.payloadLen, h.size) := by
  unfold fittingList
  split
  · rename_i hk
    rw [Option.some.injEq, eq_comm, ← and_assoc]
    exact (and_iff_right hk).symm
  · rename_i hno
    rw [← and_assoc]
    simp [hno]

/-- `parse_rlp_list_header` on a whole input stays inside it and reads its
front header when that is a list's. -/
theorem parseRlpListHeader_eq {t : Target} {input : List UInt8}
    (hlen : input.length < 2 ^ t.sizeBits) :
    parseRlpListHeader t input input.length =
      .ok ((header? t.wrap input).bind (fittingList input.length)) := by
  cases input with
  | nil => rfl
  | cons b rest =>
    have hb := b.toNat_lt
    have h1 : t.sub (b :: rest).length 1 = rest.length := t.sub_cons hlen
    have hread : readByte (b :: rest) 0 = .ok b := rfl
    have hstring : ∀ n, (longHeader t.wrap .string n rest).bind (fittingList (b :: rest).length) =
        none := by
      intro n
      unfold longHeader
      split <;> simp [fittingList]
    unfold parseRlpListHeader
    rw [if_neg (by simp), hread]
    simp only [bind, Except.bind, pure, Except.pure, header?, h1]
    by_cases c1 : b.toNat ≤ 0x7f
    · rw [if_neg (by omega), if_neg (by omega), if_pos c1]
      simp [fittingList]
    by_cases c2 : b.toNat ≤ 0xb7
    · rw [if_neg (by omega), if_neg (by omega), if_neg c1, if_pos c2]
      simp [fittingList]
    by_cases c3 : b.toNat ≤ 0xbf
    · rw [if_neg (by omega), if_neg (by omega), if_neg c1, if_neg c2, if_pos c3, hstring]
    by_cases c4 : b.toNat ≤ 0xf7
    · rw [if_pos (by omega), if_neg c1, if_neg c2, if_neg c3, if_pos c4]
      split_ifs with c5
      · simp [fittingList, if_neg (show ¬(1 + (b.toNat - 0xc0) ≤ rest.length + 1) by omega)]
      · simp [fittingList, if_pos (show 1 + (b.toNat - 0xc0) ≤ rest.length + 1 by omega)]
    rw [if_neg (by omega), if_pos (by omega), if_neg c1, if_neg c2, if_neg c3, if_neg c4]
    unfold longHeader
    by_cases hn : b.toNat - 0xf7 ≤ rest.length
    · have hadd : t.add 1 (b.toNat - 0xf7) = 1 + (b.toNat - 0xf7) :=
        t.add_eq (by simp at hlen; omega)
      have hsub : t.sub (b :: rest).length (1 + (b.toNat - 0xf7)) =
          rest.length - (b.toNat - 0xf7) := by
        rw [t.sub_eq (by simp; omega) hlen]
        simp
        omega
      rw [if_neg (by omega), if_pos hn, readLength_zero (by simp; omega), hadd, hsub]
      simp only [List.drop_succ_cons, List.drop_zero, Option.bind, fittingList, true_and]
      split_ifs with c5 c6 c6
      · simp at c6
        omega
      · rfl
      · rfl
      · simp at c6
        omega
    · rw [if_pos (by omega), if_neg hn]
      rfl

/-- What `parse_rlp_list_header` takes is a list's, as `parse_rlp_item` would. -/
theorem parseRlpListHeader_eq_some_iff {t : Target} {input : List UInt8}
    (hlen : input.length < 2 ^ t.sizeBits) {r : Nat × Nat} :
    parseRlpListHeader t input input.length = .ok (some r) ↔ ∃ hd,
      header? t.wrap input = some hd ∧ hd.kind = .list ∧
        hd.size + hd.payloadLen ≤ input.length ∧ r = (hd.payloadLen, hd.size) := by
  rw [parseRlpListHeader_eq hlen, Except.ok.injEq, Option.bind_eq_some_iff]
  simp only [fittingList_eq_some_iff]

/-! ## The two parsers -/

/-- On an input that starts like a list the header parser is the item parser
without the returned `int`. -/
theorem parseRlpListHeader_eq_map {t : Target} {b : UInt8} {rest : List UInt8}
    (hlen : (b :: rest).length < 2 ^ t.sizeBits) (hb : 0xc0 ≤ b.toNat) :
    parseRlpListHeader t (b :: rest) (b :: rest).length =
      (parseRlpItem t (b :: rest) (b :: rest).length).map
        (Option.map fun it => (it.outLen, it.outData)) := by
  rw [parseRlpListHeader_eq hlen, parseRlpItem_eq hlen, Except.map, Except.ok.injEq]
  cases hh : header? t.wrap (b :: rest) with
  | none => rfl
  | some hd =>
    have hk : hd.kind = .list := (header?_kind hh).mpr hb
    simp only [Option.bind, fitting, fittingList, hk, true_and]
    split <;> rfl

/-- `parse_rlp_list_header` succeeds where `parse_rlp_item` does, with the same
payload. -/
structure ListParsersAgree (t : Target) (input : List UInt8) : Prop where
  succeed : (∃ payloadLen headerLen,
      parseRlpListHeader t input input.length = .ok (some (payloadLen, headerLen))) ↔
    ∃ it, parseRlpItem t input input.length = .ok (some it)
  agree : ∀ payloadLen headerLen it,
    parseRlpListHeader t input input.length = .ok (some (payloadLen, headerLen)) →
    parseRlpItem t input input.length = .ok (some it) →
    it.outData = headerLen ∧ it.outLen = payloadLen ∧
      it.consumed = ((headerLen + payloadLen : Nat) : Int)

/-- `parse_rlp_item` consumes the first `n` bytes of an input for `it`, and
nothing but these decides what it hands back. -/
structure Consumes (t : Target) (input : List UInt8) (it : ParsedItem) (n : Nat) : Prop where
  pos : 1 ≤ n
  le : n ≤ input.length
  returned : it.consumed = toInt n
  returned_eq : input.length ≤ intMax ∨ input.length < 2 ^ 32 ∧ 0 ≤ it.consumed → it.consumed = n
  shared : ∀ input', input'.length < 2 ^ t.sizeBits → input.take n <+: input' →
    parseRlpItem t input' input'.length = .ok (some it)

theorem listParsersAgree {t : Target} {b : UInt8} {rest : List UInt8}
    (hlen : (b :: rest).length ≤ intMax) (hb : 0xc0 ≤ b.toNat) :
    ListParsersAgree t (b :: rest) := by
  have hbits := lt_of_le_of_lt hlen t.intMax_lt
  have hmap := parseRlpListHeader_eq_map hbits hb
  refine ⟨⟨?_, ?_⟩, ?_⟩
  · rintro ⟨payloadLen, headerLen, hheader⟩
    obtain ⟨hd, hh, -, hfit, -⟩ := (parseRlpListHeader_eq_some_iff hbits).mp hheader
    exact ⟨parsedOf hd, (parseRlpItem_eq_some_iff hbits).mpr ⟨hd, hh, hfit, rfl⟩⟩
  · rintro ⟨it, hitem⟩
    rw [hmap, hitem]
    exact ⟨it.outLen, it.outData, rfl⟩
  · intro payloadLen headerLen it hheader hitem
    rw [hmap, hitem] at hheader
    cases hheader
    obtain ⟨hd, -, hfit, rfl⟩ := (parseRlpItem_eq_some_iff hbits).mp hitem
    simp only [parsedOf, true_and]
    exact toInt_eq (hfit.trans hlen)

theorem parseRlpItem_consumes {t : Target} {input : List UInt8} {it : ParsedItem}
    (hlen : input.length < 2 ^ t.sizeBits)
    (h : parseRlpItem t input input.length = .ok (some it)) :
    Consumes t input it (it.outData + it.outLen) := by
  obtain ⟨hd, hh, hfit, rfl⟩ := (parseRlpItem_eq_some_iff hlen).mp h
  have hpos : 0 < hd.size + hd.payloadLen := (header?_fits hh).pos
  constructor
  case pos => exact hpos
  case le => exact hfit
  case returned => simp only [parsedOf]
  case returned_eq =>
    simp only [parsedOf]
    rintro (hmax | ⟨hlt, hnonneg⟩)
    · exact toInt_eq (hfit.trans hmax)
    · exact eq_of_toInt_nonneg (lt_of_le_of_lt hfit hlt) hnonneg
  case shared =>
    intro input' hlen' hshared
    have hsize : hd.size + hd.payloadLen ≤ input'.length :=
      (List.length_take_of_le hfit).symm.trans_le hshared.length_le
    exact (parseRlpItem_eq_some_iff hlen').mpr
      ⟨hd, header?_shared hh hpos (Nat.le_add_right _ _) hshared, hsize, rfl⟩

/-- **The two list parsers agree**, and an item is decided by its own bytes. -/
theorem parsers_agree (t : Target) :
    (∀ b rest, (b :: rest).length ≤ intMax → 0xc0 ≤ b.toNat → ListParsersAgree t (b :: rest)) ∧
      ∀ input it, input.length < 2 ^ t.sizeBits →
        parseRlpItem t input input.length = .ok (some it) →
        Consumes t input it (it.outData + it.outLen) :=
  ⟨fun _ _ hlen hb => listParsersAgree hlen hb, fun _ _ hlen h => parseRlpItem_consumes hlen h⟩

/-- A list of one byte, with a byte behind it. -/
example : parseRlpListHeader .device [0xc1, 0x05, 0x07] 3 = .ok (some (1, 1)) ∧
    parseRlpItem .device [0xc1, 0x05, 0x07] 3 = .ok (some ⟨1, 1, 2⟩) := by
  decide +kernel

/-! ## The chain of reads -/

/-- The cursor that stands before the last bytes `rest` of the input. -/
def cursorAt (rlp rest : List UInt8) : Cursor := ⟨rlp.length - rest.length, rest.length⟩

/-- What is left of the input at such a cursor. -/
theorem drop_cursorAt {rlp rest : List UInt8} (h : rest <:+ rlp) :
    rlp.drop (cursorAt rlp rest).p = rest := (List.suffix_iff_eq_drop.mp h).symm

/-- An item passes a field's tests. -/
def Accepts (f : Field) (it : Item) : Prop :=
  f.lenOk it.payload.length = true ∧ f.contentOk it.payload = true

instance (f : Field) (it : Item) : Decidable (Accepts f it) := inferInstanceAs (Decidable (_ ∧ _))

theorem readField_eq {t : Target} {rlp bs : List UInt8} (f : Field) (tx : ZondTx)
    (hsuf : bs <:+ rlp) (hlen : rlp.length ≤ intMax) :
    readField t rlp f (cursorAt rlp bs) tx =
      match item? t.wrap bs with
      | none => .ok (none, tx)
      | some (it, rest) =>
        if Accepts f it then (f.store tx it.payload).map fun tx' => (some (cursorAt rlp rest), tx')
        else .ok (none, tx) := by
  have hdrop : rlp.drop (rlp.length - bs.length) = bs := drop_cursorAt hsuf
  have hle := hsuf.length_le
  have hbits := t.intMax_lt
  unfold readField
  simp only [cursorAt, hdrop]
  rw [parseRlpItem_eq (by omega)]
  simp only [bind, Except.bind, pure, Except.pure, item?]
  cases hh : header? t.wrap bs with
  | none => rfl
  | some h =>
    simp only [Option.bind, fitting]
    by_cases hfit : h.size + h.payloadLen ≤ bs.length
    · have hint : toInt (h.size + h.payloadLen) = ((h.size + h.payloadLen : Nat) : Int) :=
        toInt_eq (by omega)
      have hnn : ¬((h.size + h.payloadLen : Nat) : Int) < 0 := by omega
      have hpay : ((bs.drop h.size).take h.payloadLen).length = h.payloadLen := by simp; omega
      rw [if_pos hfit, if_pos hfit]
      simp only [parsedOf, hint, hnn, decide_false, Bool.false_or, readBytes_ok hfit,
        Int.toNat_natCast, Accepts, hpay, List.length_drop]
      rw [t.sub_eq hfit (by omega)]
      cases hl : f.lenOk h.payloadLen
      · rfl
      cases hc : f.contentOk ((bs.drop h.size).take h.payloadLen)
      · rfl
      simp only [Bool.not_true, Bool.false_eq_true, if_false, if_true, and_self]
      cases f.store tx ((bs.drop h.size).take h.payloadLen) with
      | error e => rfl
      | ok tx' =>
        have hp : rlp.length - bs.length + (h.size + h.payloadLen) =
            rlp.length - (bs.length - (h.size + h.payloadLen)) := by omega
        rw [hp]
        rfl
    · rw [if_neg hfit, if_neg hfit]

/-- A field whose store stays inside its destination on every payload it accepts. -/
def Stores (f : Field) : Prop :=
  ∀ tx val, f.lenOk val.length = true → ∃ tx', f.store tx val = .ok tx'

theorem fields_store : ∀ f ∈ fields, Stores f := by
  intro f hf tx val hl
  simp only [fields, List.mem_cons, List.not_mem_nil, or_false] at hf
  rcases hf with rfl | rfl | rfl | rfl | rfl | rfl | rfl | rfl | rfl | rfl | rfl
  · exact ⟨_, by simp only [chainId, memcpy_ok _ (of_decide_eq_true hl)]; rfl⟩
  · exact ⟨_, by simp only [nonce, memcpy_ok _ (of_decide_eq_true hl)]; rfl⟩
  · exact ⟨_, by simp only [gasTipCap, memcpy_ok _ (of_decide_eq_true hl)]; rfl⟩
  · exact ⟨_, by simp only [gasFeeCap, memcpy_ok _ (of_decide_eq_true hl)]; rfl⟩
  · exact ⟨_, by simp only [gas, memcpy_ok _ (of_decide_eq_true hl)]; rfl⟩
  · have hle : val.length ≤ addressLength := (of_decide_eq_true hl).elim le_of_eq (by omega)
    exact ⟨_, by simp only [recipient, memcpyIfAny_ok _ hle]; rfl⟩
  · exact ⟨_, by simp only [value, memcpy_ok _ (of_decide_eq_true hl)]; rfl⟩
  · exact ⟨_, by simp only [data, memcpyIfAny_ok _ (of_decide_eq_true hl)]; rfl⟩
  · exact ⟨_, rfl⟩
  · have hle : val.length ≤ 3 := le_of_eq (of_decide_eq_true hl)
    exact ⟨_, by simp only [descriptor, memcpy_ok _ hle]; rfl⟩
  · exact ⟨_, rfl⟩

/-- The stores of a list of fields, in order. -/
def storeAll : List Field → List Item → ZondTx → Except Fault ZondTx
  | f :: fs, it :: its, tx => do
    let tx' ← f.store tx it.payload
    storeAll fs its tx'
  | _, _, tx => .ok tx

/-- **The chain of reads.** It never leaves the input or a destination, and it
runs to its end exactly when the input starts with that many items, each
passing its field's tests. -/
theorem readFields_eq {t : Target} {rlp : List UInt8} (hlen : rlp.length ≤ intMax) :
    ∀ (fs : List Field) (bs : List UInt8) (tx : ZondTx), (∀ f ∈ fs, Stores f) → bs <:+ rlp →
      ∃ c tx', readFields t rlp fs (cursorAt rlp bs) tx = .ok (c, tx') ∧
        ((c = none ∧ ∀ its rest, items? t.wrap fs.length bs = some (its, rest) →
            ¬List.Forall₂ Accepts fs its) ∨
          ∃ its rest, c = some (cursorAt rlp rest) ∧
            items? t.wrap fs.length bs = some (its, rest) ∧ List.Forall₂ Accepts fs its ∧
            storeAll fs its tx = .ok tx')
  | [], bs, tx, _, _ => ⟨some (cursorAt rlp bs), tx, rfl, .inr ⟨[], bs, rfl, rfl, .nil, rfl⟩⟩
  | f :: fs, bs, tx, hst, hsuf => by
    simp only [readFields, readField_eq f tx hsuf hlen, bind, Except.bind]
    cases hit : item? t.wrap bs with
    | none =>
      refine ⟨none, tx, rfl, .inl ⟨rfl, ?_⟩⟩
      intro its rest hi
      obtain ⟨it, r, its', rfl, hit', -⟩ := items?_succ.mp hi
      rw [hit] at hit'
      cases hit'
    | some p =>
      obtain ⟨it, rest⟩ := p
      -- the items of `bs` are `it` and those of `rest`
      have hcons : ∀ its after, items? t.wrap (f :: fs).length bs = some (its, after) →
          ∃ its', its = it :: its' ∧ items? t.wrap fs.length rest = some (its', after) := by
        intro its after hi
        obtain ⟨it', r, its', rfl, hit', hr⟩ := items?_succ.mp hi
        rw [hit] at hit'
        simp only [Option.some.injEq, Prod.mk.injEq] at hit'
        obtain ⟨rfl, rfl⟩ := hit'
        exact ⟨its', rfl, hr⟩
      by_cases hacc : Accepts f it
      · obtain ⟨tx1, htx1⟩ := hst f (by simp) tx it.payload hacc.1
        obtain ⟨raw, hraw, -⟩ := item?_eq_some_iff.mp hit
        obtain ⟨c, tx', hrun, hcase⟩ := readFields_eq (t := t) hlen fs rest tx1
          (fun g hg => hst g (by simp [hg])) (List.IsSuffix.trans ⟨raw, hraw.symm⟩ hsuf)
        refine ⟨c, tx', by simp only [if_pos hacc, htx1, Except.map]; exact hrun, ?_⟩
        rcases hcase with ⟨rfl, hno⟩ | ⟨its, after, hc, hi, ha, hs⟩
        · refine .inl ⟨rfl, ?_⟩
          intro its after hi hall
          obtain ⟨its', rfl, hr⟩ := hcons its after hi
          exact hno its' after hr (List.forall₂_cons.mp hall).2
        · refine .inr ⟨it :: its, after, hc, items?_succ.mpr ⟨it, rest, its, rfl, hit, hi⟩,
            .cons hacc ha, ?_⟩
          simp only [storeAll, htx1, bind, Except.bind, hs]
      · refine ⟨none, tx, by simp only [if_neg hacc]; rfl, .inl ⟨rfl, ?_⟩⟩
        intro its after hi hall
        obtain ⟨its', rfl, -⟩ := hcons its after hi
        exact hacc (List.forall₂_cons.mp hall).1

end LedgerZond.RlpDecodeSoundness
