import LedgerZond.DecodeGrammar
import LedgerZond.Lib.RlpBytes

/-! # Lists where byte strings are meant

`parse_rlp_item` hands back the payload of a string and of a list alike, and no
field of `decode_ledger_tx` asks which it was. So a list passes wherever a
string with its payload does, and every accepted input has such a list put in
place of its last item. -/
namespace LedgerZond.ItemKinds
open LedgerZond.CTypes LedgerZond.Types LedgerZond.RlpDecode LedgerZond.DecodeGrammar
open LedgerZond.TxGrammar Lib.Rlp

/-! ## Exchanging an item -/

/-- All items but the access list, counted from 0. -/
def IsByteField (i : Nat) : Prop := i < 11 ∧ i ≠ 8

instance (i : Nat) : Decidable (IsByteField i) := inferInstanceAs (Decidable (_ ∧ _))

/-- `b'` is the transaction `b` with the list `it` in place of item `i`, under
any header of the eleven items that announces them. -/
structure Relisted (len : List UInt8 → Nat) (b b' : List UInt8) (i : Nat) (it : Item) : Prop where
  position : IsByteField i
  kind : it.kind = .list
  exchanged : ∃ lst lst' its raws raw rest, IsTx len b lst its ∧
    item? len (b.drop 1) = some (lst, rest) ∧ lst.payload = raws.flatten ∧
    ItemsOf len raws its ∧ item? len raw = some (it, []) ∧ b'.head? = some 0x02 ∧
    item? len (b'.drop 1) = some (lst', rest) ∧ lst'.kind = .list ∧
    lst'.payload = (raws.set i raw).flatten

/-- Where `b` is accepted, its byte fields are strings, and no list is accepted
in place of one. -/
def ByteStringFields (t : Target) (b : List UInt8) : Prop :=
  ∀ prior tx, decodeLedgerTx t b prior = .ok (0, tx) →
    (∀ lst its, IsTx t.wrap b lst its → ∀ i it, IsByteField i → its[i]? = some it →
      it.kind = .string) ∧
    ∀ b' i it, Relisted t.wrap b b' i it → b'.length ≤ intMax →
      ∀ prior' tx', decodeLedgerTx t b' prior' ≠ .ok (0, tx')

variable {t : Target} {len : List UInt8 → Nat} {b b' : List UInt8} {i : Nat} {it : Item}

theorem forall₂_set_iff {α β : Type} {R : α → β → Prop} {as : List α} {bs : List β}
    (h : List.Forall₂ R as bs) {i : Nat} {a : α} (ha : as[i]? = some a) (b : β) :
    List.Forall₂ R as (bs.set i b) ↔ R a b := by
  induction h generalizing i with
  | nil => cases ha
  | cons hfirst hrest ih =>
    cases i with
    | zero =>
      cases ha
      rw [List.set_cons_zero, List.forall₂_cons]
      exact and_iff_left hrest
    | succ i =>
      rw [List.set_cons_succ, List.forall₂_cons, ih ha]
      exact and_iff_right hfirst

/-- Whether an exchanged item is taken is up to the rule on its payload alone. -/
theorem Relisted.isTx_iff (h : Relisted len b b' i it) {rule : List UInt8 → Prop}
    (hrule : itemRules[i]? = some rule) :
    (∃ lst' its', IsTx len b' lst' its') ↔ rule it.payload := by
  obtain ⟨lst, lst', its, raws, raw, rest, htx, hlist, hpay, hraws, hraw, hty, hlist', hk, hpay'⟩ :=
    h.exchanged
  have hcount : its.length = 11 := htx.rules.length_eq.symm
  have hitems : items? len 11 lst'.payload = some (its.set i it, []) := by
    refine items?_iff_raws.mpr ⟨raws.set i raw, ?_, by rw [hpay', List.append_nil],
      hraws.set i hraw⟩
    rw [List.length_set, hraws.length_eq, hcount]
  have hset := forall₂_set_iff htx.rules hrule it
  constructor
  · rintro ⟨lst₂, its₂, htx₂⟩
    obtain ⟨rest₂, hr₂⟩ := htx₂.list
    cases hlist'.symm.trans hr₂
    have hsame := htx₂.items
    rw [hitems, Option.some.injEq, Prod.mk.injEq] at hsame
    refine hset.mp ?_
    rw [hsame.1]
    exact htx₂.rules
  · intro hpayload
    exact ⟨lst', its.set i it, hty, ⟨rest, hlist'⟩, hk, hitems, hset.mpr hpayload⟩

/-! ## The last item -/

/-- A header of the same length over a payload of the same length. -/
theorem list_repayload {body rest p : List UInt8} {lst : Item}
    (h : item? len body = some (lst, rest)) (hk : lst.kind = .list)
    (hp : p.length = lst.payload.length) :
    ∃ body', body'.length = body.length ∧
      item? len body' = some (⟨.list, lst.lenBytes, p⟩, rest) := by
  rcases item?_cases h with ⟨b, -, rfl, -⟩ | ⟨hann, rfl⟩
  · cases hk
  · rw [← hp] at hann
    refine ⟨_, ?_, item?_headerBytes .list rest hann⟩
    simp only [List.length_append, length_headerBytes, hp]

theorem length_flatten_set {raws : List (List UInt8)} (raw : List UInt8) {i : Nat}
    (hi : i < raws.length) (hlen : raw.length = raws[i].length) :
    (raws.set i raw).flatten.length = raws.flatten.length := by
  rw [List.length_flatten, List.length_flatten, List.map_set, hlen, ← List.getElem_map List.length,
    List.set_getElem_self]
  rwa [List.length_map]

/-- The last item of a transaction is empty, and an empty list can stand in
its place, in an input of the same length. -/
theorem exists_relisted {lst : Item} {its : List Item} (htx : IsTx len b lst its) :
    ∃ b' it, Relisted len b b' 10 it ∧ it.payload = [] ∧ b'.length = b.length := by
  obtain ⟨rest, hlist⟩ := htx.list
  obtain ⟨raws, hcount, hflat, hraws⟩ := items?_iff_raws.mp htx.items
  rw [List.append_nil] at hflat
  have hits : its.length = 11 := htx.rules.length_eq.symm
  have hi : 10 < raws.length := by omega
  have hread : item? len raws[10] = some (its[10], []) :=
    List.Forall₂.get hraws hi (by omega)
  have hempty : its[10].payload = [] := List.Forall₂.get htx.rules (i := 10) (by decide) (by omega)
  rcases item?_cases hread with ⟨b, -, hbyte, -⟩ | ⟨hann, hraw⟩
  · rw [hbyte] at hempty
    cases hempty
  rw [hempty] at hann hraw
  -- the same length bytes, under the first byte of a list
  have hraw' : item? len (headerBytes .list its[10].lenBytes 0 ++ [] ++ []) =
      some (⟨.list, its[10].lenBytes, []⟩, []) := item?_headerBytes (p := []) .list [] hann
  have hlen := length_flatten_set (headerBytes .list its[10].lenBytes 0 ++ [] ++ []) hi (by
    rw [hraw]
    simp only [List.length_append, length_headerBytes])
  obtain ⟨body', hbody, hlist'⟩ := list_repayload hlist htx.kind (hlen.trans (by rw [hflat]))
  have hty := htx.typeByte
  refine ⟨0x02 :: body', ⟨.list, its[10].lenBytes, []⟩, ⟨by decide, rfl, lst, _, its, raws, _,
    rest, htx, hlist, hflat, hraws, hraw', rfl, hlist', rfl, rfl⟩, rfl, ?_⟩
  cases b with
  | nil => simp at hty
  | cons x body => rw [List.length_cons, hbody, List.drop_succ_cons, List.drop_zero]; rfl

/-! ## Byte fields are not byte strings -/

/-- An accepted input is accepted with a list in place of a byte string. -/
theorem accepted_not_byteStringFields {lst : Item} {its : List Item} (hb : b.length ≤ intMax)
    (htx : IsTx t.wrap b lst its) : ¬ByteStringFields t b := by
  intro hfields
  obtain ⟨b', it, hrelisted, hempty, hlen⟩ := exists_relisted htx
  have hb' : b'.length ≤ intMax := by rw [hlen]; exact hb
  obtain ⟨tx, hdec⟩ := (accepted_iff_isTx .zero hb).mpr ⟨lst, its, htx⟩
  obtain ⟨tx', hdec'⟩ :=
    (accepted_iff_isTx .zero hb').mpr ((hrelisted.isTx_iff (i := 10) rfl).mpr hempty)
  exact (hfields .zero tx hdec).2 b' 10 it hrelisted hb' .zero tx' hdec'

/-- **Lists pass for byte strings**: on no input that is accepted are the byte
fields strings only, for a list is taken in place of one exactly when a string
with its payload would be. -/
theorem byteStringFields_iff (t : Target) {b : List UInt8} (hb : b.length ≤ intMax) :
    (ByteStringFields t b ↔ ∀ lst its, ¬IsTx t.wrap b lst its) ∧
      ∀ b' i it rule, Relisted t.wrap b b' i it → b'.length ≤ intMax →
        itemRules[i]? = some rule →
        ((∃ prior tx, decodeLedgerTx t b' prior = .ok (0, tx)) ↔ rule it.payload) := by
  refine ⟨⟨?_, ?_⟩, ?_⟩
  · intro hfields lst its htx
    exact accepted_not_byteStringFields hb htx hfields
  · intro hno prior tx hdec
    obtain ⟨lst, its, htx⟩ := (accepted_iff_isTx prior hb).mp ⟨tx, hdec⟩
    exact absurd htx (hno lst its)
  · intro b' i it rule hrelisted hb' hrule
    rw [← hrelisted.isTx_iff hrule]
    constructor
    · rintro ⟨prior, hacc⟩
      exact (accepted_iff_isTx prior hb').mp hacc
    · intro hgrammar
      exact ⟨.zero, (accepted_iff_isTx .zero hb').mpr hgrammar⟩

/-- The contract creation whose nonce is an empty list. -/
def listNonce : List UInt8 :=
  [0x02, 0xce, 0x80, 0xc0, 0x80, 0x80, 0x80, 0x80, 0x80, 0x80, 0x80, 0x83, 1, 0, 0, 0x80]

/-- The items of a creation with those bytes of its nonce. -/
def creationRaws (nonce : List UInt8) : List (List UInt8) :=
  [[0x80], nonce, [0x80], [0x80], [0x80], [0x80], [0x80], [0x80], [0x80], [0x83, 1, 0, 0], [0x80]]

def emptyItem : Item := ⟨.string, [], []⟩

def creationItems : List Item :=
  List.replicate 9 emptyItem ++ [⟨.string, [], [1, 0, 0]⟩, emptyItem]

theorem validCreation_isTx :
    IsTx Target.device.wrap validCreation ⟨.list, [], validCreation.drop 2⟩ creationItems where
  typeByte := rfl
  list := ⟨[], by decide⟩
  kind := rfl
  items := by decide
  rules := (accepts_iff_rules _).mp (by decide)

/-- An empty list in place of its nonce. -/
theorem listNonce_relisted :
    Relisted Target.device.wrap validCreation listNonce 1 ⟨.list, [], []⟩ where
  position := by decide
  kind := rfl
  exchanged := ⟨_, ⟨.list, [], listNonce.drop 2⟩, _, creationRaws [0x80], [0xc0], [],
    validCreation_isTx, by decide, by decide, by unfold ItemsOf; decide, by decide, rfl, by decide,
    rfl, by decide⟩

/-- It is accepted in the place of an empty nonce. -/
theorem listNonce_byteStringFields :
    Relisted Target.device.wrap validCreation listNonce 1 ⟨.list, [], []⟩ ∧
      (ByteStringFields .device validCreation ↔
        ∀ lst its, ¬IsTx Target.device.wrap validCreation lst its) ∧
      ((∃ prior tx, decodeLedgerTx .device listNonce prior = .ok (0, tx)) ↔
        ([] : List UInt8).length ≤ 8) := by
  obtain ⟨hfields, hlists⟩ := @byteStringFields_iff .device validCreation (by decide)
  exact ⟨listNonce_relisted, hfields, hlists listNonce 1 _ _ listNonce_relisted (by decide) rfl⟩

/-- It is accepted, so neither of the two has byte strings only. -/
theorem listNonce_accepted :
    Relisted Target.device.wrap validCreation listNonce 1 ⟨.list, [], []⟩ ∧
      (∃ tx, decodeLedgerTx .device listNonce .zero = .ok (0, tx)) ∧
      ¬ByteStringFields .device listNonce ∧ ¬ByteStringFields .device validCreation := by
  obtain ⟨tx, hdec, -⟩ := accepted_of_map .device listNonce .zero (fun _ => ()) () (by decide)
  obtain ⟨lst, its, htx⟩ := (accepted_iff_isTx .zero (by decide)).mp ⟨tx, hdec⟩
  exact ⟨listNonce_relisted, ⟨tx, hdec⟩, accepted_not_byteStringFields (by decide) htx,
    accepted_not_byteStringFields (by decide) validCreation_isTx⟩

end LedgerZond.ItemKinds
