import LedgerZond.Types

/-! # The unsigned transaction as a grammar

What the decoder is for: the byte `0x02`, then an RLP list of exactly eleven
items, each within its bound. Stated over the reference parser, whose items
cannot leave the list's payload; nothing here is taken from the decoder. -/
namespace LedgerZond.TxGrammar
open LedgerZond.CTypes LedgerZond.Types Lib.Rlp Lib.BigEndian

/-- What the payloads of the eleven items must satisfy. -/
def itemRules : List (List UInt8 → Prop) :=
  [fun p => p.length ≤ 32,                     -- chain_id
   fun p => p.length ≤ 8,                      -- nonce
   fun p => p.length ≤ 32,                     -- gas_tip_cap
   fun p => p.length ≤ 32,                     -- gas_fee_cap
   fun p => p.length ≤ 8,                      -- gas
   fun p => p.length = 0 ∨ p.length = 64,      -- to
   fun p => p.length ≤ 32,                     -- value
   fun p => p.length ≤ 2048,                   -- data
   fun _ => True,                              -- access_list
   fun p => p = [0x01, 0x00, 0x00],            -- descriptor
   fun p => p = []]                            -- extra_params

/-- `b` is a transaction whose list is `lst` and whose items are `its`, length
bytes being read with `len`. Bytes behind the list are not looked at. -/
structure IsTx (len : List UInt8 → Nat) (b : List UInt8) (lst : Item) (its : List Item) :
    Prop where
  typeByte : b.head? = some 0x02
  list : ∃ rest, item? len (b.drop 1) = some (lst, rest)
  kind : lst.kind = .list
  items : items? len 11 lst.payload = some (its, [])
  rules : List.Forall₂ (fun rule it => rule it.payload) itemRules its

/-- No header announces more than a `size_t` holds. -/
def LengthsFit (t : Target) (its : List Item) : Prop :=
  ∀ it ∈ its, value it.lenBytes < 2 ^ t.sizeBits

/-- An array together with its length field holds exactly `payload`. -/
def HoldsField {n : Nat} (a : Bytes n) (len : Nat) (payload : List UInt8) : Prop :=
  len = payload.length ∧ a.toList.take len = payload

/-- The transaction holds the payloads of the items it was decoded from. -/
def Holds (tx : ZondTx) (its : List Item) : Prop :=
  ∃ chainId nonce tip feeCap gas recipient value data accessList descriptor extra,
    its = [chainId, nonce, tip, feeCap, gas, recipient, value, data, accessList, descriptor,
      extra] ∧
    HoldsField tx.chainId tx.chainIdLen.toNat chainId.payload ∧
    HoldsField tx.nonce tx.nonceLen.toNat nonce.payload ∧
    HoldsField tx.gasTipCap tx.gasTipCapLen.toNat tip.payload ∧
    HoldsField tx.gasFeeCap tx.gasFeeCapLen.toNat feeCap.payload ∧
    HoldsField tx.gas tx.gasLen.toNat gas.payload ∧
    HoldsField tx.toAddress tx.toLen.toNat recipient.payload ∧
    HoldsField tx.value tx.valueLen.toNat value.payload ∧
    HoldsField tx.data tx.dataLen.toNat data.payload ∧
    HoldsField tx.descriptor tx.descriptorLen.toNat descriptor.payload

/-! ## Two readings of length bytes -/

variable {len len' : List UInt8 → Nat} {b : List UInt8} {lst lst' : Item} {its its' : List Item}

/-- A reading of length bytes determines the list and the items. -/
theorem IsTx.unique (h : IsTx len b lst its) (h' : IsTx len b lst' its') :
    lst = lst' ∧ its = its' := by
  obtain ⟨rest, hr⟩ := h.list
  obtain ⟨rest', hr'⟩ := h'.list
  rw [hr] at hr'
  simp only [Option.some.injEq, Prod.mk.injEq] at hr'
  obtain ⟨rfl, -⟩ := hr'
  have hi := h.items.symm.trans h'.items
  simp only [Option.some.injEq, Prod.mk.injEq, and_true] at hi
  exact ⟨rfl, hi⟩

theorem IsTx.congr (h : IsTx len b lst its)
    (hl : ∀ it ∈ lst :: its, it.lenBytes ≠ [] → len' it.lenBytes = len it.lenBytes) :
    IsTx len' b lst its := by
  obtain ⟨rest, hr⟩ := h.list
  exact ⟨h.typeByte, ⟨rest, item?_congr hr (hl lst (by simp))⟩, h.kind,
    items?_congr h.items fun it hit => hl it (by simp [hit]), h.rules⟩

/-- Bytes behind the list change nothing. -/
theorem IsTx.append (h : IsTx len b lst its) (s : List UInt8) :
    IsTx len (b ++ s) lst its := by
  obtain ⟨rest, hr⟩ := h.list
  have hty := h.typeByte
  cases b with
  | nil => simp at hty
  | cons x body =>
    exact ⟨by simpa using hty, ⟨rest ++ s, by simpa using item?_append s hr⟩, h.kind, h.items,
      h.rules⟩

/-- Nothing a transaction's headers announce exceeds the input. -/
theorem IsTx.lenBytes_le (h : IsTx len b lst its) :
    ∀ it ∈ lst :: its, it.lenBytes ≠ [] → len it.lenBytes ≤ b.length := by
  obtain ⟨rest, hr⟩ := h.list
  have hpay : lst.payload.length ≤ b.length := by
    obtain ⟨hd, -, hle, rfl, -⟩ := item?_eq_some hr
    simp
  intro it hit hne
  rcases List.mem_cons.mp hit with rfl | hit
  · rw [item?_lenBytes hr hne]
    exact hpay
  · exact (items?_lenBytes h.items it hit hne).trans hpay

/-- On an input a `size_t` can measure, the transactions of the format are
those read with wrapped lengths whose headers announce nothing wrapped. -/
theorem grammar_iff_wrap {t : Target} (hb : b.length < 2 ^ t.sizeBits) :
    IsTx value b lst its ↔ IsTx t.wrap b lst its ∧ LengthsFit t (lst :: its) := by
  constructor
  · intro h
    have hfit : LengthsFit t (lst :: its) := by
      intro it hit
      by_cases hne : it.lenBytes = []
      · simp [hne]
      · exact lt_of_le_of_lt (h.lenBytes_le it hit hne) hb
    exact ⟨h.congr fun it hit _ => t.wrap_eq (hfit it hit), hfit⟩
  · intro hwrapped
    obtain ⟨h, hfit⟩ := hwrapped
    exact h.congr fun it hit _ => (t.wrap_eq (hfit it hit)).symm

/-- Eight length bytes always fit in a 64-bit `size_t`. -/
theorem value_lt_host {bs : List UInt8} (h8 : bs.length ≤ 8) :
    value bs < 2 ^ Target.host.sizeBits :=
  calc value bs < 256 ^ bs.length := value_lt _
    _ ≤ 256 ^ 8 := Nat.pow_le_pow_right (by omega) h8
    _ = 2 ^ Target.host.sizeBits := by decide

theorem IsTx.fit_host (h : IsTx len b lst its) : LengthsFit .host (lst :: its) := by
  obtain ⟨rest, hr⟩ := h.list
  intro it hit
  rcases List.mem_cons.mp hit with rfl | hit
  · exact value_lt_host (item?_lenBytes_length hr)
  · exact value_lt_host (items?_lenBytes_length h.items it hit)

/-- The 64-bit build reads the transactions of the format. -/
theorem grammar_iff_host (hb : b.length < 2 ^ Target.host.sizeBits) :
    IsTx value b lst its ↔ IsTx Target.host.wrap b lst its := by
  constructor
  · intro h
    exact ((grammar_iff_wrap hb).mp h).1
  · intro h
    exact (grammar_iff_wrap hb).mpr ⟨h, h.fit_host⟩

end LedgerZond.TxGrammar
