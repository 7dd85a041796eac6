import LedgerZond.DecodeBounds

/-! # The decoder of the device and the decoder of the tests

One source, built with a `size_t` of 32 bits for the device and of 64 bits for
the unit tests and the fuzzer. The two builds read the same headers, but for
the length a long header announces, which each reduces modulo its `size_t`.
They agree exactly on the inputs in which the device accepts no header that
announces `2 ^ 32` bytes or more. -/
namespace LedgerZond.DecodeTargets
open LedgerZond.CTypes LedgerZond.Types LedgerZond.RlpDecode LedgerZond.RlpDecodeSoundness
open LedgerZond.TxGrammar LedgerZond.DecodeGrammar LedgerZond.DecodeBounds Lib.Rlp Lib.BigEndian

/-! ## What the two builds owe each other -/

/-- Both builds return the same for `b`, and the same transaction if they accept it. -/
def SameResult (b : List UInt8) : Prop :=
  ∀ prior, ∃ ret deviceTx hostTx,
    decodeLedgerTx .device b prior = .ok (ret, deviceTx) ∧
    decodeLedgerTx .host b prior = .ok (ret, hostTx) ∧ (ret = 0 → deviceTx = hostTx)

/-- The header `h` at the front of `bs` has length bytes, and the integer they
encode is larger than what is left of `bs` behind them. -/
structure Oversized (bs : List UInt8) (h : Header) : Prop where
  header : header? value bs = some h
  long : h.lenBytes ≠ []
  exceeds : bs.length < h.size + h.payloadLen

/-- Where one call of the decoder reads a header: the list's, and one for each read. -/
inductive ReadsHeader (t : Target) (b : List UInt8) (prior : ZondTx) : Nat → Prop
  | list : b.head? = some 0x02 → ReadsHeader t b prior 1
  | item {f : RlpDecode.Field} {fs : List RlpDecode.Field} {c : Cursor} {tx : ZondTx} :
    Reaches t b prior (f :: fs) c tx → ReadsHeader t b prior c.p

/-- An input in which an oversized header is read is refused. -/
def RejectsOversized (t : Target) (b : List UInt8) : Prop :=
  ∀ prior p h, ReadsHeader t b prior p → Oversized (b.drop p) h →
    ∃ tx, decodeLedgerTx t b prior = .ok (-1, tx)

/-- Neither of the two parsers takes the header at the front of `bs`. -/
def RefusesHeader (t : Target) (bs : List UInt8) : Prop :=
  parseRlpItem t bs bs.length = .ok none ∧ parseRlpListHeader t bs bs.length = .ok none

/-! ## One header -/

theorem Oversized.wrapped {bs : List UInt8} {h : Header} (t : Target) (ho : Oversized bs h) :
    header? t.wrap bs = some { h with payloadLen := t.wrap h.lenBytes } := by
  have hr : header? t.wrap bs = some (h.reread t.wrap) := header?_reread ho.header
  rw [hr, Header.reread, if_neg ho.long]

/-- An oversized header is refused unless its length, cut to a `size_t`, is no
longer too large. -/
theorem Oversized.refuses_iff {bs : List UInt8} {h : Header} (t : Target) (ho : Oversized bs h)
    (hlen : bs.length ≤ intMax) :
    RefusesHeader t bs ↔ bs.length < h.size + t.wrap h.lenBytes := by
  have hbits : bs.length < 2 ^ t.sizeBits := lt_of_le_of_lt hlen t.intMax_lt
  unfold RefusesHeader
  rw [parseRlpItem_eq hbits, parseRlpListHeader_eq hbits, ho.wrapped t]
  simp only [Option.bind, fitting, fittingList]
  by_cases hfit : h.size + t.wrap h.lenBytes ≤ bs.length
  · rw [if_pos hfit]
    constructor
    · intro hrefuses
      obtain ⟨hitem, -⟩ := hrefuses
      cases hitem
    · intro hlt
      omega
  · rw [if_neg hfit, if_neg (fun hand => hfit hand.2)]
    exact ⟨fun _ => Nat.lt_of_not_le hfit, fun _ => ⟨rfl, rfl⟩⟩

/-- The 64-bit build refuses every oversized header. -/
theorem Oversized.refuses_host {bs : List UInt8} {h : Header} (ho : Oversized bs h)
    (hlen : bs.length ≤ intMax) : RefusesHeader .host bs := by
  have hfits := header?_fits ho.header
  have hover := ho.exceeds
  rw [hfits.payloadLen_eq ho.long] at hover
  rw [ho.refuses_iff .host hlen, Target.host.wrap_eq (value_lt_host hfits.lenBytes_le)]
  exact hover

/-! ## The headers of an accepted input -/

/-- In an accepted input, the items that are left are at the cursor. -/
theorem reaches_items {t : Target} {b : List UInt8} {prior tx : ZondTx} {lst : Item}
    {its : List Item} {fs : List RlpDecode.Field} {c : Cursor} (hb : b.length ≤ intMax)
    (htx : IsTx t.wrap b lst its) (h : Reaches t b prior fs c tx) :
    ∃ bs left tail, bs <:+ b ∧ c = cursorAt b bs ∧ left <:+ its ∧
      items? t.wrap fs.length bs = some (left, tail) := by
  induction h with
  | @first listPayloadLen listHeaderLen hty hhead hle =>
    cases b with
    | nil => cases hty
    | cons ty body =>
      obtain ⟨hd, hh, -, rfl, -, -, hcur⟩ := listHeader_read hb (by simp) hhead
      obtain ⟨-, -, tail, hitem, hits, -⟩ := isTx_iff.mp htx
      obtain ⟨hd', hh', hfit, rfl, rfl⟩ := item?_eq_some hitem
      rw [List.drop_succ_cons, List.drop_zero, hh'] at hh
      cases hh
      -- the payload and what follows the list are what follows its header
      have hsplit : (body.drop hd.size).take hd.payloadLen ++
          body.drop (hd.size + hd.payloadLen) = (ty :: body).drop (1 + hd.size) := by
        rw [← List.drop_drop, List.take_append_drop, Nat.add_comm 1, List.drop_succ_cons]
      rw [hsplit] at hits
      exact ⟨_, its, _, List.drop_suffix _ _, hcur, List.suffix_rfl, hits⟩
  | next _ hread ih =>
    obtain ⟨bs, left, tail, hsuf, rfl, hleft, hits⟩ := ih
    obtain ⟨it, rest, hit, -, -, rfl, hrest⟩ := readField_some hsuf hb hread
    obtain ⟨it', rest', its', rfl, hit', hits'⟩ := items?_succ.mp hits
    rw [hit] at hit'
    cases hit'
    exact ⟨rest, its', tail, hrest, rfl, (List.suffix_cons _ _).trans hleft, hits'⟩

/-- Every header that is read in an accepted input is the list's or an item's. -/
theorem readsHeader_item {t : Target} {b : List UInt8} {prior : ZondTx} {lst : Item}
    {its : List Item} {p : Nat} (hb : b.length ≤ intMax) (htx : IsTx t.wrap b lst its)
    (h : ReadsHeader t b prior p) :
    ∃ it ∈ lst :: its, ∃ rest, item? t.wrap (b.drop p) = some (it, rest) := by
  cases h with
  | list _ =>
    obtain ⟨rest, hr⟩ := htx.list
    exact ⟨lst, List.mem_cons_self .., rest, hr⟩
  | item hreach =>
    obtain ⟨bs, left, tail, hsuf, rfl, hleft, hits⟩ := reaches_items hb htx hreach
    obtain ⟨it, rest, its', rfl, hit, -⟩ := items?_succ.mp hits
    rw [drop_cursorAt hsuf]
    exact ⟨it, List.mem_cons_of_mem _ (hleft.subset (List.mem_cons_self ..)), rest, hit⟩

/-- An oversized header is not one an accepted input has, if no length wraps. -/
theorem rejectsOversized_of_noWrap {t : Target} {b : List UInt8} (hb : b.length ≤ intMax)
    (hno : NoWrap t b) : RejectsOversized t b := by
  intro prior p h hreads ho
  obtain ⟨ret, tx, hdec, hcase⟩ := decodeLedgerTx_spec t hb prior
  rcases hcase with ⟨rfl, -⟩ | ⟨-, lst, its, htx, -⟩
  · exact ⟨tx, hdec⟩
  · obtain ⟨it, hit, rest, hitem⟩ := readsHeader_item hb htx hreads
    obtain ⟨hd, hh, hfit, rfl, -⟩ := item?_eq_some hitem
    rw [ho.wrapped t] at hh
    cases hh
    have hlt : value h.lenBytes < 2 ^ t.sizeBits := hno lst its htx _ hit
    have hover := ho.exceeds
    rw [(header?_fits ho.header).payloadLen_eq ho.long, ← t.wrap_eq hlt] at hover
    exact absurd hfit (Nat.not_le_of_lt hover)

/-! ## The two builds -/

/-- Where no length wraps on the device, both builds read the same transactions. -/
theorem isTx_device_iff_host {b : List UInt8} {lst : Item} {its : List Item}
    (hb : b.length ≤ intMax) (hno : NoWrap .device b) :
    IsTx Target.device.wrap b lst its ↔ IsTx Target.host.wrap b lst its := by
  rw [← grammar_iff_host (lt_of_le_of_lt hb (Target.intMax_lt _)),
    grammar_iff_wrap (lt_of_le_of_lt hb (Target.intMax_lt .device))]
  constructor
  · intro h
    exact ⟨h, hno lst its h⟩
  · intro h
    exact h.1

theorem sameResult_of_noWrap {b : List UInt8} (hb : b.length ≤ intMax) (hno : NoWrap .device b) :
    SameResult b := by
  intro prior
  obtain ⟨ret, deviceTx, hdec, hcase⟩ := decodeLedgerTx_spec .device hb prior
  obtain ⟨ret', hostTx, hdec', hcase'⟩ := decodeLedgerTx_spec .host hb prior
  rcases hcase with ⟨rfl, hnot⟩ | ⟨rfl, lst, its, htx, hst⟩
  · rcases hcase' with ⟨rfl, -⟩ | ⟨-, lst, its, htx, -⟩
    · exact ⟨-1, deviceTx, hostTx, hdec, hdec', fun h => by cases h⟩
    · exact absurd ((isTx_device_iff_host hb hno).mpr htx) (hnot lst its)
  · have hhost := (isTx_device_iff_host hb hno).mp htx
    rcases hcase' with ⟨-, hnot⟩ | ⟨rfl, lst', its', htx', hst'⟩
    · exact absurd hhost (hnot lst its)
    · obtain ⟨rfl, rfl⟩ := hhost.unique htx'
      rw [hst] at hst'
      exact ⟨0, deviceTx, hostTx, hdec, hdec', fun _ => Except.ok.inj hst'⟩

theorem noWrap_of_sameResult {b : List UInt8} (hb : b.length ≤ intMax) (h : SameResult b) :
    NoWrap .device b := by
  intro lst its htx
  obtain ⟨ret, deviceTx, hostTx, hdec, hdec', -⟩ := h .zero
  obtain ⟨tx, hacc, -⟩ := decodeLedgerTx_of_isTx .zero hb htx
  rw [hdec] at hacc
  cases hacc
  -- what the host accepts is a transaction of the format, whose lengths fit
  obtain ⟨lst', its', htx', -, -⟩ := decodeLedgerTx_accepted hb hdec'
  have hformat := (grammar_iff_host (lt_of_le_of_lt hb (Target.intMax_lt _))).mpr htx'
  obtain ⟨hdevice, hfit⟩ :=
    (grammar_iff_wrap (lt_of_le_of_lt hb (Target.intMax_lt .device))).mp hformat
  obtain ⟨rfl, rfl⟩ := hdevice.unique htx
  exact hfit

/-- **The tests run the device's decoder** exactly on the inputs in which the
device reads no length that wraps. A single oversized header is refused by the
64-bit build always, and by the device unless its length modulo `2 ^ 32` fits. -/
theorem decodeLedgerTx_sameOnBoth_iff {b : List UInt8} (hb : b.length ≤ maxTransactionLen) :
    ((SameResult b ∧ RejectsOversized .device b ∧ RejectsOversized .host b) ↔ NoWrap .device b) ∧
      ∀ p h, Oversized (b.drop p) h → RefusesHeader .host (b.drop p) ∧
        (RefusesHeader .device (b.drop p) ↔
          (b.drop p).length < h.size + Target.device.wrap h.lenBytes) := by
  have hi : b.length ≤ intMax := hb.trans maxTransactionLen_le
  refine ⟨⟨?_, ?_⟩, ?_⟩
  · intro hboth
    exact noWrap_of_sameResult hi hboth.1
  · intro hno
    exact ⟨sameResult_of_noWrap hi hno, rejectsOversized_of_noWrap hi hno,
      rejectsOversized_of_noWrap hi fun lst its htx => htx.fit_host⟩
  · intro p h ho
    have hlen : (b.drop p).length ≤ intMax := by
      rw [List.length_drop]
      omega
    exact ⟨ho.refuses_host hlen, ho.refuses_iff .device hlen⟩

theorem validCreation_sameOnBoth :
    ((SameResult validCreation ∧ RejectsOversized .device validCreation ∧
        RejectsOversized .host validCreation) ↔ NoWrap .device validCreation) ∧
      ∀ p h, Oversized (validCreation.drop p) h → RefusesHeader .host (validCreation.drop p) ∧
        (RefusesHeader .device (validCreation.drop p) ↔
          (validCreation.drop p).length < h.size + Target.device.wrap h.lenBytes) :=
  decodeLedgerTx_sameOnBoth_iff (by decide)

/-- The device accepts what the tests' build refuses. -/
theorem wrappingLength_not_sameOnBoth :
    ¬(SameResult wrappingLength ∧ RejectsOversized .device wrappingLength ∧
      RejectsOversized .host wrappingLength) := by
  intro hboth
  obtain ⟨hsame, -, -⟩ := hboth
  obtain ⟨ret, deviceTx, hostTx, hdec, hdec', -⟩ := hsame .zero
  have hdevice : (decodeLedgerTx .device wrappingLength .zero).map Prod.fst = .ok 0 := by decide
  have hhost : (decodeLedgerTx .host wrappingLength .zero).map Prod.fst = .ok (-1) := by decide
  rw [hdec] at hdevice
  rw [hdec'] at hhost
  cases hdevice
  cases hhost

end LedgerZond.DecodeTargets
