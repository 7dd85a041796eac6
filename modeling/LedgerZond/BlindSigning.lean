import LedgerZond.SignedBytes

/-! # The warning of blind signing

A transaction with data is shown with the warning of blind signing. Where its
data is to be shown parameter by parameter and is not a selector and whole
words, the review falls back to the one without the warning: that is the only
way to it. -/
namespace LedgerZond.BlindSigning
open LedgerZond.CTypes LedgerZond.Types LedgerZond.Platform LedgerZond.AppState
open LedgerZond.RlpDecode LedgerZond.App LedgerZond.Requests LedgerZond.Displays LedgerZond.Steps
open LedgerZond.TxGrammar LedgerZond.DecodeGrammar LedgerZond.SignedBytes

variable {sdk : Sdk} {hist : History} {s : State} {e : Event} {r : Result} {o : Outcome}

/-- A review of a transaction with data that is put on screen warns. -/
def WarnsOfData (r : Result) : Prop :=
  ∀ pairs blind, Effect.draw (.transaction pairs blind) ∈ r.2 →
    r.1.ctx.txInfo.txData.dataLen ≠ 0 → blind = true

/-- A last chunk completes a call of a contract that is to be shown parameter
by parameter and whose data is not a selector and whole words. -/
def FallsBack (sdk : Sdk) (s : State) (e : Event) : Prop :=
  ∃ cdata o txData, Event.request e = some (.last cdata) ∧ Event.outcome e = some o ∧
    ChunkFits s.ctx cdata ∧ o.keccak = .ok ∧
    decodeLedgerTx .device (s.ctx.txInfo.rawTx.bytes ++ cdata) s.ctx.txInfo.txData =
      .ok (0, txData) ∧
    DebugsCall (decoded sdk txData s) ∧ txData.dataLen.toNat % abiSlotSize ≠ abiSelectorSize ∧
    DisplayOk o

/-! ## The parser of the call data -/

/-- The parser accepts a selector and whole words. -/
theorem abiCalldataParse_fst (calldata : List UInt8) :
    (abiCalldataParse calldata).1 = true ↔ calldata.length % abiSlotSize = abiSelectorSize := by
  unfold abiCalldataParse abiSlotSize abiSelectorSize
  by_cases hshort : calldata.length < 4
  · rw [if_pos hshort]
    exact iff_of_false (by simp) (by omega)
  rw [if_neg hshort]
  by_cases hrest : (calldata.length - 4) % 64 > 0
  · simp only [if_pos hrest]
    exact iff_of_false (by simp) (by omega)
  · simp only [if_neg hrest]
    exact iff_of_true trivial (by omega)

/-- The data of a decoded transaction is as long as it says. -/
theorem data_length {b : List UInt8} {prior tx : ZondTx} (hb : b.length ≤ maxTransactionLen)
    (h : decodeLedgerTx .device b prior = .ok (0, tx)) :
    (tx.data.toList.take tx.dataLen.toNat).length = tx.dataLen.toNat := by
  obtain ⟨lst, its, -, -, hholds⟩ := decodeLedgerTx_accepted (hb.trans maxTransactionLen_le) h
  obtain ⟨_, _, _, _, _, _, _, it, _, _, _, -, -, -, -, -, -, -, -, hdata, -⟩ := hholds
  rw [hdata.2, hdata.1]

/-! ## The reviews -/

theorem displayed_txInfo {blind : Bool} (hd : Displayed sdk o blind s r) :
    r.1.ctx.txInfo = s.ctx.txInfo := by
  cases hd <;> rfl

theorem displayed_warnsOfData {blind : Bool} (hd : Displayed sdk o blind s r) (hp : IsParsed s.ctx)
    (hdata : s.ctx.txInfo.txData.dataLen ≠ 0) :
    WarnsOfData r ↔ ¬(blind = false ∧ DisplayOk o) := by
  cases hd with
  | badState hno => exact absurd hp hno
  | failed pk address _ hfail =>
    refine iff_of_true ?_ fun h => hfail h.2
    intro pairs blind' hmem
    simp at hmem
  | shown pairs _ hok _ =>
    constructor
    · rintro h ⟨rfl, -⟩
      exact absurd (h pairs false (by simp) hdata) (by simp)
    · intro h pairs' blind' hmem _
      simp only [List.mem_cons, reduceCtorEq, Effect.draw.injEq, Screen.transaction.injEq,
        List.not_mem_nil, or_false, false_or] at hmem
      rw [hmem.2]
      simpa [hok] using h

theorem reviewed_warnsOfData (hr : Reviewed sdk o s r) (hp : IsParsed s.ctx) :
    WarnsOfData r ↔ ¬(DebugsCall s ∧ (parsedCalldata s).1 = false ∧ DisplayOk o) := by
  cases hr with
  | refused _ hoff =>
    refine iff_of_true ?_ fun h => h.1.2.2.2 hoff
    intro pairs blind hmem
    simp at hmem
  | selector pair count _ hparse =>
    refine iff_of_true ?_ fun h => by simp [hparse] at h
    intro pairs blind hmem
    simp at hmem
  | fallback hdebug hparse hd =>
    have hdata : s.ctx.txInfo.txData.dataLen ≠ 0 := by
      have := hdebug.2.1
      grind
    rw [displayed_warnsOfData hd ⟨hp.1, hp.2⟩ hdata]
    simp [hdebug, hparse]
  | blind hdata hno hd =>
    rw [displayed_warnsOfData hd hp hdata]
    simp [hno]
  | clear hdata hd =>
    refine iff_of_true ?_ fun h => by simpa [hdata] using h.1.2.1
    intro pairs blind _ hpost
    rw [displayed_txInfo hd] at hpost
    exact absurd hdata hpost

theorem parsed_warnsOfData {s' : State}
    (hlen : s'.ctx.txInfo.rawTx.bytes.length ≤ maxTransactionLen) (hparsed : Parsed sdk o s' r)
    (hp : IsParsed s'.ctx) :
    WarnsOfData r ↔ ¬∃ txData, o.keccak = .ok ∧
      decodeLedgerTx .device s'.ctx.txInfo.rawTx.bytes s'.ctx.txInfo.txData = .ok (0, txData) ∧
      DebugsCall (decoded sdk txData s') ∧
      txData.dataLen.toNat % abiSlotSize ≠ abiSelectorSize ∧ DisplayOk o := by
  cases hparsed with
  | unhashed mHash hno =>
    refine iff_of_true ?_ fun ⟨_, hok, _⟩ => hno hok
    intro pairs blind hmem
    simp at hmem
  | undecoded txData _ hdec =>
    refine iff_of_true ?_ fun ⟨_, _, hdec', _⟩ => by simp [hdec] at hdec'
    intro pairs blind hmem
    simp at hmem
  | reviewed txData hok hdec hr =>
    have hparse : (parsedCalldata (decoded sdk txData s')).1 = false ↔
        txData.dataLen.toNat % abiSlotSize ≠ abiSelectorSize := by
      rw [← Bool.not_eq_true, parsedCalldata, abiCalldataParse_fst]
      exact not_congr (iff_of_eq (congrArg (· % _ = _) (data_length hlen hdec)))
    rw [reviewed_warnsOfData hr ⟨hp.1, hp.2⟩, hparse, hdec]
    simp [hok]

/-! ## Every step -/

/-- A last chunk that is taken in. -/
theorem step_last {cdata : List UInt8} (hq : Event.request e = some (.last cdata))
    (ho : Event.outcome e = some o) (hfit : ChunkFits s.ctx cdata) :
    ∃ rawTx : RawTx, rawTx.bytes = s.ctx.txInfo.rawTx.bytes ++ cdata ∧
      Parsed sdk o ((s.setRawTx rawTx).setState .parsed) (step sdk s e) := by
  obtain ⟨rawTx, hbytes, heq⟩ := @step_last_eq sdk _ _ _ _ hq ho hfit
  refine ⟨rawTx, hbytes, ?_⟩
  rw [heq]
  exact signTxParse_parsed sdk o _

theorem displayed_blind (hd : Displayed sdk o true s r) : WarnsOfData r := by
  intro pairs blind hmem _
  cases hd with
  | badState _ => simp [ioSendSw] at hmem
  | failed pk address _ _ => simp at hmem
  | shown pairs' _ _ _ =>
    simp only [List.mem_cons, reduceCtorEq, Effect.draw.injEq, Screen.transaction.injEq,
      List.not_mem_nil, or_false, false_or] at hmem
    exact hmem.2

theorem quiet_warnsOfData (h : ∀ pairs blind, Effect.draw (.transaction pairs blind) ∉ r.2) :
    WarnsOfData r :=
  fun pairs blind hmem => absurd hmem (h pairs blind)

/-- Only a last chunk that is taken in shows a review without the warning. -/
theorem did_warnsOfData (h : Did sdk s e r)
    (hno : ∀ cdata, Event.request e = some (.last cdata) → ¬ChunkFits s.ctx cdata) :
    WarnsOfData r := by
  cases h with
  | fixed eff _ _ hplain _ _ =>
    refine quiet_warnsOfData ?_
    intro pairs blind hmem
    rw [← List.mem_singleton.mp hmem] at hplain
    cases hplain
  | parsed o rawTx hq _ hfit _ hp => exact absurd hfit (hno _ hq)
  | keyServed _ hk =>
    refine quiet_warnsOfData ?_
    intro pairs blind hmem
    cases hk with
    | answered ctx pk effects _ hplain => cases hplain _ hmem
    | shown ctx pk text _ => simp at hmem
  | walkEnded o hs _ hd => exact displayed_blind hd
  | unsigned o sig effects hs _ huse =>
    refine quiet_warnsOfData ?_
    intro pairs blind hmem
    simp only [List.mem_append, List.mem_singleton, reduceCtorEq, or_false] at hmem
    rcases huse _ hmem with h | ⟨-, h⟩ | ⟨sig, h⟩ <;> cases h
  | signed o _ _ => exact quiet_warnsOfData (by simp [signedEffects])
  | walked o next hs _ => exact quiet_warnsOfData (by simp)
  | _ => exact quiet_warnsOfData (by simp)

/-- **One step** shows no data without the warning, exactly when it does not
fall back. -/
theorem step_warnsOfData_iff (sdk : Sdk) (s : State) (e : Event) :
    WarnsOfData (step sdk s e) ↔ ¬FallsBack sdk s e := by
  by_cases hlast : ∃ cdata, Event.request e = some (.last cdata) ∧ ChunkFits s.ctx cdata
  · obtain ⟨cdata, hq, hfit⟩ := hlast
    obtain ⟨o, ho⟩ := outcome_of_request hq
    obtain ⟨rawTx, hbytes, hp⟩ := @step_last sdk _ _ _ _ hq ho hfit
    rw [parsed_warnsOfData rawTx.length_le hp ⟨hfit.1, rfl⟩]
    refine not_congr ⟨?_, ?_⟩
    · intro hdecodes
      obtain ⟨txData, hok, hdec, hcall, hrest⟩ := hdecodes
      exact ⟨cdata, o, txData, hq, ho, hfit, hok, hbytes ▸ hdec, hcall, hrest⟩
    · intro hcompletes
      obtain ⟨cdata', o', txData, hq', ho', -, hok, hdec, hcall, hrest⟩ := hcompletes
      rw [hq] at hq'
      rw [ho] at ho'
      cases hq'
      cases ho'
      exact ⟨txData, hok, by rw [← hdec, ← hbytes]; rfl, hcall, hrest⟩
  · refine iff_of_true ?_ ?_
    · exact did_warnsOfData (step_did sdk s e) fun cdata hq hfit => hlast ⟨cdata, hq, hfit⟩
    · intro hcompletes
      obtain ⟨cdata, o, txData, hq, -, hfit, -⟩ := hcompletes
      exact hlast ⟨cdata, hq, hfit⟩

/-- **Data is shown with the warning** throughout a run, whatever comes in
when, exactly when no step of it falls back. -/
theorem run_warnsOfData_iff {ok : History → State → Event → Prop} (h : Run sdk ok hist s) :
    Throughout (fun _ en => WarnsOfData (en.post, en.out)) hist ↔
      Throughout (fun _ en => ¬FallsBack sdk en.pre en.event) hist := by
  refine h.throughout_iff ?_
  intro en hist s hrun _
  obtain ⟨-, -, hen, -⟩ := hrun.last
  rw [← step_warnsOfData_iff, hen]
  exact Iff.rfl

/-! ## A call with one byte of data -/

/-- A call of a contract with the data `05`. -/
def shortCall : List UInt8 :=
  [0x02, 0xf8, 0x4f, 1, 0x80, 0x80, 0x80, 0x80, 0xb8, 0x40] ++ List.replicate 64 0x11 ++
    [0x80, 0x05, 0xc0, 0x83, 1, 0, 0, 0x80]

theorem shortCall_fits : shortCall.length ≤ 255 := by decide

/-- The digest of the call. -/
def callDigests (input : List UInt8) : Bytes 32 :=
  if input = shortCall then
    ⟨[0x1f, 0xa0, 0x87, 0x62, 0x03, 0x9f, 0xc3, 0x2f, 0x27, 0x0c, 0x5d, 0x1b, 0xee, 0xd6, 0x5f,
      0x45, 0x7c, 0x0b, 0x22, 0x54, 0x89, 0x64, 0xaf, 0x61, 0xb6, 0x06, 0xa6, 0xc0, 0x5f, 0x49,
      0x58, 0x49], rfl⟩
  else .zero _

def callSdk : Sdk := referenceSdk callDigests

/-- The call, behind settings switched on. -/
def callUnder (settings : List Switch) : History × State :=
  runOf callSdk ([signTx 2 0 shortCall shortCall_fits,
    signTx 0 0 canonicalPath canonicalPath_fits] ++ settings.map .toggle)

def Effect.isClear : Effect → Bool
  | .draw (.transaction _ false) => true
  | _ => false

theorem not_warnsOfData (hclear : r.2.any Effect.isClear = true)
    (hdata : r.1.ctx.txInfo.txData.dataLen ≠ 0) : ¬WarnsOfData r := by
  intro hwarns
  obtain ⟨eff, heff, hclear⟩ := List.any_eq_true.mp hclear
  cases eff with
  | draw screen =>
    cases screen with
    | transaction pairs blind =>
      cases blind with
      | false => cases hwarns pairs false heff hdata
      | true => cases hclear
    | _ => cases hclear
  | _ => cases hclear

theorem callUnder_run (settings : List Switch)
    (h : Lib.Machine.Allowed (step callSdk) Serial (startUp .zero)
      ([signTx 2 0 shortCall (by decide), signTx 0 0 canonicalPath (by decide)] ++
        settings.map .toggle)) :
    Run callSdk Serial (callUnder settings).1 (callUnder settings).2 :=
  Lib.Machine.Run.exec ⟨.zero, rfl⟩ _ h

theorem blindOnly_warnsOfData :
    Throughout (fun _ en => WarnsOfData (en.post, en.out))
        (callUnder [.blindSigning]).1 ↔
      Throughout (fun _ en => ¬FallsBack callSdk en.pre en.event)
        (callUnder [.blindSigning]).1 :=
  run_warnsOfData_iff (callUnder_run [.blindSigning] (by decide))

/-- With both settings on, the call is shown without the warning. -/
theorem debugToo_not_warnsOfData :
    Run callSdk Serial (callUnder [.debugSmartContract, .blindSigning]).1
        (callUnder [.debugSmartContract, .blindSigning]).2 ∧
      ¬Throughout (fun _ en => WarnsOfData (en.post, en.out))
        (callUnder [.debugSmartContract, .blindSigning]).1 := by
  refine ⟨callUnder_run _ (by decide), ?_⟩
  intro hall
  obtain ⟨hwarns, -⟩ := hall
  exact not_warnsOfData (by decide) (by decide) hwarns

end LedgerZond.BlindSigning
