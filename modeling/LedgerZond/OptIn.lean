import LedgerZond.Freeze
import LedgerZond.BlindSigning
import LedgerZond.Answers

/-! # The opt-in to blind signing

The setting is looked at once, when the last chunk has been decoded. Where it
is off and there is data, no review is put on screen, and the session is left
where neither a chunk nor an answer leads on: only a new session does. Where
a review is on screen, the setting was on when its last chunk came in, also
if it was switched off since. -/
namespace LedgerZond.OptIn
open LedgerZond.CTypes LedgerZond.Types LedgerZond.Platform LedgerZond.AppState
open LedgerZond.RlpDecode LedgerZond.App LedgerZond.Requests LedgerZond.Displays LedgerZond.Steps
open LedgerZond.SignedBytes LedgerZond.Freeze LedgerZond.BlindSigning LedgerZond.Answers

variable {sdk : Sdk} {hist : History} {s : State} {e : Event} {r : Result} {o : Outcome}

/-! ## Sessions and refusals -/

/-- The steps since the session was started or left. -/
def session : History → History
  | [] => []
  | en :: hist => if asksFirst en.event || leaves en.event then [] else en :: session hist

/-- A last chunk is taken in while blind signing is on. -/
def OptsIn (en : Entry) : Prop := completes en = true ∧ en.pre.nvm.enableBlindSigning ≠ 0

/-- A last chunk completes a transaction with data while blind signing is off. -/
def WithoutOptIn (s : State) (e : Event) : Prop :=
  s.nvm.enableBlindSigning = 0 ∧ ∃ cdata tx,
    Event.request e = some (.last cdata) ∧ ChunkFits s.ctx cdata ∧
    decodeLedgerTx .device (s.ctx.txInfo.rawTx.bytes ++ cdata) s.ctx.txInfo.txData = .ok (0, tx) ∧
    tx.dataLen ≠ 0

/-- Such a chunk came in, and no session was opened since. -/
def barredSince : History → Prop
  | [] => False
  | en :: hist => opens en.event = false ∧ (WithoutOptIn en.pre en.event ∨ barredSince hist)

/-- Nothing is reviewed, and the one response is `SW_SIGNATURE_FAIL`. -/
structure Refuses (r : Result) : Prop where
  undrawn : ∀ screen, Effect.draw screen ∈ r.2 → screen.isReview = false
  unreviewed : r.1.screen.isReview = false
  answer : r.2.filter Effect.isResponse = [.sendSw swSignatureFail]

/-- What the step `en`, taken behind `hist`, owes to the opt-in. -/
structure NeedsOptIn (sdk : Sdk) (hist : History) (en : Entry) : Prop where
  signed : ∀ msg c sk, Effect.sign msg c sk ∈ en.out →
    IsDecoded sdk en.pre.ctx ∧ msg = en.pre.ctx.txInfo.mHash ∧
      (en.pre.ctx.txInfo.txData.dataLen ≠ 0 →
        ∃ d ∈ session hist, OptsIn d ∧ d.post.ctx.txInfo = en.pre.ctx.txInfo)
  refused : WithoutOptIn en.pre en.event → Refuses (en.post, en.out)
  barred : barredSince hist → ∀ msg c sk, Effect.sign msg c sk ∉ en.out

/-! ## The gate -/

/-- Data is refused while blind signing is off. -/
theorem signTxReview_refused (hdata : s.ctx.txInfo.txData.dataLen ≠ 0)
    (hoff : s.nvm.enableBlindSigning = 0) :
    signTxReview sdk o s = ({ s with screen := .blindSigningError },
      [.draw .blindSigningError, .sendSw swSignatureFail]) := by
  rw [signTxReview, if_pos ⟨hdata, hoff⟩]
  rfl

theorem signTxReview_txData :
    (signTxReview sdk o s).1.ctx.txInfo.txData = s.ctx.txInfo.txData := by
  have hr := signTxReview_reviewed sdk o s
  generalize signTxReview sdk o s = r at hr
  cases hr with
  | refused _ _ => rfl
  | selector pair count _ _ => rfl
  | fallback _ _ hd => rw [displayed_txInfo hd]; rfl
  | blind _ _ hd => rw [displayed_txInfo hd]
  | clear _ hd => rw [displayed_txInfo hd]

/-- A parse that leads to a review of data does so by the opt-in. -/
theorem signTxParse_gate (hscr : s.screen.isReview = false)
    (hlead : leadsToSignature (signTxParse sdk o s).1.screen)
    (hdata : (signTxParse sdk o s).1.ctx.txInfo.txData.dataLen ≠ 0) :
    s.nvm.enableBlindSigning ≠ 0 := by
  intro hoff
  rcases signTxParse_cases sdk o s with ⟨-, mHash, heq⟩ | ⟨-, tx, -, heq⟩ | ⟨-, tx, -, heq⟩
  · rw [heq] at hlead
    exact not_leadsToSignature hscr hlead
  · rw [heq] at hlead
    exact not_leadsToSignature hscr hlead
  · rw [heq] at hlead hdata
    rw [signTxReview_txData] at hdata
    rw [signTxReview_refused hdata hoff] at hlead
    exact hlead

/-- Neither a chunk nor an answer leads on to a signature. -/
def Barred (s : State) : Prop :=
  ¬leadsToSignature s.screen ∧ ¬(s.ctx.reqType = .confirmTransaction ∧ s.ctx.state = .none)

/-- A screen that shows no review, and the status word behind it. -/
theorem refuses_of_answer (effects : List Effect) (hscr : s.screen.isReview = false)
    (heffects : ∀ eff ∈ effects, eff = .draw .blindSigningError) :
    Refuses (s, effects ++ [.sendSw swSignatureFail]) where
  undrawn screen hdraw := by
    rcases List.mem_append.mp hdraw with hdraw | hdraw
    · cases heffects _ hdraw
      rfl
    · cases List.mem_singleton.mp hdraw
  unreviewed := hscr
  answer := by
    have hnone : effects.filter Effect.isResponse = [] := by
      refine List.filter_eq_nil_iff.mpr ?_
      intro eff heff
      rw [heffects eff heff]
      simp [Effect.isResponse]
    rw [List.filter_append, hnone]
    rfl

/-- **The refusal** of data while blind signing is off. -/
theorem step_refuses (hserial : Serial hist s e) (h : WithoutOptIn s e) :
    Refuses (step sdk s e) ∧ Barred (step sdk s e).1 := by
  obtain ⟨hoff, cdata, tx, hq, hfit, hdec, hdata⟩ := h
  obtain ⟨o, ho⟩ := outcome_of_request hq
  have hscr : s.screen.isReview = false := serial_request hserial hq
  obtain ⟨rawTx, hbytes, heq⟩ := @step_last_eq sdk _ _ _ _ hq ho hfit
  rw [← hbytes] at hdec
  rw [heq]
  rcases signTxParse_cases sdk o ((s.setRawTx rawTx).setState .parsed) with
    ⟨-, mHash, hres⟩ | ⟨-, tx', hdec', -⟩ | ⟨-, tx', hdec', hres⟩
  · rw [hres]
    exact ⟨refuses_of_answer [] hscr (by simp), not_leadsToSignature hscr,
      fun hopen => by cases hopen.2⟩
  · cases hdec.symm.trans hdec'
  · cases hdec.symm.trans hdec'
    have hrefused : signTxReview sdk o (decoded sdk tx ((s.setRawTx rawTx).setState .parsed)) = _ :=
      signTxReview_refused hdata hoff
    rw [hres, hrefused]
    exact ⟨refuses_of_answer [.draw .blindSigningError] rfl (by simp), id,
      fun hopen => by cases hopen.2⟩

/-! ## The invariant -/

/-- A barred session stays barred until a new one is opened. -/
theorem Barred.step (h : Barred s) (hopens : opens e = false) (hdid : Did sdk s e r) :
    Barred r.1 := by
  obtain ⟨hscr, hctx⟩ := h
  cases hdid with
  | fixed eff _ _ _ _ _ => exact ⟨hscr, hctx⟩
  | refusedChunk sw _ _ _ => exact ⟨hscr, hctx⟩
  | appended rawTx _ hfit _ => exact absurd ⟨hfit.1, hfit.2.1⟩ hctx
  | parsed o rawTx _ _ hfit _ _ => exact absurd ⟨hfit.1, hfit.2.1⟩ hctx
  | opened p n sw hq _ =>
    rw [opens_of_request hq] at hopens
    cases hopens
  | noSignature _ _ => exact ⟨hscr, hctx⟩
  | chunkSent _ _ _ _ =>
    unfold afterChunk
    split
    · exact ⟨hscr, fun hopen => by cases hopen.1⟩
    · exact ⟨hscr, hctx⟩
  | keyServed _ hk =>
    cases hk with
    | answered ctx pk effects haddr _ => exact ⟨hscr, fun hopen => by simp [haddr.1] at hopen⟩
    | shown ctx pk text haddr => exact ⟨id, fun hopen => by simp [haddr.1] at hopen⟩
  | denied o _ => exact ⟨id, fun hopen => by cases hopen.1⟩
  | walked o next hs _ => exact absurd (hs ▸ trivial) hscr
  | walkEnded o hs _ _ => exact absurd (hs ▸ trivial) hscr
  | signed o hs _ => exact absurd (hs ▸ trivial) hscr
  | unsigned o sig effects hs _ _ => exact absurd (hs ▸ trivial) hscr
  | addressApproved o _ => exact ⟨id, fun hopen => by cases hopen.2⟩
  | dismissed confirm o _ => exact ⟨id, hctx⟩
  | toggled sw => exact ⟨hscr, hctx⟩
  | restarted => exact ⟨id, fun hopen => by cases hopen.1⟩

/-- The way to a signature of data began with the opt-in. -/
def Consented (hist : History) (s : State) : Prop :=
  leadsToSignature s.screen → s.ctx.txInfo.txData.dataLen ≠ 0 →
    ∃ d ∈ session hist, OptsIn d ∧ d.post.ctx.txInfo = s.ctx.txInfo

/-- Behind a refusal the session is barred until a new one is opened. -/
def StaysBarred (hist : History) (s : State) : Prop := barredSince hist → Barred s

theorem session_kept {en : Entry} (hask : asksFirst en.event = false)
    (hl : leaves en.event = false) : session (en :: hist) = en :: session hist := by
  simp [session, hask, hl]

/-- A step that leaves the transaction alone, and the session. -/
theorem Consented.same {en : Entry} {s' : State} (hinv : Consented hist s)
    (hask : asksFirst en.event = false) (hl : leaves en.event = false)
    (htx : s'.ctx.txInfo = s.ctx.txInfo) (hlead : leadsToSignature s.screen) :
    Consented (en :: hist) s' := by
  intro _ hdata
  rw [htx] at hdata ⊢
  obtain ⟨d, hd, hopt⟩ := hinv hlead hdata
  rw [session_kept hask hl]
  exact ⟨d, List.mem_cons_of_mem _ hd, hopt⟩

/-- Where no way leads to a signature. -/
theorem consented_of_home (hscr : s.screen.isReview = false) : Consented hist s :=
  fun hlead => absurd hlead (not_leadsToSignature hscr)

/-- A last chunk that leads to a signature is an opt-in of its own. -/
theorem consented_of_last {cdata : List UInt8} (hserial : Serial hist s e)
    (hq : Event.request e = some (.last cdata)) (hfit : ChunkFits s.ctx cdata) :
    Consented (entry sdk s e :: hist) (step sdk s e).1 := by
  intro hlead hdata
  obtain ⟨o, ho⟩ := outcome_of_request hq
  have hscr : s.screen.isReview = false := serial_request hserial hq
  obtain ⟨rawTx, -, heq⟩ := @step_last_eq sdk _ _ _ _ hq ho hfit
  have hon : s.nvm.enableBlindSigning ≠ 0 := by
    rw [heq] at hlead hdata
    exact @signTxParse_gate sdk ((s.setRawTx rawTx).setState .parsed) o hscr hlead hdata
  have hcompletes : completes (entry sdk s e) = true := by
    simp [completes, entry, Lib.Machine.entry, hq, hfit]
  have hkept : session (entry sdk s e :: hist) = entry sdk s e :: session hist :=
    session_kept (asksFirst_of_other hq rfl (by simp)) (leaves_of_request hq)
  rw [hkept]
  exact ⟨entry sdk s e, List.mem_cons_self, ⟨hcompletes, hon⟩, rfl⟩

/-- **One step keeps the consent.** -/
theorem Consented.step (hinv : Consented hist s) (hserial : Serial hist s e) :
    Consented (entry sdk s e :: hist) (step sdk s e).1 := by
  have hdid := step_did sdk s e
  generalize hen : entry sdk s e = en
  generalize hr : App.step sdk s e = r at hdid
  have hevent : en.event = e := by rw [← hen]; rfl
  cases hdid with
  | fixed eff hq _ _ _ _ => exact consented_of_home (serial_request hserial hq)
  | refusedChunk sw hq _ _ =>
    refine consented_of_home ?_
    exact hq.elim (fun hq => serial_request hserial hq) fun hq => serial_request hserial hq
  | appended rawTx hq _ _ =>
    have hscr : s.screen.isReview = false := serial_request hserial hq
    exact consented_of_home hscr
  | parsed o rawTx hq _ hfit _ _ =>
    rw [← hen, ← hr]
    exact consented_of_last hserial hq hfit
  | opened p n sw hq _ =>
    have hscr : s.screen.isReview = false := serial_request hserial hq
    exact consented_of_home hscr
  | noSignature hq _ => exact consented_of_home (serial_request hserial hq)
  | chunkSent hq _ _ _ =>
    have hscr : s.screen.isReview = false := serial_request hserial hq
    unfold afterChunk
    split <;> exact consented_of_home hscr
  | keyServed hq hk =>
    have hscr : s.screen.isReview = false := serial_request hserial hq
    cases hk with
    | answered ctx pk effects _ _ => exact consented_of_home hscr
    | shown ctx pk text _ => exact False.elim
  | denied o _ => exact consented_of_home rfl
  | walked o next hs _ =>
    exact hinv.same (by rw [hevent]; rfl) (by rw [hevent]; rfl) rfl (hs ▸ trivial)
  | walkEnded o hs _ hd =>
    have htx : r.1.ctx.txInfo = (confirmed s).ctx.txInfo := displayed_txInfo hd
    exact hinv.same (by rw [hevent]; rfl) (by rw [hevent]; rfl) htx (hs ▸ trivial)
  | signed o _ _ => exact consented_of_home rfl
  | unsigned o sig effects _ _ _ => exact consented_of_home rfl
  | addressApproved o _ => exact consented_of_home rfl
  | dismissed confirm o _ => exact consented_of_home rfl
  | toggled sw =>
    intro hlead hdata
    exact hinv.same (by rw [hevent]; rfl) (by rw [hevent]; rfl) rfl hlead hlead hdata
  | restarted => exact consented_of_home rfl

theorem consented_of_run (h : Run sdk Serial hist s) : Consented hist s := by
  refine h.invariant ?_ ?_
  · intro s hstart
    obtain ⟨nvm, rfl⟩ := hstart
    exact consented_of_home rfl
  · intro hist s e _ hinv hserial
    exact hinv.step hserial

theorem staysBarred_of_run (h : Run sdk Serial hist s) : StaysBarred hist s := by
  refine h.invariant (fun _ _ => False.elim) ?_
  intro hist s e _ hinv hserial hbarred
  obtain ⟨hopens, hrefused | hbefore⟩ := hbarred
  · exact (step_refuses hserial hrefused).2
  · exact (hinv hbefore).step hopens (step_did sdk s e)

/-- **No data is signed without the opt-in**, in any run. -/
theorem run_needsOptIn (h : Run sdk Serial hist s) : Throughout (NeedsOptIn sdk) hist := by
  refine h.throughout_of_step fun hist s e hrun hserial => ⟨?_, ?_, ?_⟩
  · intro msg c sk hsign
    obtain ⟨⟨o, pairs, blind, -, hscr, -⟩, hmsg, -⟩ := (step_did sdk s e).sign_mem hsign
    refine ⟨((streams_of_run hrun).review pairs blind hscr).1, hmsg, ?_⟩
    exact consented_of_run hrun (show leadsToSignature s.screen by rw [hscr]; trivial)
  · intro hrefused
    exact (step_refuses hserial hrefused).1
  · intro hbarred msg c sk hsign
    obtain ⟨⟨o, pairs, blind, -, hscr, -⟩, -⟩ := (step_did sdk s e).sign_mem hsign
    refine (staysBarred_of_run hrun hbarred).1 ?_
    rw [hscr]
    trivial

/-- A call with data is refused, and signed in a new session behind the
opt-in, the latest event first. -/
def refusedThenSigned : List Event :=
  [approve, signTx 2 0 shortCall shortCall_fits, signTx 0 0 canonicalPath canonicalPath_fits,
    .toggle .blindSigning, signTx 2 0 shortCall shortCall_fits,
    signTx 0 0 canonicalPath canonicalPath_fits]

theorem refusedThenSigned_needsOptIn :
    Throughout (NeedsOptIn callSdk) (runOf callSdk refusedThenSigned).1 :=
  run_needsOptIn (Lib.Machine.Run.exec ⟨.zero, rfl⟩ refusedThenSigned (by decide))

example : ((runOf callSdk refusedThenSigned).1.map fun en => en.out.any Effect.isSign) =
    [true, false, false, false, false, false] := by decide

end LedgerZond.OptIn
