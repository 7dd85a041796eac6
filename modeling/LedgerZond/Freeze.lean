import LedgerZond.SignedBytes

/-! # A transaction that is complete

Behind its last chunk a transaction takes in no more, however that chunk and
what follows it end, with one exception: an approval whose signature fails
puts the session back to where it takes chunks, and keeps what it took. -/
namespace LedgerZond.Freeze
open LedgerZond.CTypes LedgerZond.Types LedgerZond.Platform LedgerZond.AppState
open LedgerZond.Address LedgerZond.App LedgerZond.Requests LedgerZond.Displays LedgerZond.Steps
open LedgerZond.SignedBytes
open LedgerZond.DecodeGrammar

variable {sdk : Sdk} {hist : History} {s s' : State} {e : Event} {r : Result} {o : Outcome}
  {en : Entry}

/-! ## Complete transactions and failed signatures -/

/-- The step takes in a last chunk. -/
def completes (en : Entry) : Bool :=
  match Event.request en.event with
  | some (.last cdata) => decide (ChunkFits en.pre.ctx cdata)
  | _ => false

/-- A last chunk was taken in since the latest `SIGN_TX` P1 = 0. -/
def complete : History → Bool
  | [] => false
  | en :: hist => if asksFirst en.event then false else completes en || complete hist

/-- The user approves a transaction and the signature fails. -/
def failsToSign (en : Entry) : Bool :=
  match en.event, en.pre.screen with
  | .answer true o, .transaction _ _ => !decide (SignOk o.sign)
  | _, _ => false

def Request.leaves : Request → Bool
  | .publicKey _ _ => true
  | _ => false

/-- A `GET_PUBLIC_KEY` that reaches its handler, or a restart. -/
def leaves : Event → Bool
  | .restart => true
  | e => (Event.request e).any Request.leaves

/-- A signature failed, and the session is still there. -/
def signatureFailed : History → Bool
  | [] => false
  | en :: hist =>
    if asksFirst en.event || leaves en.event then false else failsToSign en || signatureFailed hist

/-- A complete transaction takes in no chunk. -/
def Frozen (hist : History) (en : Entry) : Prop := complete hist = true → ¬TakesChunk en

/-- No chunk that `raw_tx` has room for comes in behind a failed signature. -/
def NoChunkBehindFailure (hist : History) (en : Entry) : Prop :=
  signatureFailed hist = true → ∀ cdata, chunkOf en.event = some cdata →
    maxTransactionLen < en.pre.ctx.txInfo.rawTx.bytes.length + cdata.length

/-! ## The invariant -/

structure Freezes (hist : History) (s : State) : Prop where
  closed : complete hist = true → s.ctx.reqType = .confirmTransaction → s.ctx.state = .none →
    signatureFailed hist = true
  failed : signatureFailed hist = true → complete hist = true ∧
    s.ctx.reqType = .confirmTransaction ∧ s.ctx.state = .none ∧ s.screen.isReview = false
  review : leadsToSignature s.screen → complete hist = true

theorem leaves_of_request {q : Request} (h : Event.request e = some q) :
    leaves e = Request.leaves q := by
  cases e with
  | restart => cases h
  | _ => simp [leaves, h]

theorem quiet_of_isFixed {q : Request} (hq : Event.request en.event = some q) (h : q.IsFixed) :
    completes en = false ∧ leaves en.event = false := by
  rw [leaves_of_request hq]
  cases q <;> first | exact h.elim | simp [completes, hq, Request.leaves]

theorem failsToSign_of_home (h : en.pre.screen.isReview = false) : failsToSign en = false := by
  unfold failsToSign
  split
  next hs =>
    rw [hs] at h
    cases h
  next => rfl

theorem failsToSign_of_request {q : Request} (h : Event.request en.event = some q) :
    failsToSign en = false := by
  unfold failsToSign
  split
  next he _ =>
    rw [he] at h
    cases h
  next => rfl

/-! ## What the steps keep -/

theorem complete_kept (hask : asksFirst en.event = false) (hc : completes en = false) :
    complete (en :: hist) = complete hist := by
  simp [complete, hask, hc]

theorem signatureFailed_kept (hask : asksFirst en.event = false) (hl : leaves en.event = false)
    (hf : failsToSign en = false) : signatureFailed (en :: hist) = signatureFailed hist := by
  simp [signatureFailed, hask, hl, hf]

theorem signatureFailed_fails (hask : asksFirst en.event = false) (hl : leaves en.event = false)
    (hf : failsToSign en = true) : signatureFailed (en :: hist) = true := by
  simp [signatureFailed, hask, hl, hf]

/-- Where no signature failed and the session takes no chunks. -/
theorem Freezes.of_closed (hf : signatureFailed hist = false)
    (hno : complete hist = true → s.ctx.reqType = .confirmTransaction → s.ctx.state ≠ .none)
    (hreview : leadsToSignature s.screen → complete hist = true) : Freezes hist s where
  closed hc hty hst := absurd hst (hno hc hty)
  failed h := by
    rw [hf] at h
    cases h
  review := hreview

/-- Behind a `SIGN_TX` P1 = 0, also a refused one. -/
theorem Freezes.of_asksFirst (hask : asksFirst en.event = true) (hscr : s.screen.isReview = false) :
    Freezes (en :: hist) s := by
  have hc : complete (en :: hist) = false := by simp [complete, hask]
  refine .of_closed (by simp [signatureFailed, hask]) ?_ ?_
  · intro h
    rw [hc] at h
    cases h
  · intro h
    exact absurd h (not_leadsToSignature hscr)

/-- A step that leaves the session and the way to a signature alone. -/
theorem Freezes.same (hinv : Freezes hist s) (hask : asksFirst en.event = false)
    (hc : completes en = false) (hl : leaves en.event = false) (hf : failsToSign en = false)
    (hreq : s'.ctx.reqType = s.ctx.reqType) (hst : s'.ctx.state = s.ctx.state)
    (hscr : s'.screen = s.screen ∨ s'.screen.isReview = false) : Freezes (en :: hist) s' := by
  refine ⟨?_, ?_, ?_⟩
  · intro h hty hnone
    rw [complete_kept hask hc] at h
    rw [signatureFailed_kept hask hl hf]
    exact hinv.closed h (hreq ▸ hty) (hst ▸ hnone)
  · intro h
    rw [signatureFailed_kept hask hl hf] at h
    obtain ⟨hcomp, hty, hnone, hhome⟩ := hinv.failed h
    rw [complete_kept hask hc, hreq, hst]
    exact ⟨hcomp, hty, hnone, hscr.elim (fun hs => hs ▸ hhome) id⟩
  · intro h
    rw [complete_kept hask hc]
    exact hscr.elim (fun hs => hinv.review (hs ▸ h)) fun hs => absurd h (not_leadsToSignature hs)

/-- While a review is on screen, no signature has failed. -/
theorem Freezes.not_failed (hinv : Freezes hist s) (hscr : s.screen.isReview = true) :
    signatureFailed hist = false := by
  cases hf : signatureFailed hist with
  | false => rfl
  | true =>
    rw [(hinv.failed hf).2.2.2] at hscr
    cases hscr

/-- Nor behind an answer to it that does not fail to sign. -/
theorem Freezes.not_failed_answer (hinv : Freezes hist s) {confirm : Bool} {o : Outcome}
    {r : Result} (hscr : s.screen.isReview = true)
    (hno : failsToSign ⟨s, .answer confirm o, r.1, r.2⟩ = false) :
    signatureFailed (⟨s, .answer confirm o, r.1, r.2⟩ :: hist) = false := by
  rw [signatureFailed_kept rfl rfl hno]
  exact hinv.not_failed hscr

/-- A session that takes in a chunk is not complete, unless a signature failed. -/
theorem Freezes.not_complete (hinv : Freezes hist s) {cdata : List UInt8}
    (hcond : NoChunkBehindFailure hist ⟨s, e, r.1, r.2⟩) (hchunk : chunkOf e = some cdata)
    (hfit : ChunkFits s.ctx cdata) : signatureFailed hist = false ∧ complete hist = false := by
  have hf : signatureFailed hist = false := by
    cases hf : signatureFailed hist with
    | false => rfl
    | true => exact absurd (hcond hf cdata hchunk) (Nat.not_lt.mpr hfit.2.2)
  refine ⟨hf, ?_⟩
  cases hc : complete hist with
  | false => rfl
  | true =>
    rw [hinv.closed hc hfit.1 hfit.2.1] at hf
    cases hf

/-- **One step keeps the invariant.** -/
theorem Freezes.step (hstr : Streams sdk hist s) (hinv : Freezes hist s)
    (hserial : Serial hist s e) (hcond : NoChunkBehindFailure hist ⟨s, e, r.1, r.2⟩)
    (hdid : Did sdk s e r) : Freezes (⟨s, e, r.1, r.2⟩ :: hist) r.1 := by
  cases hdid with
  | fixed eff hq hfix _ _ _ =>
    have hhome := serial_request hserial hq
    cases hask : asksFirst e with
    | true => exact .of_asksFirst hask hhome
    | false =>
      have hquiet := @quiet_of_isFixed ⟨s, e, s, [eff]⟩ _ hq hfix
      exact hinv.same hask hquiet.1 hquiet.2 (failsToSign_of_request hq) rfl rfl (.inl rfl)
  | refusedChunk sw hq hno _ =>
    rcases hq with hq | hq
    · exact hinv.same (asksFirst_of_other hq rfl (by simp)) (by simp [completes, hq])
        (leaves_of_request hq) (failsToSign_of_request hq) rfl rfl (.inl rfl)
    · exact hinv.same (asksFirst_of_other hq rfl (by simp)) (by simp [completes, hq, hno])
        (leaves_of_request hq) (failsToSign_of_request hq) rfl rfl (.inl rfl)
  | appended rawTx hq hfit hbytes =>
    exact hinv.same (asksFirst_of_other hq rfl (by simp)) (by simp [completes, hq])
      (leaves_of_request hq) (failsToSign_of_request hq) rfl rfl (.inl rfl)
  | parsed o rawTx hq _ hfit hbytes hp =>
    have hask := asksFirst_of_other hq rfl (by simp)
    have hpar := hp.settled.isParsed ⟨hfit.1, rfl⟩
    have hf := (hinv.not_complete hcond (chunkOf_of_request hq) hfit).1
    refine .of_closed ?_ (fun _ _ => by simp [hpar.2]) ?_
    · rw [signatureFailed_kept hask (leaves_of_request hq) (failsToSign_of_request hq), hf]
    · intro _
      simp [complete, hask, completes, hq, hfit]
  | opened p n sw hq _ =>
    have hhome := serial_request hserial hq
    exact .of_asksFirst (asksFirst_of_request hq) hhome
  | noSignature hq hno =>
    exact hinv.same (asksFirst_of_other hq rfl (by simp)) (by simp [completes, hq])
      (leaves_of_request hq) (failsToSign_of_request hq) rfl rfl (.inl rfl)
  | chunkSent hq h0 h17 hsend =>
    have hhome := serial_request hserial hq
    have hask := asksFirst_of_other hq rfl (by simp)
    have hf : signatureFailed hist = false := by
      cases hf : signatureFailed hist with
      | false => rfl
      | true => cases (hinv.failed hf).2.2.1.symm.trans hsend.2.1
    unfold afterChunk
    split
    · refine .of_closed ?_ (fun _ hty => by cases hty)
        fun h => absurd h (not_leadsToSignature hhome)
      rwa [signatureFailed_kept hask (leaves_of_request hq) (failsToSign_of_request hq)]
    · refine .of_closed ?_ (fun _ _ => by simp [hsend.2.1])
        fun h => absurd h (not_leadsToSignature hhome)
      rwa [signatureFailed_kept hask (leaves_of_request hq) (failsToSign_of_request hq)]
  | keyServed hq hk =>
    have hhome := not_leadsToSignature (serial_request hserial hq)
    have hleaves : leaves e = true := leaves_of_request hq
    cases hk with
    | answered ctx pk effects hctx _ =>
      exact .of_closed (by simp [signatureFailed, hleaves]) (fun _ hty => by simp [hctx.1] at hty)
        fun h => absurd h hhome
    | shown ctx pk text hctx =>
      exact .of_closed (by simp [signatureFailed, hleaves]) (fun _ hty => by simp [hctx.1] at hty)
        False.elim
  | denied o hscr =>
    exact .of_closed (hinv.not_failed hscr) (fun _ hty => by cases hty) False.elim
  | walked o next hs _ =>
    have hpar := (hstr.walk _ hs).parsed
    exact .of_closed (hinv.not_failed_answer (by rw [hs]; rfl) (by simp [failsToSign, hs]))
      (fun _ _ => by simp [confirmed, hpar.2]) fun _ => hinv.review (hs ▸ trivial)
  | walkEnded o hs _ hd =>
    have hpar := hd.isParsed (hstr.walk _ hs).parsed
    exact .of_closed (hinv.not_failed_answer (by rw [hs]; rfl) (by simp [failsToSign, hs]))
      (fun _ _ => by simp [hpar.2]) fun _ => hinv.review (hs ▸ trivial)
  | signed o hs hok =>
    exact .of_closed (hinv.not_failed_answer (by rw [hs]; rfl) (by simp [failsToSign, hs, hok]))
      (fun _ _ => by simp [signedState]) False.elim
  | unsigned o sig effects hs hno huse =>
    have hcomp := hinv.review (hs ▸ trivial)
    have hty := (hstr.review _ _ hs).1.parsed.1
    refine ⟨?_, fun _ => ⟨hcomp, hty, rfl, rfl⟩, False.elim⟩
    intro _ _ _
    exact signatureFailed_fails rfl rfl (by simp [failsToSign, hs, hno])
  | addressApproved o hs =>
    exact .of_closed (hinv.not_failed_answer (by rw [hs]; rfl) (by simp [failsToSign, hs]))
      (fun _ _ => by simp) False.elim
  | dismissed confirm o hscr =>
    exact hinv.same rfl rfl rfl (failsToSign_of_home hscr) rfl rfl (.inr rfl)
  | toggled sw => exact hinv.same rfl rfl rfl rfl rfl rfl (.inl rfl)
  | restarted => exact .of_closed rfl (fun _ hty => by cases hty) False.elim

theorem freezes_of_run (h : Run sdk Serial hist s)
    (hcond : Throughout NoChunkBehindFailure hist) : Freezes hist s := by
  refine h.invariant_of_throughout ?_ ?_ hcond
  · intro s hstart
    obtain ⟨nvm, rfl⟩ := hstart
    exact .of_closed rfl (fun h => by cases h) False.elim
  · intro hist s e hrun hinv hserial hcond
    exact hinv.step (streams_of_run hrun) hserial hcond (step_did sdk s e)

/-- **A complete transaction is frozen** throughout a run, exactly when no
chunk that has room comes in behind a failed signature. -/
theorem run_frozen_iff (h : Run sdk Serial hist s) :
    Throughout Frozen hist ↔ Throughout NoChunkBehindFailure hist := by
  refine h.throughout_iff ?_
  intro en hist s hrun hconds
  have hinv := freezes_of_run hrun.last.1 hconds
  constructor
  · intro hfrozen hfail cdata hchunk
    obtain ⟨hcomp, hty, hnone, -⟩ := hinv.failed hfail
    by_contra hroom
    exact hfrozen hcomp ⟨cdata, hchunk, hty, hnone, Nat.not_lt.mp hroom⟩
  · intro hcond hcomp hpart
    obtain ⟨cdata, hchunk, hfit⟩ := hpart
    have hfail := hinv.closed hcomp hfit.1 hfit.2.1
    exact Nat.not_lt.mpr hfit.2.2 (hcond hfail cdata hchunk)

/-! ## A chunk behind a failed signature -/

/-- An approval whose signature call fails. -/
def failingOutcome : Outcome :=
  { Outcome.good (.zero _) with sign := { (Outcome.good (.zero _)).sign with sign := cxFail } }

/-- The contract creation answered, and a chunk behind it, the latest event first. -/
def chunkBehindAnswer (answer : Event) : History × State :=
  runOf creationSdk [signTx 1 0 [0x00] zeroByte_fits, answer,
    signTx 2 0 validCreation validCreation_fits, signTx 0 0 canonicalPath canonicalPath_fits]

theorem behindSuccess_frozen :
    Throughout Frozen (chunkBehindAnswer approve).1 ↔
      Throughout NoChunkBehindFailure (chunkBehindAnswer approve).1 :=
  run_frozen_iff (Lib.Machine.Run.exec ⟨.zero, rfl⟩ _ (by decide))

/-- Behind a failed signature the complete transaction takes in a chunk. -/
theorem behindFailure_not_frozen :
    Run creationSdk Serial (chunkBehindAnswer (.answer true failingOutcome)).1
        (chunkBehindAnswer (.answer true failingOutcome)).2 ∧
      ¬Throughout Frozen (chunkBehindAnswer (.answer true failingOutcome)).1 := by
  refine ⟨Lib.Machine.Run.exec ⟨.zero, rfl⟩ _ (by decide), ?_⟩
  intro hall
  obtain ⟨hfrozen, -⟩ := hall
  exact hfrozen (by decide) ⟨[0x00], rfl, by decide⟩

end LedgerZond.Freeze
