import LedgerZond.Lib.Refinement
import LedgerZond.HostSession

/-! # What the signer is for

A signer without screens, buffers or flags: it loads bytes under a path, shows
the transaction they decode to, signs their hash once the user approves, and
sends the signature in pieces. Every run of the application, whatever is sent
to it and however calls turn out, shows the acts of such a signer; so what can
be counted there can be counted here. -/
namespace LedgerZond.Signer
open LedgerZond.CTypes LedgerZond.Types LedgerZond.Platform LedgerZond.AppState LedgerZond.Address
open LedgerZond.Review LedgerZond.RlpDecode LedgerZond.App LedgerZond.Requests LedgerZond.Displays
open LedgerZond.PublicKey LedgerZond.Steps LedgerZond.SignedBytes LedgerZond.SignatureRelease
open LedgerZond.HostSession Lib.Refinement

/-! ## The signer -/

inductive Phase where
  | idle
  | loading (path : Path) (len : UInt8) (bytes : List UInt8)
  | shown (path : Path) (len : UInt8) (bytes : List UInt8) (tx : ZondTx)
  | releasing (sig : Signature)

inductive Act where
  | opens (cdata : List UInt8)
  | loads (chunk : List UInt8)
  /-- The last bytes, and the transaction is shown. -/
  | shows (chunk : List UInt8)
  /-- The last bytes, and nothing is shown. -/
  | drops (chunk : List UInt8)
  | turns
  /-- The next screen does not come up; the one on screen stays. -/
  | stalls
  | signs (msg : Bytes 32) (sk : SecretKey) (sig : Signature)
  | fails
  | sends (index : UInt8) (bytes : List UInt8)
  | ends
  | rests

/-- The acts of the signer. A signature that fails leaves the bytes loaded. -/
inductive Next (sdk : Sdk) : Phase → Act → Phase → Prop
  | opens {p : Phase} {cdata : List UInt8} {path : Path} {len : UInt8} :
      (∀ q, acceptedPath sdk cdata = some q → q = (path, len)) →
      Next sdk p (.opens cdata) (.loading path len [])
  | loads {path : Path} {len : UInt8} {bytes chunk : List UInt8} :
      (bytes ++ chunk).length ≤ maxTransactionLen →
      Next sdk (.loading path len bytes) (.loads chunk) (.loading path len (bytes ++ chunk))
  | shows {path : Path} {len : UInt8} {bytes chunk : List UInt8} {tx : ZondTx} :
      (bytes ++ chunk).length ≤ maxTransactionLen →
      (∃ prior, decodeLedgerTx .device (bytes ++ chunk) prior = .ok (0, tx)) →
      Next sdk (.loading path len bytes) (.shows chunk) (.shown path len (bytes ++ chunk) tx)
  | drops {path : Path} {len : UInt8} {bytes chunk : List UInt8} :
      Next sdk (.loading path len bytes) (.drops chunk) .idle
  | turns {path : Path} {len : UInt8} {bytes : List UInt8} {tx : ZondTx} :
      Next sdk (.shown path len bytes tx) .turns (.shown path len bytes tx)
  | stalls {path : Path} {len : UInt8} {bytes : List UInt8} {tx : ZondTx} :
      Next sdk (.shown path len bytes tx) .stalls (.shown path len bytes tx)
  | signs {path : Path} {len : UInt8} {bytes : List UInt8} {tx : ZondTx} {sig : Signature} :
      Next sdk (.shown path len bytes tx)
        (.signs (sdk.keccak256 bytes) (secretKey sdk path len) sig) (.releasing sig)
  | fails {path : Path} {len : UInt8} {bytes : List UInt8} {tx : ZondTx} :
      Next sdk (.shown path len bytes tx) .fails (.loading path len bytes)
  | sends {sig : Signature} {index : UInt8} : index ≠ 0 → index.toNat < 17 →
      Next sdk (.releasing sig) (.sends index (sigChunk sig index)) (.releasing sig)
  | sendsLast {sig : Signature} :
      Next sdk (.releasing sig) (.sends 17 (sigChunk sig 17)) .idle
  | ends {p : Phase} : Next sdk p .ends .idle
  | rests {p : Phase} : Next sdk p .rests p

/-- At first there is no session. -/
def IsIdle (p : Phase) : Prop := p = .idle

/-- The bytes of a phase. -/
def Phase.bytes : Phase → Option (List UInt8)
  | .loading _ _ bytes => some bytes
  | .shown _ _ bytes _ => some bytes
  | _ => none

variable {sdk : Sdk} {acts later earlier : List Act} {p : Phase}

/-- Nothing is signed and no part of a signature is sent. -/
def Quiet (out : List Effect) : Prop := ∀ eff ∈ out, Effect.signs eff = false

/-- A screen on the way to a signature is drawn. -/
def Leads (out : List Effect) : Prop := ∃ screen, Effect.draw screen ∈ out ∧ leadsToSignature screen

/-- A step that ends whatever session there is: a restart, a rejection, or a
request for a key. -/
def EndsSession (en : Entry) : Prop :=
  en.event = .restart ∨
    (∃ o, en.event = .answer false o ∧ Effect.sendSw swDeny ∈ en.out) ∨
    ∃ cdata display, Event.request en.event = some (.publicKey cdata display)

/-- How each act shows in a step of the application. -/
inductive Shows : Entry → Act → Prop
  | opens {en : Entry} {cdata : List UInt8} (sw : UInt16) :
      Event.request en.event = some (.first cdata) → en.out = [.sendSw sw] →
      Shows en (.opens cdata)
  | loads {en : Entry} {chunk : List UInt8} : Event.request en.event = some (.more chunk) →
      ChunkFits en.pre.ctx chunk → en.out = [.sendSw swOk] → Shows en (.loads chunk)
  | shows {en : Entry} {chunk : List UInt8} : Event.request en.event = some (.last chunk) →
      ChunkFits en.pre.ctx chunk → Quiet en.out → Leads en.out → Shows en (.shows chunk)
  | drops {en : Entry} {chunk : List UInt8} (sw : UInt16) :
      Event.request en.event = some (.last chunk) → ChunkFits en.pre.ctx chunk → Quiet en.out →
      sw ≠ swOk → Effect.sendSw sw ∈ en.out → Shows en (.drops chunk)
  | turns {en : Entry} (o : Outcome) : en.event = .answer true o → Quiet en.out → Leads en.out →
      Shows en .turns
  | stalls {en : Entry} : Answers.stalls en.pre en.event = true →
      Effect.sendSw swDisplayAddressFail ∈ en.out → en.post.screen = en.pre.screen →
      Quiet en.out → Shows en .stalls
  | signs {en : Entry} {msg : Bytes 32} {sk : SecretKey} {sig : Signature} (o : Outcome)
      (pk : PublicKey) (source : Source) : en.event = .answer true o →
      Effect.sign msg qrlCtx sk ∈ en.out → Effect.verify sig msg qrlCtx pk true ∈ en.out →
      Effect.sendResponse source (sigChunk sig 0) ∈ en.out → Shows en (.signs msg sk sig)
  | fails {en : Entry} (o : Outcome) (pairs : List Pair) (blind : Bool) :
      en.event = .answer true o → en.pre.screen = .transaction pairs blind →
      Effect.sendSw swSignatureFail ∈ en.out → Shows en .fails
  | sends {en : Entry} {index : UInt8} {bytes : List UInt8} (source : Source) :
      Event.request en.event = some (.signature index) → en.out = [.sendResponse source bytes] →
      Shows en (.sends index bytes)
  | ends {en : Entry} : EndsSession en → Quiet en.out → Shows en .ends
  | rests {en : Entry} : ¬EndsSession en → ¬TakesChunk en → opens en.event = false →
      Answers.stalls en.pre en.event = false → Quiet en.out → Shows en .rests

/-! ## The phase of a state -/

def phaseOf (s : State) : Phase :=
  match s.ctx.reqType, s.ctx.state with
  | .confirmAddress, _ => .idle
  | .confirmTransaction, .none =>
    .loading s.ctx.bip32Path s.ctx.bip32PathLen s.ctx.txInfo.rawTx.bytes
  | .confirmTransaction, .parsed =>
    if s.screen.isReview then
      .shown s.ctx.bip32Path s.ctx.bip32PathLen s.ctx.txInfo.rawTx.bytes s.ctx.txInfo.txData
    else .idle
  | .confirmTransaction, .approved => .releasing s.nvm.sig

variable {s s' : State} {e : Event} {r : Result} {o : Outcome} {hist : History}
  {chunk : List UInt8} {rawTx : RawTx}

theorem phaseOf_address (h : s.ctx.reqType = .confirmAddress) : phaseOf s = .idle := by
  simp only [phaseOf, h]

theorem phaseOf_fits (h : ChunkFits s.ctx chunk) : phaseOf s =
    .loading s.ctx.bip32Path s.ctx.bip32PathLen s.ctx.txInfo.rawTx.bytes := by
  simp only [phaseOf, h.1, h.2.1]

theorem phaseOf_parsed (h : IsParsed s.ctx) (hscr : s.screen.isReview = false) :
    phaseOf s = .idle := by
  simp only [phaseOf, h.1, h.2, hscr, Bool.false_eq_true, if_false]

theorem phaseOf_review (h : IsParsed s.ctx) (hscr : s.screen.isReview = true) : phaseOf s =
    .shown s.ctx.bip32Path s.ctx.bip32PathLen s.ctx.txInfo.rawTx.bytes s.ctx.txInfo.txData := by
  simp only [phaseOf, h.1, h.2, hscr, if_true]

/-- The phase depends on the context, the signature and whether there is a review. -/
theorem phaseOf_congr (hctx : s'.ctx = s.ctx) (hsig : s'.nvm.sig = s.nvm.sig)
    (hscr : s'.screen.isReview = s.screen.isReview) : phaseOf s' = phaseOf s := by
  simp only [phaseOf, hctx, hsig, hscr]

/-! ## The steps refine the signer -/

/-- A step shows an act that leads from its phase to the next. -/
def Refines (sdk : Sdk) (s : State) (e : Event) (r : Result) : Prop :=
  ∃ a, Shows ⟨s, e, r.1, r.2⟩ a ∧ Next sdk (phaseOf s) a (phaseOf r.1)

theorem refines_rests (hphase : phaseOf r.1 = phaseOf s)
    (hends : ¬EndsSession ⟨s, e, r.1, r.2⟩) (htakes : ¬TakesChunk ⟨s, e, r.1, r.2⟩)
    (hopens : opens e = false) (hgoes : Answers.stalls s e = false) (hquiet : Quiet r.2) :
    Refines sdk s e r :=
  ⟨.rests, .rests hends htakes hopens hgoes hquiet, by rw [hphase]; exact .rests⟩

/-- A request that is not for a key ends no session. -/
theorem not_ends_of_request {q : Request} {s' : State} {out : List Effect}
    (hq : Event.request e = some q) (hkey : ∀ cdata display, q ≠ .publicKey cdata display) :
    ¬EndsSession ⟨s, e, s', out⟩ := by
  rintro (hrestart | ⟨o, hanswer, -⟩ | ⟨cdata, display, hpk⟩)
  · rw [show e = .restart from hrestart] at hq
    cases hq
  · rw [show e = .answer false o from hanswer] at hq
    cases hq
  · exact hkey cdata display (Option.some.inj (hq.symm.trans hpk))

theorem not_takes_of_request {q : Request} {s' : State} {out : List Effect}
    (hq : Event.request e = some q) (hno : ∀ cdata, q.chunk = some cdata → ¬ChunkFits s.ctx cdata) :
    ¬TakesChunk ⟨s, e, s', out⟩ := by
  rintro ⟨cdata, hchunk, hfit⟩
  exact hno cdata ((chunkOf_of_request hq).symm.trans hchunk) hfit

/-- A step on no request rests, unless it restarts or rejects. -/
theorem refines_unasked (hphase : phaseOf r.1 = phaseOf s) (hq : Event.request e = none)
    (hchunk : chunkOf e = none) (hrestart : e ≠ .restart)
    (hdeny : ∀ o, e = .answer false o → Effect.sendSw swDeny ∉ r.2)
    (hgoes : Answers.stalls s e = false) (hquiet : Quiet r.2) : Refines sdk s e r := by
  have hopens : opens e = false := by
    rw [opens, hq]
    rfl
  refine refines_rests hphase ?_ ?_ hopens hgoes hquiet
  · rintro (hno | ⟨o, hanswer, hsent⟩ | ⟨cdata, display, hpk⟩)
    · exact hrestart hno
    · exact hdeny o hanswer hsent
    · cases hq.symm.trans hpk
  · rintro ⟨cdata, hsome, -⟩
    cases hchunk.symm.trans hsome

/-- A display of loaded bytes that decode. -/
theorem displayed_refines {blind : Bool} (hd : Displayed sdk o blind s r)
    (hp : IsParsed s.ctx) (hscr : s.screen.isReview = false) :
    (phaseOf r.1 = .idle ∧ ∃ sw, sw ≠ swOk ∧ Effect.sendSw sw ∈ r.2) ∨
      (Leads r.2 ∧ phaseOf r.1 = .shown s.ctx.bip32Path s.ctx.bip32PathLen
        s.ctx.txInfo.rawTx.bytes s.ctx.txInfo.txData) := by
  cases hd with
  | badState hno => exact absurd hp hno
  | failed pk address _ _ =>
    exact .inl ⟨phaseOf_parsed hp hscr, swDisplayAddressFail, by decide, by simp⟩
  | shown pairs _ _ _ =>
    exact .inr ⟨⟨_, List.mem_cons_of_mem _ List.mem_cons_self, trivial⟩, phaseOf_review hp rfl⟩

/-- What the choice of a review makes of loaded bytes that decode. -/
theorem reviewed_refines (hr : Reviewed sdk o s r) (hp : IsParsed s.ctx)
    (hscr : s.screen.isReview = false) :
    (phaseOf r.1 = .idle ∧ ∃ sw, sw ≠ swOk ∧ Effect.sendSw sw ∈ r.2) ∨
      (Leads r.2 ∧ phaseOf r.1 = .shown s.ctx.bip32Path s.ctx.bip32PathLen
        s.ctx.txInfo.rawTx.bytes s.ctx.txInfo.txData) := by
  cases hr with
  | refused _ _ => exact .inl ⟨phaseOf_parsed hp rfl, swSignatureFail, by decide, by simp⟩
  | selector pair count _ _ =>
    exact .inr ⟨⟨_, List.mem_cons_self, trivial⟩, phaseOf_review hp rfl⟩
  | fallback _ _ hd =>
    have hcall := displayed_refines hd hp hscr
    exact hcall
  | blind _ _ hd => exact displayed_refines hd hp hscr
  | clear _ hd => exact displayed_refines hd hp hscr

/-- The end of a walk: the review comes up, or the page stays. -/
theorem walkEnded_refines {pair : Pair} (hs : s.screen = .confirm pair)
    (hlast : ¬nextIndex s < s.paramCount) (hd : Displayed sdk o true (confirmed s) r)
    (hp : IsParsed s.ctx) (hpre : phaseOf s = .shown s.ctx.bip32Path s.ctx.bip32PathLen
      s.ctx.txInfo.rawTx.bytes s.ctx.txInfo.txData) : Refines sdk s (.answer true o) r := by
  have hquiet : Quiet r.2 := hd.quiet
  rw [Refines, hpre]
  cases hd with
  | badState hno => exact absurd hp hno
  | failed pk address _ hno =>
    have hstalls : Answers.stalls s (.answer true o) = true :=
      (Answers.stalls_confirm hs).mpr ⟨hlast, fun hboth => hno hboth.2⟩
    have hscr : (withKey pk address (confirmed s)).screen.isReview = true :=
      congrArg Screen.isReview hs
    refine ⟨.stalls, .stalls hstalls (by simp) rfl hquiet, ?_⟩
    rw [phaseOf_review (s := withKey pk address (confirmed s)) hp hscr]
    exact .stalls
  | shown pairs _ _ _ =>
    refine ⟨.turns, .turns o rfl hquiet
      ⟨_, List.mem_cons_of_mem _ List.mem_cons_self, trivial⟩, ?_⟩
    have hpost := phaseOf_review (s := { keyed sdk (confirmed s) with
      screen := .transaction pairs true }) hp rfl
    rw [hpost]
    exact .turns

/-- What follows a last chunk, from the phase the chunk was taken in. -/
theorem parsed_refines (hp : Parsed sdk o ((s.setRawTx rawTx).setState .parsed) r)
    (hq : Event.request e = some (.last chunk)) (hfit : ChunkFits s.ctx chunk)
    (hbytes : rawTx.bytes = s.ctx.txInfo.rawTx.bytes ++ chunk)
    (hscr : s.screen.isReview = false) : Refines sdk s e r := by
  have hctx : IsParsed ((s.setRawTx rawTx).setState .parsed).ctx := ⟨hfit.1, rfl⟩
  have hdrop : ∀ sw, sw ≠ swOk → Effect.sendSw sw ∈ r.2 → phaseOf r.1 = .idle →
      Refines sdk s e r := by
    intro sw hsw hsent hidle
    refine ⟨.drops chunk, .drops sw hq hfit hp.settled.quiet hsw hsent, ?_⟩
    rw [phaseOf_fits hfit, hidle]
    exact .drops
  cases hp with
  | unhashed mHash _ =>
    exact hdrop swSignatureFail (by decide) (List.mem_singleton.mpr rfl) (phaseOf_parsed hctx hscr)
  | undecoded txData _ _ =>
    exact hdrop swTxParsingFail (by decide) (List.mem_singleton.mpr rfl) (phaseOf_parsed hctx hscr)
  | reviewed txData hk hdec hr =>
    rcases reviewed_refines hr hctx hscr with ⟨hidle, sw, hsw, hsent⟩ | ⟨hleads, hshown⟩
    · exact hdrop sw hsw hsent hidle
    · refine ⟨.shows chunk, .shows hq hfit (Parsed.reviewed txData hk hdec hr).settled.quiet hleads,
        ?_⟩
      have hraw : (decoded sdk txData ((s.setRawTx rawTx).setState .parsed)).ctx.txInfo.rawTx.bytes =
          s.ctx.txInfo.rawTx.bytes ++ chunk := hbytes
      have hlen : (s.ctx.txInfo.rawTx.bytes ++ chunk).length ≤ maxTransactionLen := by
        rw [List.length_append]
        exact hfit.2.2
      rw [phaseOf_fits hfit, hshown, hraw]
      exact .shows hlen ⟨_, hbytes ▸ hdec⟩

/-- The signature call of an approval, its check, and the first chunk. -/
theorem signedEffects_shown (sdk : Sdk) (sig : Signature) (s : State) : ∃ source,
    Effect.sign s.ctx.txInfo.mHash qrlCtx (secretKey sdk s.ctx.bip32Path s.ctx.bip32PathLen) ∈
      signedEffects sdk sig s ∧
    Effect.verify sig s.ctx.txInfo.mHash qrlCtx s.nvm.pk true ∈ signedEffects sdk sig s ∧
    Effect.sendResponse source (sigChunk sig 0) ∈ signedEffects sdk sig s := by
  rw [← (signatureReads_first sig).2]
  exact ⟨_, List.mem_cons_of_mem _ List.mem_cons_self,
    List.mem_cons_of_mem _ (List.mem_cons_of_mem _ List.mem_cons_self),
    List.mem_cons_of_mem _ (List.mem_cons_of_mem _ (List.mem_cons_of_mem _ List.mem_cons_self))⟩

/-- A chunk of a signature behind its first, and the last of them. -/
theorem chunkSent_refines {p2 : UInt8} (hq : Event.request e = some (.signature p2)) (h0 : p2 ≠ 0)
    (h17 : p2.toNat ≤ 17) (hsend : Sendable s) :
    Refines sdk s e (afterChunk p2 s,
      [.sendResponse (.signature (signatureReads p2) .confirmTransaction .approved)
        (readAll s.nvm.sig.toList (signatureReads p2))]) := by
  have hpre : phaseOf s = .releasing s.nvm.sig := by simp only [phaseOf, hsend.1, hsend.2.1]
  have hread := (signatureReads_chunk s.nvm.sig h17).2
  refine ⟨.sends p2 (sigChunk s.nvm.sig p2), .sends _ hq (by rw [hread]), ?_⟩
  rw [hpre, afterChunk]
  split
  · rename_i hlast
    rw [hlast]
    exact .sendsLast
  · rename_i hmore
    rw [hpre]
    refine .sends h0 (lt_of_le_of_ne h17 fun heq => hmore ?_)
    exact UInt8.toNat_inj.mp heq

/-- **Every step refines the signer**, in every run. -/
theorem step_refines (hrun : Run sdk Serial hist s) (hserial : Serial hist s e) :
    Refines sdk s e (step sdk s e) := by
  have hstr := streams_of_run hrun
  have hguard := guarded_of_run hrun
  have hdid := step_did sdk s e
  generalize hr : step sdk s e = r at hdid ⊢
  cases hdid with
  | @fixed _ q eff hq hfix hplain _ _ =>
    refine refines_rests rfl (not_ends_of_request hq ?_) (not_takes_of_request hq ?_)
      ((opens_of_request hq).trans hfix.isFirst) (Answers.stalls_request hq)
      (by simp [Quiet, Effect.signs_of_isPlain hplain])
    · rintro cdata display rfl
      exact hfix
    · intro cdata hchunk
      rw [hfix.chunk] at hchunk
      cases hchunk
  | @refusedChunk _ cdata sw hq hno _ =>
    have hone : ∀ q, Event.request e = some q → q.chunk = some cdata → q.isFirst = false →
        (∀ cdata display, q ≠ .publicKey cdata display) →
        Refines sdk s e (s, [.sendSw sw]) := by
      intro q hreq hchunk hfirst hkey
      refine refines_rests rfl (not_ends_of_request hreq hkey) (not_takes_of_request hreq ?_)
        ((opens_of_request hreq).trans hfirst) (Answers.stalls_request hreq)
        (by simp [Quiet, Effect.signs])
      intro cdata' hchunk'
      cases hchunk.symm.trans hchunk'
      exact hno
    rcases hq with hq | hq
    · exact hone _ hq rfl rfl (by simp)
    · exact hone _ hq rfl rfl (by simp)
  | @appended _ chunk rawTx hq hfit hbytes =>
    have hlen : (s.ctx.txInfo.rawTx.bytes ++ chunk).length ≤ maxTransactionLen := by
      rw [List.length_append]
      exact hfit.2.2
    have hpost : phaseOf (s.setRawTx rawTx) =
        .loading s.ctx.bip32Path s.ctx.bip32PathLen (s.ctx.txInfo.rawTx.bytes ++ chunk) := by
      rw [phaseOf, State.setRawTx, ← hbytes]
      simp only [hfit.1, hfit.2.1]
    refine ⟨.loads chunk, .loads hq hfit rfl, ?_⟩
    rw [phaseOf_fits hfit, hpost]
    exact .loads hlen
  | parsed o rawTx hq _ hfit hbytes hp =>
    exact parsed_refines hp hq hfit hbytes (serial_request hserial hq)
  | @opened _ cdata p n sw hq _ =>
    refine ⟨.opens cdata, .opens sw hq rfl, .opens ?_⟩
    rintro ⟨p', n'⟩ hpath
    have hctx := congrArg (fun r => r.1.ctx) (hr.symm.trans (step_first hpath hq))
    exact (Prod.ext (congrArg GlobalCtx.bip32Path hctx)
      (congrArg GlobalCtx.bip32PathLen hctx)).symm
  | noSignature hq _ =>
    exact refines_rests rfl (not_ends_of_request hq (by simp))
      (not_takes_of_request hq (by simp [Request.chunk]))
      (opens_of_request hq) (Answers.stalls_request hq) (by simp [Quiet, Effect.signs])
  | @chunkSent _ p2 hq h0 h17 hsend => exact chunkSent_refines hq h0 h17 hsend
  | keyServed hq hk =>
    have hquiet : Quiet r.2 := hk.quiet
    have hidle : phaseOf r.1 = .idle := by
      cases hk with
      | answered ctx pk effects hctx _ => exact phaseOf_address hctx.1
      | shown ctx pk text hctx => exact phaseOf_address hctx.1
    refine ⟨.ends, .ends (.inr (.inr ⟨_, _, hq⟩)) hquiet, ?_⟩
    rw [hidle]
    exact .ends
  | denied o hscr =>
    exact ⟨.ends, .ends (.inr (.inl ⟨o, rfl, List.mem_singleton.mpr rfl⟩))
      (by simp [Quiet, Effect.signs]), .ends⟩
  | @walked pair o next hs hlt =>
    have hdec := hstr.walk pair hs
    refine ⟨.turns, .turns o rfl (by simp [Quiet, Effect.signs])
      ⟨_, List.mem_cons_self, trivial⟩, ?_⟩
    rw [phaseOf_review hdec.parsed (by rw [hs]; rfl)]
    have hpost := phaseOf_review (s := { confirmed s with screen := .confirm next }) hdec.parsed rfl
    rw [hpost]
    exact .turns
  | @walkEnded pair _ o hs hlast hd =>
    have hdec := hstr.walk pair hs
    have hpre := phaseOf_review hdec.parsed (by rw [hs]; rfl)
    exact walkEnded_refines hs hlast hd hdec.parsed hpre
  | @signed pairs blind o hs hok =>
    obtain ⟨hdec, -⟩ := hstr.review pairs blind hs
    have hpost : phaseOf (signedState o.sign.sig s) = .releasing o.sign.sig := by
      simp only [phaseOf, signedState, hdec.parsed.1]
    obtain ⟨source, hsign, hverify, hsent⟩ := signedEffects_shown sdk o.sign.sig s
    refine ⟨.signs _ _ o.sign.sig, .signs o _ source rfl hsign hverify hsent, ?_⟩
    rw [phaseOf_review hdec.parsed (by rw [hs]; rfl), hpost, hdec.hash]
    exact .signs
  | @unsigned pairs blind o sig effects hs _ _ =>
    obtain ⟨hdec, -⟩ := hstr.review pairs blind hs
    refine ⟨.fails, .fails o pairs blind rfl hs (by simp), ?_⟩
    rw [phaseOf_review hdec.parsed (by rw [hs]; rfl)]
    have hpost : phaseOf { s with
        ctx := { s.ctx with state := .none }
        nvm := { s.nvm with sig := sig }
        screen := .home } =
        .loading s.ctx.bip32Path s.ctx.bip32PathLen s.ctx.txInfo.rawTx.bytes := by
      simp only [phaseOf, hdec.parsed.1]
    rw [hpost]
    exact .fails
  | @addressApproved text o hs =>
    have hty := hguard.address text hs
    have hgoes : Answers.stalls s (.answer true o) = false := Answers.stalls_screen (by simp [hs])
    refine refines_unasked ?_ rfl rfl (by simp) (by simp) hgoes (by simp [Quiet, Effect.signs])
    rw [phaseOf_address hty]
    exact phaseOf_address hty
  | dismissed confirm o hscr =>
    have hgoes : Answers.stalls s (.answer confirm o) = false :=
      Answers.stalls_screen fun pair hs => by simp [hs, Screen.isReview] at hscr
    exact refines_unasked (phaseOf_congr rfl rfl hscr.symm) rfl rfl (by simp) (by simp) hgoes
      (by simp [Quiet])
  | toggled sw =>
    exact refines_unasked (phaseOf_congr rfl (by cases sw <;> rfl) rfl) rfl rfl (by simp) (by simp)
      rfl (by simp [Quiet])
  | restarted => exact ⟨.ends, .ends (.inl rfl) (by simp [Quiet]), .ends⟩

theorem exists_trace (h : Run sdk Serial hist s) :
    ∃ acts, List.Forall₂ Shows hist acts ∧ Trace IsIdle (Next sdk) acts (phaseOf s) := by
  refine refines ?_ (fun hist s e hrun hserial => step_refines hrun hserial) h
  intro s hstart
  obtain ⟨nvm, rfl⟩ := hstart
  exact rfl

/-- A signature call. -/
def signCalls (en : Entry) : Nat := if en.out.any Effect.isSign then 1 else 0

/-- A last chunk that is taken in. -/
def lastChunks (en : Entry) : Nat :=
  match Event.request en.event with
  | some (.last chunk) => if ChunkFits en.pre.ctx chunk then 1 else 0
  | _ => 0

/-- A `SIGN_TX` P1 = 0 that reaches its handler. -/
def openings (en : Entry) : Nat := if opens en.event then 1 else 0

/-- An approval of a transaction that comes to no signature. -/
def failures (en : Entry) : Nat :=
  match en.event, en.pre.screen with
  | .answer true _, .transaction _ _ =>
    if en.out.contains (.sendSw swSignatureFail) then 1 else 0
  | _, _ => 0

/-- A signature that is sent to its end. -/
def completions (en : Entry) : Nat :=
  match Event.request en.event, en.out with
  | some (.signature 17), [.sendResponse (.signature _ _ _) _] => 1
  | _, _ => 0

/-- How often something happened in a run. -/
def total (f : Entry → Nat) (hist : History) : Nat := (hist.map f).sum

/-- What an act counts for. -/
def Act.signed : Act → Nat
  | .signs _ _ _ => 1
  | _ => 0

def Act.failed : Act → Nat
  | .fails => 1
  | _ => 0

def Act.finished : Act → Nat
  | .shows _ => 1
  | .drops _ => 1
  | _ => 0

def Act.opened : Act → Nat
  | .opens _ => 1
  | _ => 0

def Act.completed : Act → Nat
  | .sends index _ => if index = 17 then 1 else 0
  | _ => 0

/-- The credit of a phase with a review: the last chunk it was shown for. -/
def Phase.reviews : Phase → Nat
  | .shown _ _ _ _ => 1
  | _ => 0

def Phase.loads : Phase → Nat
  | .loading _ _ _ => 1
  | _ => 0

def Phase.releases : Phase → Nat
  | .releasing _ => 1
  | _ => 0

theorem signed_le_finished (h : Trace IsIdle (Next sdk) acts p) :
    (acts.map fun a => a.signed + a.failed).sum ≤ (acts.map Act.finished).sum := by
  have hcredit := h.credit Phase.reviews Act.finished (fun a => a.signed + a.failed)
    (by rintro p rfl; rfl) ?_
  · omega
  · intro p a p' hstep
    cases hstep <;> simp [Phase.reviews, Act.signed, Act.failed, Act.finished]

theorem finished_le_opened (h : Trace IsIdle (Next sdk) acts p) :
    (acts.map Act.finished).sum ≤ (acts.map fun a => a.opened + a.failed).sum := by
  have hcredit := h.credit Phase.loads (fun a => a.opened + a.failed) Act.finished
    (by rintro p rfl; rfl) ?_
  · omega
  · intro p a p' hstep
    cases hstep <;> simp [Phase.loads, Act.opened, Act.failed, Act.finished]

theorem completed_le_signed (h : Trace IsIdle (Next sdk) acts p) :
    (acts.map Act.completed).sum ≤ (acts.map Act.signed).sum := by
  have hcredit := h.credit Phase.releases Act.signed Act.completed (by rintro p rfl; rfl) ?_
  · omega
  · intro p a p' hstep
    cases hstep with
    | sends _ hlt =>
      rename_i index _
      have hne : index ≠ 17 := by
        rintro rfl
        exact absurd hlt (by decide)
      simp [Phase.releases, Act.completed, Act.signed, hne]
    | _ => simp [Phase.releases, Act.completed, Act.signed]

/-! ## What a step counts for -/

variable {en : Entry} {a : Act}

theorem signCalls_quiet (h : Quiet en.out) : signCalls en = 0 := by
  have hnone : en.out.any Effect.isSign = false := by
    rw [List.any_eq_false]
    intro eff heff hsign
    cases eff with
    | sign msg c sk => cases h _ heff
    | _ => cases hsign
  rw [signCalls, hnone]
  rfl

theorem signCalls_le (h : Shows en a) : signCalls en ≤ a.signed + a.failed := by
  have hone : signCalls en ≤ 1 := by
    unfold signCalls
    split
    · exact Nat.le_refl 1
    · exact Nat.zero_le 1
  cases h with
  | opens sw _ hout => rw [signCalls_quiet (by simp [hout, Quiet, Effect.signs])]; exact Nat.zero_le _
  | loads _ _ hout => rw [signCalls_quiet (by simp [hout, Quiet, Effect.signs])]; exact Nat.zero_le _
  | shows _ _ hquiet _ => rw [signCalls_quiet hquiet]; exact Nat.zero_le _
  | drops sw _ _ hquiet _ _ => rw [signCalls_quiet hquiet]; exact Nat.zero_le _
  | turns o _ hquiet _ => rw [signCalls_quiet hquiet]; exact Nat.zero_le _
  | stalls _ _ _ hquiet => rw [signCalls_quiet hquiet]; exact Nat.zero_le _
  | signs o pk source _ _ _ _ => exact hone
  | fails o pairs blind _ _ _ => exact hone
  | sends source _ hout => simp [signCalls, hout, Effect.isSign]
  | ends _ hquiet => rw [signCalls_quiet hquiet]; exact Nat.zero_le _
  | rests _ _ _ _ hquiet => rw [signCalls_quiet hquiet]; exact Nat.zero_le _

theorem le_signCalls (h : Shows en a) : a.signed ≤ signCalls en := by
  cases h with
  | signs o pk source _ hsign _ _ =>
    have hany : en.out.any Effect.isSign = true := List.any_eq_true.mpr ⟨_, hsign, rfl⟩
    rw [signCalls, hany]
    exact Nat.le_refl 1
  | _ => exact Nat.zero_le _

theorem lastChunks_cases (en : Entry) : lastChunks en = 0 ∨ lastChunks en = 1 ∧
    ∃ chunk, Event.request en.event = some (.last chunk) ∧ ChunkFits en.pre.ctx chunk := by
  unfold lastChunks
  split
  · rename_i chunk hq
    by_cases hfit : ChunkFits en.pre.ctx chunk
    · exact .inr ⟨if_pos hfit, chunk, hq, hfit⟩
    · exact .inl (if_neg hfit)
  · exact .inl rfl

theorem lastChunks_of_last {chunk : List UInt8} (hq : Event.request en.event = some (.last chunk))
    (hfit : ChunkFits en.pre.ctx chunk) : lastChunks en = 1 := by
  rw [lastChunks, hq]
  exact if_pos hfit

/-- A last chunk that is taken in shows as the last bytes of a session. -/
theorem lastChunks_eq (h : Shows en a) : lastChunks en = a.finished := by
  rcases lastChunks_cases en with hzero | ⟨-, chunk, hq, hfit⟩
  · cases h with
    | shows hq hfit _ _ => cases hzero.symm.trans (lastChunks_of_last hq hfit)
    | drops sw hq hfit _ _ _ => cases hzero.symm.trans (lastChunks_of_last hq hfit)
    | _ => exact hzero
  have hanswer : ∀ o, en.event ≠ .answer true o := by
    intro o hev
    rw [hev] at hq
    cases hq
  cases h with
  | opens sw hq' _ => cases hq.symm.trans hq'
  | loads hq' _ _ => cases hq.symm.trans hq'
  | shows hq' hfit' _ _ => exact lastChunks_of_last hq' hfit'
  | drops sw hq' hfit' _ _ _ => exact lastChunks_of_last hq' hfit'
  | turns o hev _ _ => exact absurd hev (hanswer o)
  | stalls hstalls _ _ _ => cases hstalls.symm.trans (Answers.stalls_request hq)
  | signs o pk source hev _ _ _ => exact absurd hev (hanswer o)
  | fails o pairs blind hev _ _ => exact absurd hev (hanswer o)
  | sends source hq' _ => cases hq.symm.trans hq'
  | ends hends _ => exact absurd hends (not_ends_of_request hq nofun)
  | rests _ htakes _ _ _ => exact absurd ⟨chunk, chunkOf_of_request hq, hfit⟩ htakes

theorem opened_le (h : Shows en a) : a.opened ≤ openings en := by
  cases h with
  | opens sw hq _ =>
    rw [openings, show opens en.event = true from opens_of_request hq]
    exact Nat.le_refl 1
  | _ => exact Nat.zero_le _

theorem failed_le (h : Shows en a) : a.failed ≤ failures en := by
  cases h with
  | fails o pairs blind hev hscr hsent =>
    simp only [failures, hev, hscr, List.contains_eq_mem, hsent, decide_true, if_true]
    exact Nat.le_refl 1
  | _ => exact Nat.zero_le _

theorem completions_cases (en : Entry) : completions en = 0 ∨ completions en = 1 ∧
    Event.request en.event = some (.signature 17) ∧
      ∃ reads ty st data, en.out = [.sendResponse (.signature reads ty st) data] := by
  unfold completions
  split
  · rename_i hq hout
    exact .inr ⟨rfl, hq, _, _, _, _, hout⟩
  · exact .inl rfl

theorem completions_le (h : Shows en a) : completions en ≤ a.completed := by
  rcases completions_cases en with hzero | ⟨hone, hq, reads, ty, st, data, hout⟩
  · rw [hzero]
    exact Nat.zero_le _
  have hanswer : ∀ o, en.event ≠ .answer true o := by
    intro o hev
    rw [hev] at hq
    cases hq
  cases h with
  | opens sw hq' _ => cases hq.symm.trans hq'
  | loads hq' _ _ => cases hq.symm.trans hq'
  | shows hq' _ _ _ => cases hq.symm.trans hq'
  | drops sw hq' _ _ _ _ => cases hq.symm.trans hq'
  | turns o hev _ _ => exact absurd hev (hanswer o)
  | stalls hstalls _ _ _ => cases hstalls.symm.trans (Answers.stalls_request hq)
  | signs o pk source hev _ _ _ => exact absurd hev (hanswer o)
  | fails o pairs blind hev _ _ => exact absurd hev (hanswer o)
  | sends source hq' _ =>
    cases hq.symm.trans hq'
    exact le_of_eq hone
  | ends hends _ => exact absurd hends (not_ends_of_request hq nofun)
  | rests _ _ _ _ hquiet =>
    rw [hout] at hquiet
    cases hquiet _ List.mem_cons_self

/-- **Accounts of a run**: no signature is sent to its end twice, each of them
took a signature call, each call took a last chunk of its own, and each of
those its own opening of a session or a call that came to nothing. -/
theorem run_accounts (h : Run sdk Serial hist s) :
    total completions hist ≤ total signCalls hist ∧
      total signCalls hist ≤ total lastChunks hist ∧
      total lastChunks hist ≤ total (fun en => openings en + failures en) hist := by
  obtain ⟨acts, hshows, htrace⟩ := exists_trace h
  have hfinished : total lastChunks hist ≤ (acts.map Act.finished).sum :=
    sum_le_of_shown (fun en a ha => le_of_eq (lastChunks_eq ha)) hshows
  have hfinished' : (acts.map Act.finished).sum ≤ total lastChunks hist :=
    sum_le_of_shown (fun a en ha => le_of_eq (lastChunks_eq ha).symm) hshows.flip
  refine ⟨?_, ?_, ?_⟩
  · calc total completions hist
      _ ≤ (acts.map Act.completed).sum := sum_le_of_shown (fun en a => completions_le) hshows
      _ ≤ (acts.map Act.signed).sum := completed_le_signed htrace
      _ ≤ total signCalls hist := sum_le_of_shown (fun a en => le_signCalls) hshows.flip
  · calc total signCalls hist
      _ ≤ (acts.map fun a => a.signed + a.failed).sum :=
        sum_le_of_shown (fun en a => signCalls_le) hshows
      _ ≤ (acts.map Act.finished).sum := signed_le_finished htrace
      _ ≤ total lastChunks hist := hfinished'
  · calc total lastChunks hist
      _ ≤ (acts.map Act.finished).sum := hfinished
      _ ≤ (acts.map fun a => a.opened + a.failed).sum := finished_le_opened htrace
      _ ≤ total (fun en => openings en + failures en) hist :=
        sum_le_of_shown (fun a en ha => Nat.add_le_add (opened_le ha) (failed_le ha)) hshows.flip

/-- One signature call, one last chunk, one opening. -/
theorem interrupted_accounts :
    total completions (entry creationSdk reviewed.2 approve :: reviewed.1) ≤
        total signCalls (entry creationSdk reviewed.2 approve :: reviewed.1) ∧
      total signCalls (entry creationSdk reviewed.2 approve :: reviewed.1) ≤
        total lastChunks (entry creationSdk reviewed.2 approve :: reviewed.1) ∧
      total lastChunks (entry creationSdk reviewed.2 approve :: reviewed.1) ≤
        total (fun en => openings en + failures en)
          (entry creationSdk reviewed.2 approve :: reviewed.1) := run_accounts interrupted_run

end LedgerZond.Signer
