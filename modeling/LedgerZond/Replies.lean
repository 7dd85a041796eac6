import LedgerZond.Signer
import LedgerZond.HostProgress

/-! # What the requests of a signing are replied with

The signer is free to drop what it has loaded, and says nothing of when. Where
no call fails there is no such freedom: the phase, the request and whether
blind signing is on settle the reply, and each status word has one reason. A
transaction is refused for its length, for the format or for its data, and for
nothing else. -/
namespace LedgerZond.Replies
open LedgerZond.CTypes LedgerZond.Types LedgerZond.TxGrammar LedgerZond.DecodeGrammar
open LedgerZond.Platform LedgerZond.AppState LedgerZond.Address LedgerZond.RlpDecode LedgerZond.App
open LedgerZond.Requests LedgerZond.Displays LedgerZond.PublicKey LedgerZond.Steps
open LedgerZond.SignedBytes LedgerZond.SignatureRelease LedgerZond.Chunking LedgerZond.HostClient
open LedgerZond.HostSession LedgerZond.HostProgress LedgerZond.Signer Lib.Rlp

/-! ## The replies of the signer -/

/-- The eighth item, the data of a call, is not empty. -/
def HasData (its : List Item) : Prop := ∃ it, its[7]? = some it ∧ it.payload ≠ []

def Phase.IsLoading : Phase → Prop
  | .loading _ _ _ => True
  | _ => False

def Phase.IsReleasing : Phase → Prop
  | .releasing _ => True
  | _ => False

/-- What is let out in reply to a request of `SIGN_TX`, and the phase behind
it. `blind` says whether blind signing is on. -/
inductive Replied (sdk : Sdk) (blind : Bool) : Phase → Request → List Effect → Phase → Prop
  | opened {p : Phase} {cdata : List UInt8} {path : Path} {len : UInt8} :
      acceptedPath sdk cdata = some (path, len) →
      Replied sdk blind p (.first cdata) [.sendSw swOk] (.loading path len [])
  | badPath {p : Phase} {cdata : List UInt8} {path : Path} {len : UInt8} :
      acceptedPath sdk cdata = none →
      Replied sdk blind p (.first cdata) [.sendSw swWrongDataLength] (.loading path len [])
  | noSession {p : Phase} {q : Request} {chunk : List UInt8} :
      q.chunk = some chunk → ¬Phase.IsLoading p →
      Replied sdk blind p q [.sendSw swBadState] p
  | tooLong {path : Path} {len : UInt8} {bytes chunk : List UInt8} {q : Request} :
      q.chunk = some chunk → maxTransactionLen < (bytes ++ chunk).length →
      Replied sdk blind (.loading path len bytes) q [.sendSw swWrongTxLength]
        (.loading path len bytes)
  | more {path : Path} {len : UInt8} {bytes chunk : List UInt8} :
      (bytes ++ chunk).length ≤ maxTransactionLen →
      Replied sdk blind (.loading path len bytes) (.more chunk) [.sendSw swOk]
        (.loading path len (bytes ++ chunk))
  | noTransaction {path : Path} {len : UInt8} {bytes chunk : List UInt8} :
      (bytes ++ chunk).length ≤ maxTransactionLen →
      (∀ lst its, ¬IsTx Target.device.wrap (bytes ++ chunk) lst its) →
      Replied sdk blind (.loading path len bytes) (.last chunk) [.sendSw swTxParsingFail] .idle
  | dataRefused {path : Path} {len : UInt8} {bytes chunk : List UInt8} {lst : Item}
      {its : List Item} :
      (bytes ++ chunk).length ≤ maxTransactionLen →
      IsTx Target.device.wrap (bytes ++ chunk) lst its → HasData its → blind = false →
      Replied sdk blind (.loading path len bytes) (.last chunk)
        [.draw .blindSigningError, .sendSw swSignatureFail] .idle
  | shown {path : Path} {len : UInt8} {bytes chunk : List UInt8} {lst : Item} {its : List Item}
      {tx : ZondTx} {out : List Effect} :
      (bytes ++ chunk).length ≤ maxTransactionLen →
      IsTx Target.device.wrap (bytes ++ chunk) lst its → (HasData its → blind = true) →
      Holds tx its → Leads out → replyOf out = none →
      Replied sdk blind (.loading path len bytes) (.last chunk) out
        (.shown path len (bytes ++ chunk) tx)
  | noSignature {p : Phase} {index : UInt8} : ¬Phase.IsReleasing p →
      Replied sdk blind p (.signature index) [.sendSw swBadState] p
  | sent {sig : Signature} {index : UInt8} {source : Source} :
      Replied sdk blind (.releasing sig) (.signature index)
        [.sendResponse source (sigChunk sig index)] (if index = 17 then .idle else .releasing sig)

variable {sdk : Sdk} {blind : Bool} {p p' p'' : Phase} {q : Request} {out out' : List Effect}
  {bytes chunk chunk' : List UInt8}

theorem not_tooLong (hfit : (bytes ++ chunk).length ≤ maxTransactionLen)
    (hchunk : some chunk = some chunk') (hlong : maxTransactionLen < (bytes ++ chunk').length) :
    False := by
  cases hchunk
  exact absurd hfit (Nat.not_le_of_lt hlong)

/-- **The reply is settled**: no two rules give a request different replies. -/
theorem Replied.unique (h : Replied sdk blind p q out p') (h' : Replied sdk blind p q out' p'') :
    replyOf out' = replyOf out := by
  cases h with
  | opened hpath =>
    cases h' with
    | opened _ => rfl
    | badPath hnone => cases hpath.symm.trans hnone
    | noSession hchunk _ => cases hchunk
    | tooLong hchunk _ => cases hchunk
  | badPath hnone =>
    cases h' with
    | opened hpath => cases hpath.symm.trans hnone
    | badPath _ => rfl
    | noSession hchunk _ => cases hchunk
    | tooLong hchunk _ => cases hchunk
  | noSession hchunk hno =>
    cases h' with
    | opened _ => cases hchunk
    | badPath _ => cases hchunk
    | noSession _ _ => rfl
    | noSignature _ => cases hchunk
    | sent => cases hchunk
    | _ => exact absurd trivial hno
  | tooLong hchunk hlong =>
    cases h' with
    | opened _ => cases hchunk
    | badPath _ => cases hchunk
    | noSession _ hno => exact absurd trivial hno
    | tooLong _ _ => rfl
    | noSignature _ => cases hchunk
    | more hfit => exact (not_tooLong hfit hchunk hlong).elim
    | noTransaction hfit _ => exact (not_tooLong hfit hchunk hlong).elim
    | dataRefused hfit _ _ _ => exact (not_tooLong hfit hchunk hlong).elim
    | shown hfit _ _ _ _ _ => exact (not_tooLong hfit hchunk hlong).elim
  | more hfit =>
    cases h' with
    | noSession _ hno => exact absurd trivial hno
    | tooLong hchunk hlong => exact (not_tooLong hfit hchunk hlong).elim
    | more _ => rfl
  | noTransaction hfit hnone =>
    cases h' with
    | noSession _ hno => exact absurd trivial hno
    | tooLong hchunk hlong => exact (not_tooLong hfit hchunk hlong).elim
    | noTransaction _ _ => rfl
    | dataRefused _ htx _ _ => exact absurd htx (hnone _ _)
    | shown _ htx _ _ _ _ => exact absurd htx (hnone _ _)
  | dataRefused hfit htx hdata hoff =>
    cases h' with
    | noSession _ hno => exact absurd trivial hno
    | tooLong hchunk hlong => exact (not_tooLong hfit hchunk hlong).elim
    | noTransaction _ hnone => exact absurd htx (hnone _ _)
    | dataRefused _ _ _ _ => rfl
    | shown _ htx' hon _ _ _ =>
      obtain ⟨-, rfl⟩ := htx.unique htx'
      cases hoff.symm.trans (hon hdata)
  | shown hfit htx hon _ _ hnone =>
    cases h' with
    | noSession _ hno => exact absurd trivial hno
    | tooLong hchunk hlong => exact (not_tooLong hfit hchunk hlong).elim
    | noTransaction _ hno => exact absurd htx (hno _ _)
    | dataRefused _ htx' hdata hoff =>
      obtain ⟨-, rfl⟩ := htx.unique htx'
      cases hoff.symm.trans (hon hdata)
    | shown _ _ _ _ _ hnone' => exact hnone'.trans hnone.symm
  | noSignature hno =>
    cases h' with
    | noSession hchunk _ => cases hchunk
    | tooLong hchunk _ => cases hchunk
    | noSignature _ => rfl
    | sent => exact absurd trivial hno
  | sent =>
    cases h' with
    | noSession hchunk _ => cases hchunk
    | noSignature hno => exact absurd trivial hno
    | sent => rfl

/-! ## The phases a request meets -/

variable {s : State} {e : Event} {r : Result} {o : Outcome} {hist : History} {en : Entry}
  {cdata : List UInt8} {rawTx : RawTx} {tx : ZondTx} {its : List Item}

theorem phaseOf_isOpen (h : IsOpen s.ctx) : phaseOf s =
    .loading s.ctx.bip32Path s.ctx.bip32PathLen s.ctx.txInfo.rawTx.bytes := by
  simp only [phaseOf, h.1, h.2]

theorem not_loading (h : ¬IsOpen s.ctx) : ¬Phase.IsLoading (phaseOf s) := by
  intro hload
  unfold phaseOf at hload
  split at hload
  · exact hload
  · rename_i hty hst
    exact h ⟨hty, hst⟩
  · split at hload
    · exact hload
    · exact hload
  · exact hload

theorem phaseOf_sendable (h : Sendable s) : phaseOf s = .releasing s.nvm.sig := by
  simp only [phaseOf, h.1, h.2.1]

/-- In a run, whatever releases a signature has one to send. -/
theorem not_releasing (hrun : Run sdk Serial hist s) (h : ¬Sendable s) :
    ¬Phase.IsReleasing (phaseOf s) := by
  intro hrel
  unfold phaseOf at hrel
  split at hrel
  · exact hrel
  · exact hrel
  · split at hrel
    · exact hrel
    · exact hrel
  · rename_i hty hst
    exact h ⟨hty, hst, ((guarded_of_run hrun).opened ⟨hty, hst⟩).2⟩

theorem isSome_acceptedPath : (acceptedPath sdk cdata).isSome = pathAccepted sdk cdata := by
  unfold acceptedPath pathAccepted
  cases sdk.bufferReadU8 ⟨cdata, 0⟩ with
  | none => rfl
  | some r =>
    obtain ⟨n, buffer⟩ := r
    rcases hr : sdk.bufferReadBip32Path buffer GlobalCtx.zero.bip32Path n.toNat with
      ⟨read, path, rest⟩
    simp only [hr]
    cases read && isValidZondBip32Path path n with
    | false => rfl
    | true => rfl

/-! ## The opening, the chunks, the signature -/

theorem first_replied (hq : Event.request e = some (.first cdata)) :
    Replied sdk blind (phaseOf s) (.first cdata) (step sdk s e).2 (phaseOf (step sdk s e).1) := by
  cases hpath : acceptedPath sdk cdata with
  | some q =>
    obtain ⟨path, len⟩ := q
    rw [step_first hpath hq]
    exact .opened hpath
  | none =>
    obtain ⟨o, ho⟩ := outcome_of_request hq
    rw [step_request hq ho, serve]
    obtain ⟨path, len, hpost, ⟨hacc, -⟩ | ⟨-, hout⟩⟩ := signTxFirst_cases sdk cdata s
    · rw [← isSome_acceptedPath, hpath] at hacc
      cases hacc
    · rw [hpost, hout]
      exact .badPath hpath

/-- A chunk without a session is refused, by both ways of appending it. -/
theorem step_noSession (hno : ¬IsOpen s.ctx)
    (hq : Event.request e = some (.more cdata) ∨ Event.request e = some (.last cdata)) :
    step sdk s e = (s, [.sendSw swBadState]) := by
  have happ : appendChunk sdk cdata s.ctx = .error swBadState := by
    unfold appendChunk
    by_cases hty : s.ctx.reqType = .confirmTransaction
    · rw [if_neg (not_not.mpr hty), if_pos fun hst => hno ⟨hty, hst⟩]
    · rw [if_pos hty]
  rcases hq with hq | hq
  · obtain ⟨o, ho⟩ := outcome_of_request hq
    rw [step_request hq ho, serve, signTxMore, happ]
    rfl
  · obtain ⟨o, ho⟩ := outcome_of_request hq
    rw [step_request hq ho, serve, signTxLast, happ]
    rfl

/-- A chunk that is not taken in, by whichever request it comes. -/
theorem refused_replied (hreq : Event.request e = some q)
    (hq : q = .more cdata ∨ q = .last cdata) (hfit : ¬ChunkFits s.ctx cdata) :
    Replied sdk blind (phaseOf s) q (step sdk s e).2 (phaseOf (step sdk s e).1) := by
  have hchunk : q.chunk = some cdata := by
    rcases hq with rfl | rfl
    · rfl
    · rfl
  have hevent : Event.request e = some (.more cdata) ∨ Event.request e = some (.last cdata) := by
    rcases hq with rfl | rfl
    · exact .inl hreq
    · exact .inr hreq
  by_cases hopen : IsOpen s.ctx
  · have hlong : maxTransactionLen < s.ctx.txInfo.rawTx.bytes.length + cdata.length :=
      Nat.lt_of_not_le fun hle => hfit ⟨hopen.1, hopen.2, hle⟩
    rw [step_tooLong hopen hevent hlong, phaseOf_isOpen hopen]
    exact .tooLong hchunk (by rwa [List.length_append])
  · rw [step_noSession hopen hevent]
    exact .noSession hchunk (not_loading hopen)

theorem more_replied (hq : Event.request e = some (.more cdata)) :
    Replied sdk blind (phaseOf s) (.more cdata) (step sdk s e).2 (phaseOf (step sdk s e).1) := by
  by_cases hfit : ChunkFits s.ctx cdata
  swap
  · exact refused_replied hq (.inl rfl) hfit
  obtain ⟨rawTx, hbytes, hstep⟩ := @step_more sdk _ _ _ hq hfit
  have hpost : phaseOf (s.setRawTx rawTx) = .loading s.ctx.bip32Path s.ctx.bip32PathLen
      (s.ctx.txInfo.rawTx.bytes ++ cdata) := by
    rw [phaseOf_isOpen (s := s.setRawTx rawTx) ⟨hfit.1, hfit.2.1⟩, ← hbytes]
    rfl
  rw [hstep, hpost, phaseOf_fits hfit]
  exact .more (by rw [List.length_append]; exact hfit.2.2)

theorem signature_replied (hrun : Run sdk Serial hist s) {index : UInt8}
    (hq : Event.request e = some (.signature index)) :
    Replied sdk blind (phaseOf s) (.signature index) (step sdk s e).2
      (phaseOf (step sdk s e).1) := by
  obtain ⟨⟨-, h17⟩, ⟨hno, hstep⟩ | ⟨hsend, hstep⟩⟩ := @step_signature sdk s e index hq
  · rw [hstep]
    exact .noSignature (not_releasing hrun hno)
  · have hpost : phaseOf (afterChunk index s) =
        if index = 17 then .idle else .releasing s.nvm.sig := by
      unfold afterChunk
      split
      · rfl
      · exact phaseOf_sendable hsend
    rw [hstep, hpost, phaseOf_sendable hsend, (signatureReads_chunk s.nvm.sig h17).2]
    exact .sent

/-! ## The last chunk -/

theorem hasData_iff (h : Holds tx its) : HasData its ↔ tx.dataLen ≠ 0 := by
  obtain ⟨chainId, nonce, tip, feeCap, gas, recipient, value, data, accessList, descriptor, extra,
    rfl, -, -, -, -, -, -, -, hdata, -⟩ := h
  have hlen : tx.dataLen.toNat = data.payload.length := hdata.1
  constructor
  · rintro ⟨it, hit, hne⟩ hzero
    cases hit
    rw [hzero] at hlen
    exact hne (List.length_eq_zero_iff.mp hlen.symm)
  · intro hne
    refine ⟨data, rfl, ?_⟩
    intro hnil
    rw [hnil] at hlen
    exact hne (UInt16.toNat_inj.mp hlen)

/-- A display none of whose calls fails shows the transaction. -/
theorem displayed_shows (hd : Displayed sdk o blind s r) (hok : DisplayOk o)
    (hp : IsParsed s.ctx) : Leads r.2 ∧ replyOf r.2 = none ∧
      phaseOf r.1 = .shown s.ctx.bip32Path s.ctx.bip32PathLen s.ctx.txInfo.rawTx.bytes
        s.ctx.txInfo.txData := by
  cases hd with
  | badState hno => exact absurd hp hno
  | failed pk address _ hno => exact absurd hok hno
  | shown pairs _ _ _ =>
    exact ⟨⟨_, List.mem_cons_of_mem _ List.mem_cons_self, trivial⟩, rfl, phaseOf_review hp rfl⟩

/-- A choice of review that does not refuse the data shows the transaction. -/
theorem reviewed_shows (hr : Reviewed sdk o s r) (hok : DisplayOk o) (hp : IsParsed s.ctx)
    (hdata : ¬(s.ctx.txInfo.txData.dataLen ≠ 0 ∧ s.nvm.enableBlindSigning = 0)) :
    Leads r.2 ∧ replyOf r.2 = none ∧
      phaseOf r.1 = .shown s.ctx.bip32Path s.ctx.bip32PathLen s.ctx.txInfo.rawTx.bytes
        s.ctx.txInfo.txData := by
  cases hr with
  | refused hne hoff => exact absurd ⟨hne, hoff⟩ hdata
  | selector pair count _ _ =>
    exact ⟨⟨_, List.mem_cons_self, trivial⟩, rfl, phaseOf_review hp rfl⟩
  | fallback _ _ hd =>
    have hcall := displayed_shows hd hok hp
    exact hcall
  | blind _ _ hd => exact displayed_shows hd hok hp
  | clear _ hd => exact displayed_shows hd hok hp

theorem last_replied (hq : Event.request e = some (.last cdata)) (ho : Event.outcome e = some o)
    (hok : CallsOk o) (hscr : s.screen.isReview = false) :
    Replied sdk (s.nvm.enableBlindSigning != 0) (phaseOf s) (.last cdata) (step sdk s e).2
      (phaseOf (step sdk s e).1) := by
  by_cases hfit : ChunkFits s.ctx cdata
  swap
  · exact refused_replied hq (.inr rfl) hfit
  have hlen : (s.ctx.txInfo.rawTx.bytes ++ cdata).length ≤ maxTransactionLen := by
    rw [List.length_append]
    exact hfit.2.2
  have hint := hlen.trans maxTransactionLen_le
  obtain ⟨rawTx, hbytes, hstep⟩ := @step_last_eq sdk _ _ _ _ hq ho hfit
  have hctx : IsParsed ((s.setRawTx rawTx).setState .parsed).ctx := ⟨hfit.1, rfl⟩
  have hraw : ((s.setRawTx rawTx).setState .parsed).ctx.txInfo.rawTx.bytes =
    s.ctx.txInfo.rawTx.bytes ++ cdata := hbytes
  rw [hstep, phaseOf_fits hfit]
  rcases signTxParse_cases sdk o ((s.setRawTx rawTx).setState .parsed) with
    ⟨hno, -⟩ | ⟨-, txData, hdec, heq⟩ | ⟨-, txData, hdec, heq⟩
  · exact absurd hok.keccak hno
  · have hidle : phaseOf (decoded sdk txData ((s.setRawTx rawTx).setState .parsed)) = .idle :=
      phaseOf_parsed hctx hscr
    rw [heq, hidle]
    refine .noTransaction hlen ?_
    intro lst its htx
    obtain ⟨tx, hdec', -⟩ := decodeLedgerTx_of_isTx _ hint htx
    rw [hraw, hdec'] at hdec
    cases hdec
  · rw [hraw] at hdec
    obtain ⟨lst, its, htx, -, hholds⟩ := decodeLedgerTx_accepted hint hdec
    rw [heq]
    by_cases hdata : txData.dataLen ≠ 0 ∧ s.nvm.enableBlindSigning = 0
    · have hreview : signTxReview sdk o (decoded sdk txData ((s.setRawTx rawTx).setState .parsed)) =
          ({ decoded sdk txData ((s.setRawTx rawTx).setState .parsed) with
              screen := .blindSigningError },
            [.draw .blindSigningError, .sendSw swSignatureFail]) := if_pos hdata
      have hidle : phaseOf { decoded sdk txData ((s.setRawTx rawTx).setState .parsed) with
          screen := .blindSigningError } = .idle := phaseOf_parsed hctx rfl
      rw [hreview, hidle]
      exact .dataRefused hlen htx ((hasData_iff hholds).mpr hdata.1) (by simp [hdata.2])
    · obtain ⟨hleads, hnone, hpost⟩ := reviewed_shows (signTxReview_reviewed sdk o
        (decoded sdk txData ((s.setRawTx rawTx).setState .parsed))) hok.display hctx hdata
      rw [hpost]
      have hshown : Replied sdk (s.nvm.enableBlindSigning != 0)
          (.loading s.ctx.bip32Path s.ctx.bip32PathLen s.ctx.txInfo.rawTx.bytes) (.last cdata) _
          (.shown s.ctx.bip32Path s.ctx.bip32PathLen (s.ctx.txInfo.rawTx.bytes ++ cdata) txData) :=
        .shown hlen htx (fun hhas => bne_iff_ne.mpr fun hoff =>
          hdata ⟨(hasData_iff hholds).mp hhas, hoff⟩) hholds hleads hnone
      rw [← hraw] at hshown
      exact hshown

/-! ## Every run -/

/-- A request of `SIGN_TX`. -/
def Request.IsSigning : Request → Prop
  | .first _ => True
  | .more _ => True
  | .last _ => True
  | .signature _ => True
  | _ => False

theorem signing_replied (hrun : Run sdk Serial hist s) (hserial : Serial hist s e)
    (hq : Event.request e = some q) (hsign : Request.IsSigning q) (ho : Event.outcome e = some o)
    (hok : CallsOk o) : Replied sdk (s.nvm.enableBlindSigning != 0) (phaseOf s) q
      (step sdk s e).2 (phaseOf (step sdk s e).1) := by
  cases q with
  | first cdata => exact first_replied hq
  | more cdata => exact more_replied hq
  | last cdata => exact last_replied hq ho hok (serial_request hserial hq)
  | signature index => exact signature_replied hrun hq
  | _ => exact hsign.elim

/-- The bytes of a phase are those streamed since the session was opened. -/
theorem bytes_streamed (hrun : Run sdk Serial hist s) {bytes : List UInt8}
    (h : (phaseOf s).bytes = some bytes) : bytes = streamed opens hist := by
  have hraw := (streams_of_run hrun).raw
  unfold phaseOf at h
  split at h
  · cases h
  · rename_i hty _
    cases h
    exact hraw hty
  · rename_i hty _
    split at h
    · cases h
      exact hraw hty
    · cases h
  · cases h

/-- **What is replied**, in every run, to a request of `SIGN_TX` none of whose
calls fails: what the phase, the request and the setting say, and no other
reply can be told from these. -/
theorem run_replied (h : Run sdk Serial (en :: hist) s) (hq : Event.request en.event = some q)
    (hsign : Request.IsSigning q) (ho : Event.outcome en.event = some o) (hok : CallsOk o) :
    Replied sdk (en.pre.nvm.enableBlindSigning != 0) (phaseOf en.pre) q en.out (phaseOf en.post) ∧
      (∀ out p, Replied sdk (en.pre.nvm.enableBlindSigning != 0) (phaseOf en.pre) q out p →
        replyOf out = replyOf en.out) ∧
      ∀ bytes, (phaseOf en.pre).bytes = some bytes → bytes = streamed opens hist := by
  obtain ⟨hrun, hserial, hen, -⟩ := h.last
  have hreplied := signing_replied hrun hserial hq hsign ho hok
  rw [hen] at hreplied ⊢
  exact ⟨hreplied, fun out p h' => hreplied.unique h', fun bytes hbytes =>
    bytes_streamed hrun hbytes⟩

/-! ## The last chunk of the contract creation -/

def creationRest : Event := signTx 2 0 (validCreation.drop 8) creationBack_fits

/-- The run up to the last chunk. -/
def begun : History × State := runOf creationSdk interrupted.tail

theorem begun_run : Run creationSdk Serial (entry creationSdk begun.2 creationRest :: begun.1)
    (step creationSdk begun.2 creationRest).1 :=
  Lib.Machine.Run.exec ⟨.zero, rfl⟩ interrupted (by decide)

theorem creationRest_replied :
    Replied creationSdk (begun.2.nvm.enableBlindSigning != 0) (phaseOf begun.2)
        (.last (validCreation.drop 8)) (step creationSdk begun.2 creationRest).2
        (phaseOf (step creationSdk begun.2 creationRest).1) ∧
      (∀ out p, Replied creationSdk (begun.2.nvm.enableBlindSigning != 0) (phaseOf begun.2)
        (.last (validCreation.drop 8)) out p →
        replyOf out = replyOf (step creationSdk begun.2 creationRest).2) ∧
      ∀ bytes, (phaseOf begun.2).bytes = some bytes → bytes = streamed opens begun.1 :=
  run_replied begun_run (by decide) trivial rfl (good_callsOk _)

end LedgerZond.Replies
