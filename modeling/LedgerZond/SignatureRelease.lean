import LedgerZond.SignedBytes

/-! # The release of a signature

The signature is stored before it is verified, and its bytes are guarded by
the type, the state and a flag that a restart keeps. The invariant says when
they are open: exactly while the signature verified last, on the approval of
the current transaction, is the stored one and its session has not ended. -/
namespace LedgerZond.SignatureRelease
open LedgerZond.CTypes LedgerZond.Types LedgerZond.Platform LedgerZond.AppState
open LedgerZond.App LedgerZond.Requests LedgerZond.Displays LedgerZond.Steps LedgerZond.SignedBytes
open LedgerZond.DecodeGrammar

variable {sdk : Sdk} {hist : History} {s s' : State} {e : Event} {r : Result} {o : Outcome}
  {en : Entry}

/-! ## The signature that is released -/

/-- A signature, and what it was verified on. -/
structure Release where
  sig : Signature
  mHash : Bytes 32
  pk : PublicKey
deriving DecidableEq

/-- The signature `MLDSA_verify` accepts in a step. -/
def accepted : List Effect → Option Release
  | [] => none
  | .verify sig mHash _ pk true :: _ => some ⟨sig, mHash, pk⟩
  | _ :: out => accepted out

def Request.ends : Request → Bool
  | .first _ => true
  | .publicKey _ _ => true
  | .signature p2 => p2 == 17
  | _ => false

/-- The events that end the release of a signature: its last chunk, a new
session, a restart. -/
def ends : Event → Bool
  | .restart => true
  | e => (Event.request e).any Request.ends

/-- The signature that was accepted last and whose release has not ended. -/
def released : History → Option Release
  | [] => none
  | en :: hist =>
    match accepted en.out with
    | some rel => some rel
    | none => if ends en.event then none else released hist

/-- The bytes `[start, stop)` of a signature. -/
def slice (sig : Signature) (start stop : Nat) : List UInt8 :=
  (sig.toList.drop start).take (stop - start)

/-- The chunk `index` of a signature. -/
def sigChunk (sig : Signature) (index : UInt8) : List UInt8 :=
  if index.toNat ≤ 16 then slice sig (258 * index.toNat) (258 * index.toNat + 258)
  else slice sig 4386 4627

/-! ## Chunks are slices -/

/-- What a request for a chunk reads lies in the signature and is its chunk. -/
theorem signatureReads_chunk (sig : Signature) {index : UInt8} (h : index.toNat ≤ 17) :
    (∀ a ∈ signatureReads index, a < mldsa87SigBytes) ∧
      readAll sig.toList (signatureReads index) = sigChunk sig index := by
  have hlen : sig.toList.length = 4627 := sig.size_eq
  have hlt : index < 17 ↔ index.toNat ≤ 16 := by
    rw [UInt8.lt_iff_toNat_lt]
    exact Nat.lt_succ_iff
  have hfit : index.toNat * signatureChunkSize +
      (if index < 17 then signatureChunkSize else signatureLastChunkSize) ≤ mldsa87SigBytes := by
    simp only [hlt, signatureChunkSize, signatureLastChunkSize, mldsa87SigBytes]
    split <;> omega
  refine ⟨chunkReads_lt hfit, ?_⟩
  rw [signatureReads, readAll_chunkReads (hfit.trans_eq hlen.symm), sigChunk]
  simp only [hlt, slice, signatureChunkSize, signatureLastChunkSize]
  split
  · rw [Nat.mul_comm, Nat.add_sub_cancel_left]
  · rw [show index.toNat = 17 by omega]

/-! ## The invariant -/

/-- A signature of the current transaction was made. -/
def IsApproved (ctx : GlobalCtx) : Prop :=
  ctx.reqType = .confirmTransaction ∧ ctx.state = .approved

/-- The stored signature, with what the context and the storage hold for it. -/
def stored (s : State) : Release := ⟨s.nvm.sig, s.ctx.txInfo.mHash, s.nvm.pk⟩

structure Guarded (hist : History) (s : State) : Prop where
  opened : IsApproved s.ctx →
    released hist = some (stored s) ∧ s.nvm.isSendingSignature ≠ 0
  closed : ¬IsApproved s.ctx → released hist = none
  address : ∀ text, s.screen = .address text → s.ctx.reqType = .confirmAddress

theorem ends_of_isFixed {q : Request} (h : q.IsFixed) : Request.ends q = false := by
  cases q <;> first | rfl | exact h.elim

theorem ends_of_request {q : Request} (h : Event.request e = some q) : ends e = Request.ends q := by
  cases e with
  | restart => cases h
  | _ => simp [ends, h]

theorem accepted_mem {out : List Effect} {rel : Release} (h : accepted out = some rel) :
    ∃ c, Effect.verify rel.sig rel.mHash c rel.pk true ∈ out := by
  induction out with
  | nil => cases h
  | cons eff out ih =>
    have hrest : accepted out = some rel →
        ∃ c, Effect.verify rel.sig rel.mHash c rel.pk true ∈ eff :: out := by
      intro hout
      obtain ⟨c, hmem⟩ := ih hout
      exact ⟨c, List.mem_cons_of_mem _ hmem⟩
    cases eff with
    | verify sig mHash c pk ok =>
      cases ok with
      | true =>
        cases h
        exact ⟨c, List.mem_cons_self⟩
      | false => exact hrest h
    | _ => exact hrest h

theorem accepted_eq_none {out : List Effect}
    (h : ∀ sig mHash c pk, Effect.verify sig mHash c pk true ∉ out) : accepted out = none := by
  cases hacc : accepted out with
  | none => rfl
  | some rel =>
    obtain ⟨c, hmem⟩ := accepted_mem hacc
    exact absurd hmem (h _ _ _ _)

theorem accepted_quiet {out : List Effect} (h : ∀ eff ∈ out, Effect.signs eff = false) :
    accepted out = none :=
  accepted_eq_none fun _ _ _ _ hmem => by cases h _ hmem

theorem released_accepted {rel : Release} (ha : accepted en.out = some rel) :
    released (en :: hist) = some rel := by
  simp [released, ha]

theorem released_kept (ha : accepted en.out = none) (he : ends en.event = false) :
    released (en :: hist) = released hist := by
  simp [released, ha, he]

theorem released_ended (ha : accepted en.out = none)
    (h : ends en.event = true ∨ released hist = none) : released (en :: hist) = none := by
  rcases h with he | hnone
  · simp [released, ha, he]
  · simp [released, ha, hnone]

/-! ## What the steps keep -/

/-- Where no signature is open. -/
theorem Guarded.of_closed (ha : accepted en.out = none)
    (hclosed : ends en.event = true ∨ released hist = none) (hno : ¬IsApproved s.ctx)
    (haddr : ∀ text, s.screen = .address text → s.ctx.reqType = .confirmAddress) :
    Guarded (en :: hist) s :=
  ⟨fun h => absurd h hno, fun _ => released_ended ha hclosed, haddr⟩

/-- A step that neither ends the release nor touches what it is about. -/
theorem Guarded.same (hinv : Guarded hist s) (ha : accepted en.out = none)
    (he : ends en.event = false) (hctx : s'.ctx = s.ctx) (hstored : stored s' = stored s)
    (hflag : s'.nvm.isSendingSignature = s.nvm.isSendingSignature)
    (hscr : ∀ text, s'.screen = .address text → s.screen = .address text) :
    Guarded (en :: hist) s' := by
  refine ⟨?_, ?_, ?_⟩
  · intro h
    rw [released_kept ha he, hstored, hflag]
    exact hinv.opened (hctx ▸ h)
  · intro h
    rw [released_kept ha he]
    exact hinv.closed (hctx ▸ h)
  · intro text h
    rw [hctx]
    exact hinv.address text (hscr text h)

theorem not_approved_of_state (h : s.ctx.state ≠ .approved) : ¬IsApproved s.ctx :=
  fun ha => h ha.2

/-- The display of a transaction approves nothing and shows no address. -/
def StaysClosed (s : State) (r : Result) : Prop :=
  ¬IsApproved r.1.ctx ∧ ∀ text, r.1.screen = .address text → s.screen = .address text

theorem displayed_staysClosed {blind : Bool} (hd : Displayed sdk o blind s r)
    (hno : ¬IsApproved s.ctx) : StaysClosed s r := by
  cases hd with
  | badState _ =>
    exact ⟨not_approved_of_state (by simp [ioSendSw, State.setState]), fun _ h => h⟩
  | failed pk address _ _ => exact ⟨hno, fun _ h => h⟩
  | shown pairs _ _ _ => exact ⟨hno, fun _ h => by cases h⟩

theorem settled_staysClosed (h : Settled sdk o s r) (hno : ¬IsApproved s.ctx) :
    StaysClosed s r := by
  cases h with
  | answered txInfo sw _ => exact ⟨hno, fun _ h => h⟩
  | refused txInfo _ => exact ⟨hno, fun _ h => by cases h⟩
  | selector txInfo pair count _ => exact ⟨hno, fun _ h => by cases h⟩
  | displayed txInfo _ hd =>
    have hclosed := displayed_staysClosed hd hno
    exact hclosed

/-- While a review is on screen, no signature is open. -/
theorem Guarded.closed_of_review (hinv : Guarded hist s) (hstr : Streams sdk hist s)
    (hscr : s.screen.isReview = true) : ¬IsApproved s.ctx := by
  intro ha
  cases hs : s.screen with
  | home => simp [hs, Screen.isReview] at hscr
  | blindSigningError => simp [hs, Screen.isReview] at hscr
  | confirm pair => cases (hstr.walk pair hs).parsed.2.symm.trans ha.2
  | transaction pairs blind => cases (hstr.review pairs blind hs).1.parsed.2.symm.trans ha.2
  | address text => cases (hinv.address text hs).symm.trans ha.1

/-- **One step keeps the invariant.** -/
theorem Guarded.step (hstr : Streams sdk hist s) (hinv : Guarded hist s)
    (hserial : Serial hist s e) (hdid : Did sdk s e r) :
    Guarded (⟨s, e, r.1, r.2⟩ :: hist) r.1 := by
  cases hdid with
  | fixed eff hq hfix hplain _ _ =>
    refine hinv.same (accepted_quiet (by simp [Effect.signs_of_isPlain hplain])) ?_ rfl rfl rfl
      fun _ h => h
    rw [ends_of_request hq]
    exact ends_of_isFixed hfix
  | refusedChunk sw hq _ _ =>
    refine hinv.same rfl ?_ rfl rfl rfl fun _ h => h
    exact hq.elim ends_of_request ends_of_request
  | appended rawTx hq hfit hbytes =>
    have hhome := serial_request hserial hq
    have hno : ¬IsApproved s.ctx := not_approved_of_state (by simp [hfit.2.1])
    exact .of_closed rfl (.inr (hinv.closed hno)) hno fun _ h => absurd h (Screen.ne_address hhome _)
  | parsed o rawTx hq _ hfit hbytes hp =>
    have hhome := serial_request hserial hq
    have hno : ¬IsApproved s.ctx := not_approved_of_state (by simp [hfit.2.1])
    obtain ⟨hclosed, haddr⟩ := settled_staysClosed hp.settled
      (not_approved_of_state (by simp [State.setState]))
    exact .of_closed (accepted_quiet hp.settled.quiet) (.inr (hinv.closed hno)) hclosed
      fun text h => absurd (haddr text h) (Screen.ne_address hhome _)
  | opened p n sw hq _ =>
    have hhome := serial_request hserial hq
    exact .of_closed rfl (.inl (ends_of_request hq)) (fun h => by cases h.2)
      fun _ h => absurd h (Screen.ne_address hhome _)
  | noSignature hq hno =>
    have hhome := serial_request hserial hq
    have hclosed : ¬IsApproved s.ctx := fun h => hno ⟨h.1, h.2, (hinv.opened h).2⟩
    exact .of_closed rfl (.inr (hinv.closed hclosed)) hclosed
      fun _ h => absurd h (Screen.ne_address hhome _)
  | @chunkSent _ p2 hq h0 h17 hsend =>
    have hhome := serial_request hserial hq
    unfold afterChunk
    split
    next hlast =>
      refine .of_closed rfl (.inl ?_) (fun h => by cases h.1)
        fun _ h => absurd h (Screen.ne_address hhome _)
      rw [ends_of_request hq]
      simp [Request.ends, hlast]
    next hmore =>
      refine hinv.same rfl ?_ rfl rfl rfl fun _ h => h
      rw [ends_of_request hq]
      simp [Request.ends, hmore]
  | keyServed hq hk =>
    have hhome := serial_request hserial hq
    have hends : ends e = true := ends_of_request hq
    have hquiet := accepted_quiet hk.quiet
    cases hk with
    | answered ctx pk effects hctx _ =>
      exact .of_closed hquiet (.inl hends) (fun h => by cases hctx.1.symm.trans h.1)
        fun _ h => absurd h (Screen.ne_address hhome _)
    | shown ctx pk text hctx =>
      exact .of_closed hquiet (.inl hends) (fun h => by cases hctx.1.symm.trans h.1)
        fun _ _ => hctx.1
  | denied o hscr =>
    have hno := hinv.closed_of_review hstr hscr
    exact .of_closed rfl (.inr (hinv.closed hno)) (fun h => by cases h.1) fun _ h => by cases h
  | walked o next hs _ =>
    have hno := hinv.closed_of_review hstr (by rw [hs]; rfl)
    exact .of_closed rfl (.inr (hinv.closed hno)) hno fun _ h => by cases h
  | walkEnded o hs _ hd =>
    have hno := hinv.closed_of_review hstr (by rw [hs]; rfl)
    obtain ⟨hclosed, haddr⟩ := displayed_staysClosed hd hno
    exact .of_closed (accepted_quiet hd.quiet) (.inr (hinv.closed hno)) hclosed
      fun text h => absurd (hs.symm.trans (haddr text h)) (by simp)
  | signed o hs hok =>
    have hty := (hstr.review _ _ hs).1.parsed.1
    refine ⟨fun _ => ⟨rfl, by simp [signedState]⟩, fun h => absurd ⟨hty, rfl⟩ h, ?_⟩
    intro text h
    cases h
  | unsigned o sig effects hs hno huse =>
    have hclosed := hinv.closed_of_review hstr (by rw [hs]; rfl)
    refine .of_closed (accepted_eq_none ?_) (.inr (hinv.closed hclosed))
      (fun h => by cases h.2) fun _ h => by cases h
    intro sig mHash c pk hmem
    simp only [List.mem_append, List.mem_singleton, reduceCtorEq, or_false] at hmem
    rcases huse _ hmem with h | ⟨-, h⟩ | ⟨sig', h⟩ <;> cases h
  | addressApproved o hs =>
    have hno := hinv.closed_of_review hstr (by rw [hs]; rfl)
    have hty := hinv.address _ hs
    exact .of_closed rfl (.inr (hinv.closed hno)) (fun h => by cases hty.symm.trans h.1)
      fun _ h => by cases h
  | dismissed confirm o hscr => exact hinv.same rfl rfl rfl rfl rfl fun _ h => by cases h
  | toggled sw =>
    exact hinv.same rfl rfl rfl (by cases sw <;> rfl) (by cases sw <;> rfl) fun _ h => h
  | restarted => exact .of_closed rfl (.inl rfl) (fun h => by cases h.1) fun _ h => by cases h

theorem guarded_of_run (h : Run sdk Serial hist s) : Guarded hist s := by
  refine h.invariant ?_ ?_
  · intro s hstart
    obtain ⟨nvm, rfl⟩ := hstart
    refine ⟨?_, fun _ => rfl, ?_⟩
    · intro h
      cases h.1
    · intro text h
      cases h
  · intro hist s e hrun hinv hserial
    exact hinv.step (streams_of_run hrun) hserial (step_did sdk s e)

/-! ## Approvals -/

/-- In the step `d` the user approves a transaction, and the signature made is
accepted on its hash under the stored key. -/
structure IsApprovalOf (d : Entry) (rel : Release) : Prop where
  approved : ∃ o pairs blind, d.event = .answer true o ∧ d.pre.screen = .transaction pairs blind
  verified : Effect.verify rel.sig rel.mHash qrlCtx rel.pk true ∈ d.out
  mHash : rel.mHash = d.pre.ctx.txInfo.mHash
  pk : rel.pk = d.pre.nvm.pk

/-- An accepted signature is that of an approval, which sends its first chunk. -/
theorem signed_of_verify (hdid : Did sdk s e r) {sig : Signature} {mHash : Bytes 32}
    {c : List UInt8} {pk : PublicKey} (hmem : Effect.verify sig mHash c pk true ∈ r.2) :
    ∃ o pairs blind, e = .answer true o ∧ s.screen = .transaction pairs blind ∧
      o.sign.sig = sig ∧ mHash = s.ctx.txInfo.mHash ∧ c = qrlCtx ∧ pk = s.nvm.pk ∧
      r = (signedState sig s, signedEffects sdk sig s) := by
  cases hdid.signing hmem rfl with
  | chunkSent _ _ _ _ => simp at hmem
  | signed o hs hok =>
    simp only [signedEffects, List.mem_cons, reduceCtorEq, Effect.verify.injEq, List.not_mem_nil,
      false_or, or_false, and_true] at hmem
    obtain ⟨rfl, rfl, rfl, rfl⟩ := hmem
    exact ⟨o, _, _, rfl, hs, rfl, rfl, rfl, rfl, rfl⟩
  | unsigned o s' effects hs huse =>
    simp only [List.mem_append, List.mem_singleton, reduceCtorEq, or_false] at hmem
    rcases huse _ hmem with h | ⟨-, h⟩ | ⟨sig', h⟩ <;> cases h

theorem isApprovalOf_of_verify (hdid : Did sdk s e r) {sig : Signature} {mHash : Bytes 32}
    {c : List UInt8} {pk : PublicKey} (hmem : Effect.verify sig mHash c pk true ∈ r.2) :
    IsApprovalOf ⟨s, e, r.1, r.2⟩ ⟨sig, mHash, pk⟩ := by
  obtain ⟨o, pairs, blind, he, hs, -, hhash, rfl, hpk, -⟩ := signed_of_verify hdid hmem
  exact ⟨⟨o, pairs, blind, he, hs⟩, hmem, hhash, hpk⟩

/-- What is released was approved. -/
theorem approval_of_released {rel : Release} (hrun : Run sdk Serial hist s)
    (h : released hist = some rel) : ∃ d ∈ hist, IsApprovalOf d rel := by
  induction hrun with
  | start _ => cases h
  | next e hrun hok ih =>
    unfold released at h
    split at h
    next rel' hacc =>
      cases h
      obtain ⟨c, hmem⟩ := accepted_mem hacc
      exact ⟨_, List.mem_cons_self, isApprovalOf_of_verify (step_did sdk _ e) hmem⟩
    next hacc =>
      split at h
      next => cases h
      next =>
        obtain ⟨d, hd, happ⟩ := ih h
        exact ⟨d, List.mem_cons_of_mem _ hd, happ⟩

/-! ## What is sent of a signature -/

/-- What a step sends of a signature, behind `hist`. -/
structure Releases (hist : History) (en : Entry) : Prop where
  /-- Whatever is sent is a chunk of a signature that was accepted on the
  approval of the current transaction. -/
  response : ∀ reads ty st data, Effect.sendResponse (.signature reads ty st) data ∈ en.out →
    ty = .confirmTransaction ∧ st = .approved ∧ (∀ a ∈ reads, a < mldsa87SigBytes) ∧
      ∃ rel index, data = sigChunk rel.sig index ∧
        (index = 0 ∧ IsApprovalOf en rel ∨
          Event.request en.event = some (.signature index) ∧ released hist = some rel ∧
            (∃ d ∈ hist, IsApprovalOf d rel) ∧ rel.mHash = en.pre.ctx.txInfo.mHash ∧
            rel.pk = en.pre.nvm.pk)
  /-- An approval whose signature is accepted sends its first chunk. -/
  approval : ∀ sig mHash c pk, Effect.verify sig mHash c pk true ∈ en.out →
    IsApprovalOf en ⟨sig, mHash, pk⟩ ∧ released (en :: hist) = some ⟨sig, mHash, pk⟩ ∧
      ∃ reads, Effect.sendResponse (.signature reads .confirmTransaction .approved)
        (sigChunk sig 0) ∈ en.out
  /-- A request for a chunk gets it, or `SW_BAD_STATE` if nothing is released. -/
  chunk : ∀ index, Event.request en.event = some (.signature index) →
    released hist = none ∧ en.out = [.sendSw swBadState] ∨
      ∃ rel reads, released hist = some rel ∧
        en.out = [.sendResponse (.signature reads .confirmTransaction .approved)
          (sigChunk rel.sig index)]
  /-- Behind the last chunk there is none until a signature is accepted again. -/
  exhausted : ∀ after d before, hist = after ++ d :: before →
    Event.request d.event = some (.signature 17) → (∀ a ∈ after, accepted a.out = none) →
    ∀ index, Event.request en.event = some (.signature index) → en.out = [.sendSw swBadState]

theorem released_none_append {after before : History} (h : released before = none)
    (ha : ∀ a ∈ after, accepted a.out = none) : released (after ++ before) = none := by
  induction after with
  | nil => exact h
  | cons a after ih =>
    refine released_ended (ha a List.mem_cons_self) (.inr (ih ?_))
    intro b hb
    exact ha b (List.mem_cons_of_mem _ hb)

/-- A request for a chunk, in a guarded state. -/
theorem guarded_chunk (hinv : Guarded hist s) {index : UInt8}
    (hq : Event.request e = some (.signature index)) :
    released hist = none ∧ (step sdk s e).2 = [.sendSw swBadState] ∨
      released hist = some (stored s) ∧ (∀ a ∈ signatureReads index, a < mldsa87SigBytes) ∧
        (step sdk s e).2 = [.sendResponse
          (.signature (signatureReads index) .confirmTransaction .approved)
          (sigChunk s.nvm.sig index)] := by
  obtain ⟨⟨-, h17⟩, hcase⟩ := @step_signature sdk s _ _ hq
  obtain ⟨hlt, hread⟩ := signatureReads_chunk s.nvm.sig h17
  rcases hcase with ⟨hno, hout⟩ | ⟨hsend, hout⟩
  · refine .inl ⟨hinv.closed fun h => hno ⟨h.1, h.2, (hinv.opened h).2⟩, ?_⟩
    rw [hout]
  · refine .inr ⟨(hinv.opened ⟨hsend.1, hsend.2.1⟩).1, hlt, ?_⟩
    rw [hout, hread]

/-- The first chunk is sent with the approval. -/
theorem signatureReads_first (sig : Signature) :
    (∀ a ∈ chunkReads 0 signatureChunkSize signatureChunkSize, a < mldsa87SigBytes) ∧
      readAll sig.toList (chunkReads 0 signatureChunkSize signatureChunkSize) = sigChunk sig 0 :=
  @signatureReads_chunk sig 0 (by decide)

/-- A response with bytes of a signature belongs to the approval or to a request. -/
theorem guarded_response (hrun : Run sdk Serial hist s) {reads : List Nat} {ty : RequestType}
    {st : SessionState} {data : List UInt8}
    (hmem : Effect.sendResponse (.signature reads ty st) data ∈ (step sdk s e).2) :
    ty = .confirmTransaction ∧ st = .approved ∧ (∀ a ∈ reads, a < mldsa87SigBytes) ∧
      ∃ rel index, data = sigChunk rel.sig index ∧
        (index = 0 ∧ IsApprovalOf (entry sdk s e) rel ∨
          Event.request e = some (.signature index) ∧ released hist = some rel ∧
            (∃ d ∈ hist, IsApprovalOf d rel) ∧ rel.mHash = s.ctx.txInfo.mHash ∧
            rel.pk = s.nvm.pk) := by
  have hdid := step_did sdk s e
  have hrequest : ∀ index, Event.request e = some (.signature index) →
      ty = .confirmTransaction ∧ st = .approved ∧ (∀ a ∈ reads, a < mldsa87SigBytes) ∧
        data = sigChunk s.nvm.sig index ∧ released hist = some (stored s) := by
    intro index hq
    rcases guarded_chunk (guarded_of_run hrun) hq with ⟨-, hout⟩ | ⟨hrel, hlt, hout⟩
    · rw [hout] at hmem
      simp at hmem
    · rw [hout] at hmem
      simp only [List.mem_singleton, Effect.sendResponse.injEq, Source.signature.injEq] at hmem
      obtain ⟨⟨rfl, rfl, rfl⟩, rfl⟩ := hmem
      exact ⟨rfl, rfl, hlt, rfl, hrel⟩
  have hsigning := hdid.signing hmem rfl
  generalize hr : step sdk s e = r at hsigning hmem
  cases hsigning with
  | @chunkSent _ p2 hq _ _ _ =>
    obtain ⟨hty, hst, hlt, hdata, hrel⟩ := hrequest p2 hq
    have happ := approval_of_released hrun hrel
    exact ⟨hty, hst, hlt, stored s, p2, hdata, .inr ⟨hq, hrel, happ, rfl, rfl⟩⟩
  | signed o hs hok =>
    have hpar := ((streams_of_run hrun).review _ _ hs).1.parsed
    have happ : IsApprovalOf (entry sdk s (.answer true o))
        ⟨o.sign.sig, s.ctx.txInfo.mHash, s.nvm.pk⟩ := by
      refine isApprovalOf_of_verify (c := qrlCtx) (step_did sdk s _) ?_
      rw [hr]
      simp [signedEffects]
    simp only [signedEffects, List.mem_cons, reduceCtorEq, Effect.sendResponse.injEq,
      Source.signature.injEq, List.not_mem_nil, false_or, or_false] at hmem
    obtain ⟨⟨rfl, rfl, rfl⟩, rfl⟩ := hmem
    obtain ⟨hlt, hread⟩ := signatureReads_first o.sign.sig
    exact ⟨hpar.1, rfl, hlt, _, 0, hread, .inl ⟨rfl, happ⟩⟩
  | unsigned o s' effects hs huse =>
    simp only [List.mem_append, List.mem_singleton, reduceCtorEq, or_false] at hmem
    rcases huse _ hmem with h | ⟨-, h⟩ | ⟨sig', h⟩ <;> cases h

theorem releases_step (hrun : Run sdk Serial hist s) : Releases hist (entry sdk s e) := by
  have hinv := guarded_of_run hrun
  have hstr := streams_of_run hrun
  have hdid := step_did sdk s e
  refine ⟨fun reads ty st data hmem => guarded_response hrun hmem, ?_, ?_, ?_⟩
  · intro sig mHash c pk hmem
    obtain ⟨o, pairs, blind, -, hs, -, rfl, -, rfl, hr⟩ := signed_of_verify hdid hmem
    have hty := (hstr.review pairs blind hs).1.parsed.1
    have hout : (entry sdk s e).out = signedEffects sdk sig s := by
      rw [entry, Lib.Machine.entry, hr]
    refine ⟨isApprovalOf_of_verify hdid hmem, released_accepted (by rw [hout]; rfl), ?_⟩
    refine ⟨chunkReads 0 signatureChunkSize signatureChunkSize, ?_⟩
    rw [hout, ← (signatureReads_first sig).2]
    simp [signedEffects, hty]
  · intro index hq
    rcases guarded_chunk hinv hq with hno | ⟨hrel, -, hout⟩
    · exact .inl hno
    · exact .inr ⟨stored s, _, hrel, hout⟩
  · intro after d before hhist hlast hafter index hq
    have hnone : released hist = none := by
      rw [hhist]
      have hd : d.out = (step sdk d.pre d.event).2 := by
        rw [hrun.genuine d (by simp [hhist])]
        rfl
      refine released_none_append (released_ended ?_ (.inl (ends_of_request hlast))) hafter
      rcases (@step_signature sdk d.pre _ _ hlast).2 with ⟨-, hout⟩ | ⟨-, hout⟩
      · rw [hd, hout]
        rfl
      · rw [hd, hout]
        rfl
    rcases guarded_chunk hinv hq with ⟨-, hout⟩ | ⟨hrel, -, -⟩
    · exact hout
    · rw [hnone] at hrel
      cases hrel

/-- **Only a verified, approved signature is released**, chunk by chunk and in
any order, until its last chunk. -/
theorem run_releases (h : Run sdk Serial hist s) : Throughout Releases hist := by
  induction h with
  | start _ => trivial
  | next e hrun _ ih => exact ⟨releases_step hrun, ih⟩

/-- The contract creation approved, and a chunk of its signature twice before
the last one, the latest event first. -/
def retrieved : History × State :=
  runOf creationSdk [signTx 2 5 [] noData_fits, signTx 2 17 [] noData_fits,
    signTx 2 5 [] noData_fits, signTx 2 5 [] noData_fits, approve,
    signTx 2 0 validCreation validCreation_fits, signTx 0 0 canonicalPath canonicalPath_fits]

theorem retrieved_releases : Throughout Releases retrieved.1 :=
  run_releases (Lib.Machine.Run.exec ⟨.zero, rfl⟩ _ (by decide))

end LedgerZond.SignatureRelease
