import LedgerZond.Steps

/-! # What is signed

The message of a signature is the hash of the chunks a session took in, the
decoder accepted just these, and the user approved a review built from what
it made of them. The invariant ties `raw_tx` to the history while a session
is open, and the decoded transaction, the stored key and the review on
screen to each other; it is kept because no APDU comes in while a review is
on screen. -/
namespace LedgerZond.SignedBytes
open LedgerZond.CTypes LedgerZond.Types LedgerZond.Platform LedgerZond.AppState
open LedgerZond.Address LedgerZond.Review LedgerZond.RlpDecode LedgerZond.App
open LedgerZond.Requests LedgerZond.Displays LedgerZond.Steps LedgerZond.DecodeGrammar

/-! ## The chunks of a history -/

/-- The payloads, in order, of the chunks that passed the tests on state and
length since the latest event that starts anew. -/
def streamed (starts : Event → Bool) : History → List UInt8
  | [] => []
  | en :: hist =>
    if starts en.event then []
    else
      match chunkOf en.event with
      | some cdata =>
        if ChunkFits en.pre.ctx cdata then streamed starts hist ++ cdata else streamed starts hist
      | none => streamed starts hist

/-! ## The invariant -/

/-- `raw_tx` is hashed and decoded. -/
structure IsDecoded (sdk : Sdk) (ctx : GlobalCtx) : Prop where
  parsed : IsParsed ctx
  hash : ctx.txInfo.mHash = sdk.keccak256 ctx.txInfo.rawTx.bytes
  decodes : ∃ prior,
    decodeLedgerTx .device ctx.txInfo.rawTx.bytes prior = .ok (0, ctx.txInfo.txData)

/-- The step `d` drew the screen for the session that is open: the context is
as it left it, and only switches were flipped since. -/
structure DrawnBy (sdk : Sdk) (hist : History) (s : State) (screen : Screen) (pairs : List Pair)
    (d : Entry) : Prop where
  draw : Effect.draw screen ∈ d.out
  review : IsReviewOf sdk d.post.nvm s.ctx pairs
  session : d.post.ctx = s.ctx
  since : ∃ newer older, hist = newer ++ d :: older ∧ ∀ en ∈ newer, ∃ sw, en.event = .toggle sw

/-- The key of the session's path is stored, and `pairs` was put on screen
for the session. -/
structure IsShown (sdk : Sdk) (hist : History) (s : State) (screen : Screen) (pairs : List Pair) :
    Prop where
  pk : s.nvm.pk = publicKey sdk s.ctx.bip32Path s.ctx.bip32PathLen
  drawn : ∃ d, DrawnBy sdk hist s screen pairs d

structure Streams (sdk : Sdk) (hist : History) (s : State) : Prop where
  raw : s.ctx.reqType = .confirmTransaction → s.ctx.txInfo.rawTx.bytes = streamed opens hist
  walk : ∀ pair, s.screen = .confirm pair → IsDecoded sdk s.ctx
  review : ∀ pairs blind, s.screen = .transaction pairs blind →
    IsDecoded sdk s.ctx ∧ IsShown sdk hist s s.screen pairs

variable {sdk : Sdk} {hist : History} {s : State} {e : Event} {r : Result} {o : Outcome}

theorem DrawnBy.mem {screen : Screen} {pairs : List Pair} {d : Entry}
    (h : DrawnBy sdk hist s screen pairs d) : d ∈ hist := by
  obtain ⟨newer, older, rfl, -⟩ := h.since
  simp

/-- A switch is flipped. -/
theorem DrawnBy.toggle {screen : Screen} {pairs : List Pair} {d en : Entry}
    (h : DrawnBy sdk hist s screen pairs d) (nvm : InternalStorage) {sw : Switch}
    (hev : en.event = .toggle sw) :
    DrawnBy sdk (en :: hist) { s with nvm := nvm } screen pairs d := by
  obtain ⟨newer, older, hhist, hswitches⟩ := h.since
  refine ⟨h.draw, h.review, h.session, en :: newer, older, congrArg (en :: ·) hhist, ?_⟩
  intro x hx
  rcases List.mem_cons.mp hx with rfl | hx
  · exact ⟨sw, hev⟩
  · exact hswitches x hx

/-! ## What a step adds to the chunks -/

theorem streamed_other {starts : Event → Bool} {en : Entry} (hs : starts en.event = false)
    (hc : chunkOf en.event = none) : streamed starts (en :: hist) = streamed starts hist := by
  simp [streamed, hs, hc]

theorem streamed_refused {starts : Event → Bool} {en : Entry} {cdata : List UInt8}
    (hs : starts en.event = false) (hc : chunkOf en.event = some cdata)
    (hfit : ¬ChunkFits en.pre.ctx cdata) : streamed starts (en :: hist) = streamed starts hist := by
  simp [streamed, hs, hc, hfit]

theorem streamed_taken {starts : Event → Bool} {en : Entry} {cdata : List UInt8}
    (hs : starts en.event = false) (hc : chunkOf en.event = some cdata)
    (hfit : ChunkFits en.pre.ctx cdata) :
    streamed starts (en :: hist) = streamed starts hist ++ cdata := by
  simp [streamed, hs, hc, hfit]

/-! ## What the steps keep -/

/-- Off the reviews, only `raw_tx` is at stake. -/
theorem Streams.of_home (hscr : s.screen.isReview = false)
    (hraw : s.ctx.reqType = .confirmTransaction → s.ctx.txInfo.rawTx.bytes = streamed opens hist) :
    Streams sdk hist s where
  raw := hraw
  walk pair h := by simp [h, Screen.isReview] at hscr
  review pairs blind h := by simp [h, Screen.isReview] at hscr

/-- A display of a decoded transaction. -/
theorem displayed_streams {blind : Bool} {en : Entry} (hd : Displayed sdk o blind s r)
    (hen : en.post = r.1 ∧ en.out = r.2) (hdec : IsDecoded sdk s.ctx)
    (hscr : ∀ pairs blind, s.screen ≠ .transaction pairs blind)
    (hraw : s.ctx.txInfo.rawTx.bytes = streamed opens (en :: hist)) :
    Streams sdk (en :: hist) r.1 := by
  cases hd with
  | badState hno => exact absurd hdec.parsed hno
  | failed pk address _ _ =>
    exact ⟨fun _ => hraw, fun _ _ => ⟨hdec.parsed, hdec.hash, hdec.decodes⟩,
      fun pairs blind h => absurd h (hscr pairs blind)⟩
  | shown pairs _ _ hpairs =>
    have hdec' : IsDecoded sdk (keyed sdk s).ctx := ⟨hdec.parsed, hdec.hash, hdec.decodes⟩
    refine ⟨fun _ => hraw, fun pair h => by simp at h, ?_⟩
    intro pairs' blind' h
    simp only [Screen.transaction.injEq] at h
    obtain ⟨rfl, rfl⟩ := h
    refine ⟨hdec', rfl, en, ?_, ?_, ?_, [], hist, rfl, fun x hx => by cases hx⟩
    · rw [hen.2]
      simp
    · rw [hen.1]
      exact hpairs
    · rw [hen.1]

/-- The choice of a review for a decoded transaction. -/
theorem reviewed_streams {en : Entry} (hr : Reviewed sdk o s r)
    (hen : en.post = r.1 ∧ en.out = r.2) (hdec : IsDecoded sdk s.ctx)
    (hscr : s.screen.isReview = false)
    (hraw : s.ctx.txInfo.rawTx.bytes = streamed opens (en :: hist)) :
    Streams sdk (en :: hist) r.1 := by
  have hno : ∀ pairs blind, s.screen ≠ .transaction pairs blind :=
    fun pairs blind h => by simp [h, Screen.isReview] at hscr
  cases hr with
  | refused _ _ => exact .of_home rfl fun _ => hraw
  | selector pair count _ _ =>
    exact ⟨fun _ => hraw, fun _ _ => ⟨hdec.parsed, hdec.hash, hdec.decodes⟩,
      fun _ _ h => by simp at h⟩
  | fallback _ _ hd =>
    exact displayed_streams hd hen ⟨hdec.parsed, hdec.hash, hdec.decodes⟩ hno hraw
  | blind _ _ hd => exact displayed_streams hd hen hdec hno hraw
  | clear _ hd => exact displayed_streams hd hen hdec hno hraw

/-- What follows a last chunk, taken in by an open session. -/
theorem parsed_streams {en : Entry} (hp : Parsed sdk o s r) (hen : en.post = r.1 ∧ en.out = r.2)
    (hctx : IsParsed s.ctx) (hscr : s.screen.isReview = false)
    (hraw : s.ctx.txInfo.rawTx.bytes = streamed opens (en :: hist)) :
    Streams sdk (en :: hist) r.1 := by
  cases hp with
  | unhashed mHash _ => exact .of_home hscr fun _ => hraw
  | undecoded txData _ _ => exact .of_home hscr fun _ => hraw
  | reviewed txData _ hdec hr => exact reviewed_streams hr hen ⟨hctx, rfl, _, hdec⟩ hscr hraw

/-- **One step keeps the invariant.** -/
theorem Streams.step (hinv : Streams sdk hist s) (hserial : Serial hist s e)
    (hdid : Did sdk s e r) : Streams sdk (⟨s, e, r.1, r.2⟩ :: hist) r.1 := by
  cases hdid with
  | fixed eff hq hfix _ _ _ =>
    refine .of_home (serial_request hserial hq) ?_
    intro hty
    rw [streamed_other ((opens_of_request hq).trans hfix.isFirst)
      ((chunkOf_of_request hq).trans hfix.chunk)]
    exact hinv.raw hty
  | @refusedChunk _ cdata sw hq hno _ =>
    obtain ⟨q, hreq, hopen, hchunk⟩ : ∃ q, Event.request e = some q ∧ q.isFirst = false ∧
        q.chunk = some cdata := by
      rcases hq with hq | hq
      · exact ⟨_, hq, rfl, rfl⟩
      · exact ⟨_, hq, rfl, rfl⟩
    refine .of_home (serial_request hserial hreq) ?_
    intro hty
    rw [streamed_refused ((opens_of_request hreq).trans hopen)
      ((chunkOf_of_request hreq).trans hchunk) hno]
    exact hinv.raw hty
  | appended rawTx hq hfit hbytes =>
    have hscr := serial_request hserial hq
    refine .of_home hscr ?_
    intro hty
    rw [streamed_taken (opens_of_request hq) (chunkOf_of_request hq) hfit, ← hinv.raw hfit.1]
    exact hbytes
  | parsed o rawTx hq _ hfit hbytes hp =>
    have hscr := serial_request hserial hq
    refine parsed_streams hp ⟨rfl, rfl⟩ ⟨hfit.1, rfl⟩ hscr ?_
    rw [streamed_taken (opens_of_request hq) (chunkOf_of_request hq) hfit, ← hinv.raw hfit.1]
    exact hbytes
  | opened p n sw hq _ =>
    have hscr := serial_request hserial hq
    refine .of_home hscr ?_
    intro _
    have hopen : opens e = true := opens_of_request hq
    simp only [streamed, hopen, if_true]
    rfl
  | noSignature hq _ =>
    refine .of_home (serial_request hserial hq) ?_
    intro hty
    rw [streamed_other (opens_of_request hq) (chunkOf_of_request hq)]
    exact hinv.raw hty
  | @chunkSent _ p2 hq _ _ hsend =>
    have hscr := serial_request hserial hq
    unfold afterChunk
    split
    · exact .of_home hscr fun hty => by cases hty
    · refine .of_home hscr ?_
      intro hty
      rw [streamed_other (opens_of_request hq) (chunkOf_of_request hq)]
      exact hinv.raw hty
  | keyServed hq hk =>
    have hscr := serial_request hserial hq
    cases hk with
    | answered ctx pk effects hctx _ => exact .of_home hscr fun hty => by simp [hctx.1] at hty
    | shown ctx pk text hctx =>
      exact ⟨fun hty => by simp [hctx.1] at hty, fun _ h => by simp at h, fun _ _ h => by simp at h⟩
  | denied o hscr => exact .of_home rfl fun hty => by cases hty
  | walked o next hs _ =>
    exact ⟨hinv.raw, fun _ _ => hinv.walk _ hs, fun _ _ h => by simp at h⟩
  | walkEnded o hs _ hd =>
    have hdec := hinv.walk _ hs
    exact displayed_streams hd ⟨rfl, rfl⟩ ⟨hdec.parsed, hdec.hash, hdec.decodes⟩
      (fun pairs blind h => by cases hs.symm.trans h) (hinv.raw hdec.parsed.1)
  | signed o hs hok => exact .of_home rfl hinv.raw
  | unsigned o sig effects hs _ _ => exact .of_home rfl hinv.raw
  | addressApproved o hs => exact .of_home rfl hinv.raw
  | dismissed confirm o hscr => exact .of_home rfl hinv.raw
  | toggled sw =>
    refine ⟨hinv.raw, hinv.walk, ?_⟩
    intro pairs blind h
    obtain ⟨hdec, hpk, d, hdrawn⟩ := hinv.review pairs blind h
    refine ⟨hdec, ?_, d, hdrawn.toggle _ rfl⟩
    rw [← hpk]
    cases sw <;> rfl
  | restarted => exact .of_home rfl fun hty => by cases hty

theorem streams_of_run (h : Run sdk Serial hist s) : Streams sdk hist s := by
  refine h.invariant ?_ ?_
  · intro s hstart
    obtain ⟨nvm, rfl⟩ := hstart
    exact .of_home rfl fun hty => by cases hty
  · intro hist s e _ hinv hserial
    exact hinv.step hserial (step_did sdk s e)

/-! ## What a signature call signs -/

/-- The step `en`, taken behind `hist`, signs what was streamed since the
latest event that starts anew, decoded and approved. -/
structure SignsReviewed (sdk : Sdk) (starts : Event → Bool) (hist : History) (en : Entry)
    (msg : Bytes 32) (sk : SecretKey) : Prop where
  message : msg = sdk.keccak256 (streamed starts hist)
  decodes : ∃ prior,
    decodeLedgerTx .device (streamed starts hist) prior = .ok (0, en.pre.ctx.txInfo.txData)
  approval : ∃ o pairs blind, en.event = .answer true o ∧ en.pre.screen = .transaction pairs blind ∧
    ∃ d ∈ hist, Effect.draw en.pre.screen ∈ d.out ∧ IsReviewOf sdk d.post.nvm en.pre.ctx pairs
  key : sk = secretKey sdk en.pre.ctx.bip32Path en.pre.ctx.bip32PathLen
  pk : en.pre.nvm.pk = publicKey sdk en.pre.ctx.bip32Path en.pre.ctx.bip32PathLen

/-- **What is signed** is what was streamed since the latest `SIGN_TX` P1 = 0
that reached its handler, decoded, shown and approved. -/
theorem sign_signsReviewed {en : Entry} {msg : Bytes 32} {c : List UInt8} {sk : SecretKey}
    (h : Run sdk Serial (en :: hist) s) (hsign : Effect.sign msg c sk ∈ en.out) :
    SignsReviewed sdk opens hist en msg sk := by
  obtain ⟨hrun, -, hen, -⟩ := h.last
  have hout : en.out = (step sdk en.pre en.event).2 := by rw [hen]; rfl
  obtain ⟨⟨o, pairs, blind, hev, hscr, -⟩, hmsg, hsk⟩ :=
    (step_did sdk en.pre en.event).sign_mem (hout ▸ hsign)
  have hinv := streams_of_run hrun
  obtain ⟨hdec, hpk, d, hdrawn⟩ := hinv.review pairs blind hscr
  have hraw := hinv.raw hdec.parsed.1
  exact {
    message := by rw [hmsg, hdec.hash, hraw]
    decodes := hraw ▸ hdec.decodes
    approval := ⟨o, pairs, blind, hev, hscr, d, hdrawn.mem, hdrawn.draw, hdrawn.review⟩
    key := hsk
    pk := hpk }

/-! ## A contract creation, signed -/

/-- The digests of the contract creation and of its last eight bytes. -/
def creationDigests (input : List UInt8) : Bytes 32 :=
  if input = validCreation then
    ⟨[0xa7, 0x8e, 0x9d, 0x38, 0xaa, 0x1c, 0x67, 0xd4, 0x32, 0xa6, 0xfd, 0x19, 0x5d, 0x4e, 0xf1,
      0x22, 0xd9, 0x96, 0x9c, 0x1d, 0xef, 0xaf, 0xd1, 0xdb, 0x17, 0xac, 0x66, 0x93, 0xf1, 0xe4,
      0x39, 0x05], rfl⟩
  else if input = validCreation.drop 8 then
    ⟨[0x48, 0x93, 0xa1, 0x83, 0x5e, 0x67, 0xd8, 0x09, 0x41, 0xc4, 0x52, 0x08, 0x82, 0x42, 0xe2,
      0x84, 0xf9, 0x38, 0x7f, 0xc2, 0xef, 0x96, 0x44, 0x8e, 0xba, 0x6b, 0xae, 0x60, 0xa0, 0x29,
      0x1b, 0x41], rfl⟩
  else .zero _

def creationSdk : Sdk := referenceSdk creationDigests

theorem creationFront_fits : (validCreation.take 8).length ≤ 255 := by decide

theorem creationBack_fits : (validCreation.drop 8).length ≤ 255 := by decide

/-- The contract creation sent in two chunks, the latest event first. A
`SIGN_TX` P1 = 0 without data stands between the chunks. -/
def interrupted : List Event :=
  [signTx 2 0 (validCreation.drop 8) creationBack_fits, signTx 0 0 [] noData_fits,
    signTx 1 0 (validCreation.take 8) creationFront_fits,
    signTx 0 0 canonicalPath canonicalPath_fits]

/-- The run up to the approval. -/
def reviewed : History × State := runOf creationSdk interrupted

theorem interrupted_run :
    Run creationSdk Serial (entry creationSdk reviewed.2 approve :: reviewed.1)
      (step creationSdk reviewed.2 approve).1 :=
  Lib.Machine.Run.exec ⟨.zero, rfl⟩ (approve :: interrupted) (by decide)

theorem signs_of_any {out : List Effect} (h : out.any Effect.isSign = true) :
    ∃ msg c sk, Effect.sign msg c sk ∈ out := by
  obtain ⟨eff, heff, hsign⟩ := List.any_eq_true.mp h
  cases eff with
  | sign msg c sk => exact ⟨msg, c, sk, heff⟩
  | _ => cases hsign

theorem interrupted_signs :
    ∃ msg c sk, Effect.sign msg c sk ∈ (entry creationSdk reviewed.2 approve).out :=
  signs_of_any (by decide)

theorem interrupted_signsReviewed :
    ∃ msg sk, SignsReviewed creationSdk opens reviewed.1 (entry creationSdk reviewed.2 approve)
      msg sk := by
  obtain ⟨msg, c, sk, hsign⟩ := interrupted_signs
  exact ⟨msg, sk, sign_signsReviewed interrupted_run hsign⟩

/-- The chunk before a refused `SIGN_TX` P1 = 0 is part of what is signed. -/
theorem interrupted_not_since_latest :
    Run creationSdk Serial (entry creationSdk reviewed.2 approve :: reviewed.1)
        (step creationSdk reviewed.2 approve).1 ∧
      ∃ msg c sk, Effect.sign msg c sk ∈ (entry creationSdk reviewed.2 approve).out ∧
        ¬SignsReviewed creationSdk asksFirst reviewed.1 (entry creationSdk reviewed.2 approve)
          msg sk := by
  obtain ⟨msg, c, sk, hsign⟩ := interrupted_signs
  refine ⟨interrupted_run, msg, c, sk, hsign, ?_⟩
  intro h
  have hmsg := ((step_did creationSdk reviewed.2 approve).sign_mem hsign).2.1
  have hhash : reviewed.2.ctx.txInfo.mHash = creationDigests validCreation := by decide
  have hstreamed : streamed asksFirst reviewed.1 = validCreation.drop 8 := by decide
  have heq := h.message
  rw [hmsg, hhash, hstreamed] at heq
  exact absurd heq (by decide)

end LedgerZond.SignedBytes
