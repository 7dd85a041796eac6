import LedgerZond.HostClient
import LedgerZond.PublicKeyChunks
import LedgerZond.SignatureRelease

/-! # What a client gets

A client sees nothing but responses: it does not know what the user is shown
or answers, nor whether a call fails on the way. Still, what it ends with is
right: if the signing test returns at all, it returns the address and the key
of the path it asked for, and the signature the device verified under that
key, on the hash of just the preimage that was sent, behind the approval of a
review of it. -/
namespace LedgerZond.HostSession
open LedgerZond.CTypes LedgerZond.Types LedgerZond.Platform LedgerZond.AppState LedgerZond.Address
open LedgerZond.Review LedgerZond.RlpDecode LedgerZond.App LedgerZond.Requests LedgerZond.Displays
open LedgerZond.PublicKey LedgerZond.Steps LedgerZond.PublicKeyChunks LedgerZond.SignedBytes
open LedgerZond.SignatureRelease LedgerZond.Chunking LedgerZond.HostClient
open Lib.Client Lib.Server

variable {sdk : Sdk} {may : Event → Prop} {b b' start : Point} {s : State} {e : Event}
  {p : Path} {n : UInt8} {o : Outcome} {packedPath preimage data bytes : List UInt8}

/-! ## Chunks in a row -/

/-- **The rule of collecting.** Each exchange gets its chunk, so the loop gets
them all. -/
theorem safe_collect {ins p1 : UInt8} {I : Point → Prop} {chunk : Nat → List UInt8} {count : Nat}
    (hone : ∀ i < count, ∀ b, I b → Safe (Meets sdk may) (exchange ins p1 (UInt8.ofNat (i + 1)) [])
      (fun data b' => data = chunk i ∧ I b') b)
    {first : List UInt8} (hb : I b) :
    Safe (Meets sdk may) ((List.range' 1 count).foldlM (collect ins p1) first)
      (fun all b' => all = first ++ (List.range count).flatMap chunk ∧ I b') b := by
  refine Safe.mono (safe_foldlM (I := fun all left b => ∃ k, k + left.length = count ∧
    left = List.range' (k + 1) left.length ∧ all = first ++ (List.range k).flatMap chunk ∧ I b) ?_
    ⟨0, by simp, by simp, by simp, hb⟩) ?_
  swap
  · rintro all b' ⟨k, hk, -, hall, hb'⟩
    cases hk
    exact ⟨hall, hb'⟩
  · rintro all x left b ⟨k, hk, hleft, hall, hb⟩
    rw [List.length_cons, List.range'_succ, List.cons.injEq] at hleft
    obtain ⟨rfl, hleft⟩ := hleft
    rw [List.length_cons] at hk
    refine safe_bind.mpr ((hone k (by omega) b hb).mono ?_)
    rintro data b' ⟨rfl, hb'⟩
    refine ⟨k + 1, by omega, hleft, ?_, hb'⟩
    rw [hall, List.range_succ, List.flatMap_append, List.append_assoc]
    simp

/-! ## The key -/

/-- At rest, with the key of a path in the slot. -/
structure KeyHeld (sdk : Sdk) (start : Point) (p : Path) (n : UInt8) (b : Point) : Prop
    extends AtRest sdk start b where
  pk : b.2.nvm.pk = publicKey sdk p n

theorem KeyHeld.own (h : KeyHeld sdk start p n b) (he : isLocal e = true) :
    KeyHeld sdk start p n (b.next (step sdk) e) :=
  ⟨h.toAtRest.own he, (local_untouched h.idle he).pk.trans h.pk⟩

/-- What a `GET_PUBLIC_KEY` without a display replies. -/
theorem key_replies (hk : KeyAsked sdk o data false s (step sdk s e)) :
    ∃ reply, replyOf (step sdk s e).2 = some reply ∧ (reply.data.length = 65 → ∃ p n,
      acceptedPath sdk data = some (p, n) ∧
      reply.data = zondAddressPrefix :: (addressOf sdk (publicKey sdk p n)).toList ∧
      (step sdk s e).1.screen = s.screen ∧ (step sdk s e).1.nvm.pk = publicKey sdk p n) := by
  generalize step sdk s e = r at hk
  cases hk with
  | refused p n _ => exact ⟨_, rfl, fun hlen => by cases hlen⟩
  | failed p n pk address error _ _ => exact ⟨_, rfl, fun hlen => by cases hlen⟩
  | answered p n hpath _ _ => exact ⟨_, rfl, fun _ => ⟨p, n, hpath, rfl, rfl, rfl⟩⟩
  | unshown p n _ _ hdisplay => cases hdisplay
  | shown p n text _ _ hdisplay => cases hdisplay

/-- An address is that of the path, and its key is in the slot. -/
theorem safe_getPublicKey (h : Along sdk start b) :
    Safe (Meets sdk may) (getPublicKey packedPath) (fun data b' => data.length = 65 → ∃ p n,
      acceptedPath sdk packedPath = some (p, n) ∧
      data = zondAddressPrefix :: (addressOf sdk (publicKey sdk p n)).toList ∧
      KeyHeld sdk start p n b') b := by
  refine safe_exchange (I := Along sdk start) (fun b e h he _ => h.own he) ?_ h
  intro b e o reply b' h hidle hsent _ hawaits hlen
  have hreq := hsent.publicKey (by decide)
  by_cases hdata : packedPath = []
  · rw [if_pos hdata] at hreq
    have hout : replyOf (step sdk b.2 e).2 = some ⟨swWrongDataLength, []⟩ := by
      rw [step_request hreq hsent.outcome]
      rfl
    cases (hawaits.now hout).1
  rw [if_neg hdata] at hreq
  obtain ⟨r, hreply, hright⟩ := key_replies (step_publicKey hreq hsent.outcome)
  obtain ⟨rfl, rfl⟩ := hawaits.now hreply
  obtain ⟨p, n, hpath, haddress, hscr, hpk⟩ := hright hlen
  exact ⟨p, n, hpath, haddress, ⟨h.next (hsent.serial b.1 hidle), hscr ▸ hidle⟩, hpk⟩

/-- The address the tests go on with. -/
theorem safe_askAddress (h : Along sdk start b) :
    Safe (Meets sdk may) (getPublicKey packedPath >>= checkAddress) (fun address b' => ∃ p n,
      acceptedPath sdk packedPath = some (p, n) ∧
      address = (addressOf sdk (publicKey sdk p n)).toList ∧ KeyHeld sdk start p n b') b := by
  refine safe_bind.mpr ((safe_getPublicKey h).mono ?_)
  intro data b' hdata
  refine safe_bind.mpr (safe_assert ?_)
  rintro ⟨-, hlen⟩
  obtain ⟨p, n, hpath, rfl, hheld⟩ := hdata hlen
  exact ⟨p, n, hpath, rfl, hheld⟩

/-- A chunk of what is in the slot. -/
theorem step_pkChunk {i : Nat} (hi : i < 11)
    (hq : Event.request e = some (.publicKeyChunk (UInt8.ofNat i))) :
    ∃ reads, step sdk s e = (s, [.sendResponse (.publicKey reads) (pkChunk s.nvm.pk i)]) := by
  obtain ⟨o, ho⟩ := outcome_of_request hq
  have hindex : (UInt8.ofNat i).toNat = i := by
    rw [UInt8.toNat_ofNat']
    omega
  obtain ⟨reads, data, hstep⟩ :
      ∃ reads data, step sdk s e = (s, [.sendResponse (.publicKey reads) data]) := by
    rw [step_request hq ho, serve, helperSendResponsePkChunk,
      if_neg (by rw [hindex]; exact Nat.not_le.mpr hi)]
    exact ⟨_, _, rfl⟩
  have hdata := @step_chunk sdk s e _ reads data hq (by rw [hstep]; exact List.mem_singleton_self _)
  rw [hindex] at hdata
  exact ⟨reads, hdata ▸ hstep⟩

theorem safe_getPublicKeyChunks (h : KeyHeld sdk start p n b) :
    Safe (Meets sdk may) getPublicKeyChunks
      (fun pk b' => pk = (publicKey sdk p n).toList ∧ KeyHeld sdk start p n b') b := by
  have hlen : (publicKey sdk p n).toList.length = pkLen := (publicKey sdk p n).size_eq
  have hloop : Safe (Meets sdk may) ((List.range' 1 11).foldlM (collect insGetPublicKey 0) [])
      (fun all b' => all = [] ++ (List.range 11).flatMap (pkChunk (publicKey sdk p n)) ∧
        KeyHeld sdk start p n b') b := by
    refine safe_collect ?_ h
    intro i hi b h
    refine safe_exchange (I := KeyHeld sdk start p n) (fun b e h he _ => h.own he) ?_ h
    intro b e o reply b' h hidle hsent _ hawaits
    obtain ⟨reads, hstep⟩ := @step_pkChunk sdk b.2 e i hi (hsent.publicKeyChunk hi)
    have hreply : replyOf (step sdk b.2 e).2 = some ⟨swOk, pkChunk b.2.nvm.pk i⟩ := by
      rw [hstep]
      rfl
    obtain ⟨heq, rfl⟩ := hawaits.now hreply
    cases heq
    refine ⟨by rw [h.pk], ⟨h.toAlong.next (hsent.serial b.1 hidle), ?_⟩, ?_⟩
    · exact (congrArg (fun r => r.1.screen.isReview) hstep).trans h.idle
    · exact (congrArg (fun r => r.1.nvm.pk) hstep).trans h.pk
  refine safe_bind.mpr (hloop.mono ?_)
  rintro all b' ⟨rfl, hheld⟩
  refine ⟨?_, hheld⟩
  rw [List.nil_append, show (11 : Nat) = pkChunks from rfl, flatMap_pkChunk,
    List.take_of_length_le (Nat.le_of_eq hlen)]

/-! ## The chunks of the transaction -/

/-- At rest; a session that is open is that of the path, and has taken in `bytes`. -/
structure Streaming (sdk : Sdk) (start : Point) (p : Path) (n : UInt8) (bytes : List UInt8)
    (b : Point) : Prop extends AtRest sdk start b where
  session : b.2.ctx.reqType = .confirmTransaction →
    b.2.ctx.bip32Path = p ∧ b.2.ctx.bip32PathLen = n ∧ b.2.ctx.txInfo.rawTx.bytes = bytes

theorem Streaming.own (h : Streaming sdk start p n bytes b) (he : isLocal e = true) :
    Streaming sdk start p n bytes (b.next (step sdk) e) := by
  refine ⟨h.toAtRest.own he, ?_⟩
  intro hty
  have hctx : (step sdk b.2 e).1.ctx = b.2.ctx ∨ (step sdk b.2 e).1.ctx = .zero :=
    (local_untouched h.idle he).ctx
  change (step sdk b.2 e).1.ctx.reqType = _ at hty
  show (step sdk b.2 e).1.ctx.bip32Path = p ∧ (step sdk b.2 e).1.ctx.bip32PathLen = n ∧
    (step sdk b.2 e).1.ctx.txInfo.rawTx.bytes = bytes
  rcases hctx with hctx | hctx
  · rw [hctx] at hty ⊢
    exact h.session hty
  · rw [hctx] at hty
    cases hty

/-- A session on an accepted path. -/
theorem signTxFirst_accepted (s : State) (hpath : acceptedPath sdk data = some (p, n)) :
    signTxFirst sdk data s = (opened p n s, [.sendSw swOk]) := by
  obtain ⟨buffer, rest, hu, hr, hvalid⟩ := reads_of_acceptedPath hpath
  rw [signTxFirst, hu]
  simp only [hr, hvalid, Bool.not_true, Bool.false_eq_true, if_false]
  rfl

/-- What is replied to the opening of a session. -/
theorem step_first (hpath : acceptedPath sdk data = some (p, n))
    (hq : Event.request e = some (.first data)) :
    step sdk s e = (opened p n s, [.sendSw swOk]) := by
  obtain ⟨o, ho⟩ := outcome_of_request hq
  rw [step_request hq ho]
  exact signTxFirst_accepted s hpath

theorem safe_first (hpath : acceptedPath sdk packedPath = some (p, n)) (h : AtRest sdk start b) :
    Safe (Meets sdk may) (exchange insSignTx 0 0 packedPath)
      (fun _ b' => Streaming sdk start p n [] b') b := by
  refine safe_exchange (I := AtRest sdk start) (fun b e h he _ => h.own he) ?_ h
  intro b e o reply b' h hidle hsent _ hawaits
  have hreq := hsent.signTx
  by_cases hdata : packedPath = []
  · rw [if_pos ⟨hdata, rfl⟩] at hreq
    have hreply : replyOf (step sdk b.2 e).2 = some ⟨swWrongDataLength, []⟩ := by
      rw [step_request hreq hsent.outcome]
      rfl
    cases (hawaits.now hreply).1
  rw [if_neg fun hboth => hdata hboth.1] at hreq
  have hstep := @step_first sdk b.2 e p n packedPath hpath hreq
  have hreply : replyOf (step sdk b.2 e).2 = some ⟨swOk, []⟩ := by
    rw [hstep]
    rfl
  obtain ⟨-, rfl⟩ := hawaits.now hreply
  refine ⟨⟨h.toAlong.next (hsent.serial b.1 hidle), ?_⟩, ?_⟩
  · exact (congrArg (fun r => r.1.screen.isReview) hstep).trans h.idle
  · intro _
    exact ⟨congrArg (fun r => r.1.ctx.bip32Path) hstep,
      congrArg (fun r => r.1.ctx.bip32PathLen) hstep,
      congrArg (fun r => r.1.ctx.txInfo.rawTx.bytes) hstep⟩

/-- A chunk is appended, or refused. -/
theorem more_cases (hq : Event.request e = some (.more data)) :
    (ChunkFits s.ctx data ∧ ∃ rawTx : RawTx, rawTx.bytes = s.ctx.txInfo.rawTx.bytes ++ data ∧
        step sdk s e = (s.setRawTx rawTx, [.sendSw swOk])) ∨
      ∃ sw, sw ≠ swOk ∧ step sdk s e = (s, [.sendSw sw]) := by
  by_cases hfit : ChunkFits s.ctx data
  · exact .inl ⟨hfit, step_more hq hfit⟩
  · obtain ⟨o, ho⟩ := outcome_of_request hq
    rw [step_request hq ho, serve, signTxMore]
    rcases appendChunk_cases sdk data s.ctx with ⟨hfit', -⟩ | ⟨-, sw, hsw, happ⟩
    · exact absurd hfit' hfit
    · rw [happ]
      exact .inr ⟨sw, hsw, rfl⟩

theorem safe_more (hdata : data ≠ []) (h : Streaming sdk start p n bytes b) :
    Safe (Meets sdk may) (exchange insSignTx 1 0 data)
      (fun _ b' => Streaming sdk start p n (bytes ++ data) b') b := by
  refine safe_exchange (I := Streaming sdk start p n bytes) (fun b e h he _ => h.own he) ?_ h
  intro b e o reply b' h hidle hsent _ hawaits
  have hreq := hsent.signTx
  rw [if_neg fun hboth => hdata hboth.1] at hreq
  rcases @more_cases sdk b.2 e data hreq with ⟨hfit, rawTx, hbytes, hstep⟩ | ⟨sw, hsw, hstep⟩
  · have hreply : replyOf (step sdk b.2 e).2 = some ⟨swOk, []⟩ := by
      rw [hstep]
      rfl
    obtain ⟨-, rfl⟩ := hawaits.now hreply
    obtain ⟨hp, hn, hsent'⟩ := h.session hfit.1
    refine ⟨⟨h.toAlong.next (hsent.serial b.1 hidle), ?_⟩, ?_⟩
    · exact (congrArg (fun r => r.1.screen.isReview) hstep).trans h.idle
    · intro _
      refine ⟨(congrArg (fun r => r.1.ctx.bip32Path) hstep).trans hp,
        (congrArg (fun r => r.1.ctx.bip32PathLen) hstep).trans hn,
        (congrArg (fun r => r.1.ctx.txInfo.rawTx.bytes) hstep).trans ?_⟩
      rw [← hsent']
      exact hbytes
  · have hreply : replyOf (step sdk b.2 e).2 = some ⟨sw, []⟩ := by
      rw [hstep]
      rfl
    obtain ⟨heq, -⟩ := hawaits.now hreply
    exact absurd (congrArg Rapdu.status heq).symm hsw

/-- All but the last of the messages. -/
theorem safe_messages {messages : List (List UInt8)} (hmsg : ∀ msg ∈ messages, msg ≠ [])
    (h : Streaming sdk start p n [] b) :
    Safe (Meets sdk may) (messages.foldlM (fun _ msg => do let _ ← exchange insSignTx 1 0 msg) ())
      (fun _ b' => Streaming sdk start p n messages.flatten b') b := by
  refine Safe.mono (safe_foldlM (I := fun _ left b => (∀ msg ∈ left, msg ≠ []) ∧
    ∃ sent, sent ++ left.flatten = messages.flatten ∧ Streaming sdk start p n sent b) ?_
    ⟨hmsg, [], rfl, h⟩) ?_
  swap
  · rintro - b' ⟨-, sent, hsent, hb'⟩
    rw [List.flatten_nil, List.append_nil] at hsent
    exact hsent ▸ hb'
  · rintro - msg left b ⟨hleft, sent, hsent, hb⟩
    refine safe_bind.mpr ((safe_more (hleft msg List.mem_cons_self) hb).mono ?_)
    rintro - b' hb'
    refine ⟨fun m hm => hleft m (List.mem_cons_of_mem _ hm), sent ++ msg, ?_, hb'⟩
    rw [List.append_assoc]
    exact hsent

/-! ## The review -/

/-- The review on `screen` was drawn for the session in `ctx`. -/
def DrawnFor (sdk : Sdk) (ctx : GlobalCtx) (pairs : List Pair) (screen : Screen) (_ : History)
    (d : Entry) : Prop :=
  Effect.draw screen ∈ d.out ∧ IsReviewOf sdk d.post.nvm ctx pairs

/-- The last chunk is taken in and not yet replied to. -/
structure Reviewing (sdk : Sdk) (start : Point) (p : Path) (n : UInt8) (preimage : List UInt8)
    (b : Point) : Prop extends Along sdk start b where
  review : b.2.screen.isReview = true → leadsToSignature b.2.screen ∧ b.2.ctx.bip32Path = p ∧
    b.2.ctx.bip32PathLen = n ∧ b.2.ctx.txInfo.rawTx.bytes = preimage
  shown : ∀ pairs blind, b.2.screen = .transaction pairs blind →
    Since (DrawnFor sdk b.2.ctx pairs b.2.screen) start.1 b.1

/-- In the step `en` the user approves a review of the preimage, and the
signature made on its hash with the key of the path is accepted. -/
structure Approves (sdk : Sdk) (start : Point) (p : Path) (n : UInt8) (preimage : List UInt8)
    (sig : Signature) (hist : History) (en : Entry) : Prop where
  approved : ∃ o, en.event = .answer true o
  path : en.pre.ctx.bip32Path = p ∧ en.pre.ctx.bip32PathLen = n
  decodes : ∃ prior, decodeLedgerTx .device preimage prior = .ok (0, en.pre.ctx.txInfo.txData)
  review : ∃ pairs blind, en.pre.screen = .transaction pairs blind ∧
    Since (DrawnFor sdk en.pre.ctx pairs en.pre.screen) start.1 hist
  made : Effect.sign (sdk.keccak256 preimage) qrlCtx (secretKey sdk p n) ∈ en.out
  accepted : Effect.verify sig (sdk.keccak256 preimage) qrlCtx (publicKey sdk p n) true ∈ en.out

/-- At rest, with an approved signature of the preimage stored. -/
structure Signed (sdk : Sdk) (start : Point) (p : Path) (n : UInt8) (preimage : List UInt8)
    (sig : Signature) (b : Point) : Prop extends AtRest sdk start b where
  approves : Since (Approves sdk start p n preimage sig) start.1 b.1
  sig : b.2.nvm.sig = sig

theorem Signed.own {sig : Signature} (h : Signed sdk start p n preimage sig b)
    (he : isLocal e = true) : Signed sdk start p n preimage sig (b.next (step sdk) e) :=
  ⟨h.toAtRest.own he, h.approves.cons _, (local_untouched h.idle he).sig.trans h.sig⟩

/-- Either the reply is still to come, or it is no `SW_OK`, or it is the first
chunk of an approved signature. -/
def Awaiting (sdk : Sdk) (start : Point) (p : Path) (n : UInt8) (preimage : List UInt8)
    (out : List Effect) (b : Point) : Prop :=
  (replyOf out = none ∧ Reviewing sdk start p n preimage b) ∨
    (∃ sw data, sw ≠ swOk ∧ replyOf out = some ⟨sw, data⟩) ∨
    ∃ sig, replyOf out = some ⟨swOk, sigChunk sig 0⟩ ∧ Signed sdk start p n preimage sig b

variable {blind : Bool} {r : Result}

/-- A signature that does not come about leaves the reply to what follows it. -/
theorem SignUses.replyOf {effects : List Effect} (h : SignUses sdk o.sign s effects) :
    replyOf (effects ++ [.sendSw swSignatureFail]) = some ⟨swSignatureFail, []⟩ := by
  induction effects with
  | nil => rfl
  | cons eff effects ih =>
    have hrest := ih fun x hx => h x (List.mem_cons_of_mem _ hx)
    rcases h eff List.mem_cons_self with rfl | ⟨-, rfl⟩ | ⟨sig, rfl⟩ <;> exact hrest

theorem next_eq (hr : step sdk b.2 e = r) :
    b.next (step sdk) e = (⟨b.2, e, r.1, r.2⟩ :: b.1, r.1) := by
  subst hr
  rfl

/-- A display, for a session that is decoded. -/
theorem Displayed.awaiting (hd : Displayed sdk o blind s r) (hr : step sdk b.2 e = r)
    (h : Along sdk start b) (hnext : Along sdk start (b.next (step sdk) e))
    (hp : s.ctx.bip32Path = p) (hn : s.ctx.bip32PathLen = n)
    (hraw : s.ctx.txInfo.rawTx.bytes = preimage) :
    Awaiting sdk start p n preimage r.2 (b.next (step sdk) e) := by
  have heq := next_eq hr
  cases hd with
  | badState _ => exact .inr (.inl ⟨swBadState, [], by decide, rfl⟩)
  | failed pk address _ _ => exact .inr (.inl ⟨swDisplayAddressFail, [], by decide, rfl⟩)
  | shown pairs _ _ hpairs =>
    refine .inl ⟨rfl, hnext, ?_, ?_⟩
    · intro _
      rw [heq]
      exact ⟨trivial, hp, hn, hraw⟩
    · intro pairs' blind' hscr
      rw [heq] at hscr ⊢
      cases hscr
      exact since_head h.since ⟨by simp, hpairs⟩

/-- The last chunk is parsed, or refused. -/
theorem last_cases (hq : Event.request e = some (.last data)) (ho : Event.outcome e = some o) :
    (ChunkFits s.ctx data ∧ ∃ rawTx : RawTx, rawTx.bytes = s.ctx.txInfo.rawTx.bytes ++ data ∧
        Parsed sdk o ((s.setRawTx rawTx).setState .parsed) (step sdk s e)) ∨
      ∃ sw, sw ≠ swOk ∧ step sdk s e = (s, [.sendSw sw]) := by
  by_cases hfit : ChunkFits s.ctx data
  · obtain ⟨rawTx, hbytes, heq⟩ := @step_last_eq sdk s e o data hq ho hfit
    exact .inl ⟨hfit, rawTx, hbytes, heq ▸ signTxParse_parsed sdk o _⟩
  · rw [step_request hq ho, serve, signTxLast]
    rcases appendChunk_cases sdk data s.ctx with ⟨hfit', -⟩ | ⟨-, sw, hsw, happ⟩
    · exact absurd hfit' hfit
    · rw [happ]
      exact .inr ⟨sw, hsw, rfl⟩

/-- What is replied to the last chunk at once. -/
theorem last_awaiting (hq : Event.request e = some (.last data)) (ho : Event.outcome e = some o)
    (h : Streaming sdk start p n bytes b) (hnext : Along sdk start (b.next (step sdk) e)) :
    Awaiting sdk start p n (bytes ++ data) (step sdk b.2 e).2 (b.next (step sdk) e) := by
  rcases @last_cases sdk b.2 e o data hq ho with ⟨hfit, rawTx, hbytes, hp⟩ | ⟨sw, hsw, hstep⟩
  swap
  · rw [hstep]
    exact .inr (.inl ⟨sw, [], hsw, rfl⟩)
  obtain ⟨hpath, hn, hraw⟩ := h.session hfit.1
  rw [hraw] at hbytes
  generalize hr : step sdk b.2 e = r at hp
  have heq := next_eq hr
  cases hp with
  | unhashed mHash _ => exact .inr (.inl ⟨swSignatureFail, [], by decide, rfl⟩)
  | undecoded txData _ _ => exact .inr (.inl ⟨swTxParsingFail, [], by decide, rfl⟩)
  | reviewed txData _ _ hrev =>
    cases hrev with
    | refused _ _ => exact .inr (.inl ⟨swSignatureFail, [], by decide, rfl⟩)
    | selector pair count _ _ =>
      refine .inl ⟨rfl, hnext, ?_, ?_⟩
      · intro _
        rw [heq]
        exact ⟨trivial, hpath, hn, hbytes⟩
      · intro pairs blind hscr
        rw [heq] at hscr
        cases hscr
    | fallback _ _ hd => exact Displayed.awaiting hd hr h.toAlong hnext hpath hn hbytes
    | blind _ _ hd => exact Displayed.awaiting hd hr h.toAlong hnext hpath hn hbytes
    | clear _ hd => exact Displayed.awaiting hd hr h.toAlong hnext hpath hn hbytes

/-- The user's part in it. -/
theorem Reviewing.awaiting (h : Reviewing sdk start p n preimage b) (he : isLocal e = true) :
    Awaiting sdk start p n preimage (step sdk b.2 e).2 (b.next (step sdk) e) := by
  have hnext := h.toAlong.own he
  have hlocal : ∀ {q : Request}, Event.request e = some q → False := by
    intro q hq
    obtain ⟨cmd, o, rfl⟩ := apdu_of_request hq
    cases he
  have hdid := step_did sdk b.2 e
  generalize hr : step sdk b.2 e = r at hdid
  have heq := next_eq hr
  cases hdid with
  | fixed eff hq _ _ _ _ => exact (hlocal hq).elim
  | refusedChunk sw hq _ _ => exact (hq.elim hlocal hlocal).elim
  | appended rawTx hq _ _ => exact (hlocal hq).elim
  | parsed o rawTx hq _ _ _ _ => exact (hlocal hq).elim
  | opened p n sw hq _ => exact (hlocal hq).elim
  | noSignature hq _ => exact (hlocal hq).elim
  | chunkSent hq _ _ _ => exact (hlocal hq).elim
  | keyServed hq _ => exact (hlocal hq).elim
  | denied o _ => exact .inr (.inl ⟨swDeny, [], by decide, rfl⟩)
  | walked o next hscr _ =>
    obtain ⟨-, hrest⟩ := h.review (by rw [hscr]; rfl)
    refine .inl ⟨rfl, hnext, ?_, ?_⟩
    · intro _
      rw [heq]
      exact ⟨trivial, hrest⟩
    · intro pairs blind hscr'
      rw [heq] at hscr'
      cases hscr'
  | walkEnded o hscr _ hd =>
    obtain ⟨-, hp, hn, hraw⟩ := h.review (by rw [hscr]; rfl)
    exact Displayed.awaiting hd hr h.toAlong hnext hp hn hraw
  | @signed pairs blind o hscr hok =>
    obtain ⟨-, hp, hn, hraw⟩ := h.review (by rw [hscr]; rfl)
    obtain ⟨hdec, hshown⟩ := (streams_of_run h.run).review pairs blind hscr
    have hhash : b.2.ctx.txInfo.mHash = sdk.keccak256 preimage := by rw [hdec.hash, hraw]
    refine .inr (.inr ⟨o.sign.sig, ?_, ⟨⟨hnext, ?_⟩, ?_, ?_⟩⟩)
    · rw [← (signatureReads_first o.sign.sig).2]
      rfl
    · rw [heq]
      rfl
    · rw [heq]
      refine since_head h.since ⟨⟨o, rfl⟩, ⟨hp, hn⟩, ?_, ⟨pairs, blind, hscr, ?_⟩, ?_, ?_⟩
      · rw [← hraw]
        exact hdec.decodes
      · exact h.shown pairs blind hscr
      · simp [signedEffects, hhash, hp, hn]
      · simp [signedEffects, hhash, hshown.pk, hp, hn]
    · rw [heq]
      rfl
  | unsigned o sig effects _ _ huse =>
    exact .inr (.inl ⟨swSignatureFail, [], by decide, SignUses.replyOf huse⟩)
  | addressApproved o hscr =>
    obtain ⟨hleads, -⟩ := h.review (by rw [hscr]; rfl)
    rw [hscr] at hleads
    exact hleads.elim
  | dismissed confirm o hscr =>
    refine .inl ⟨rfl, hnext, ?_, ?_⟩
    · intro hrev
      rw [heq] at hrev
      cases hrev
    · intro pairs blind hscr'
      rw [heq] at hscr'
      cases hscr'
  | toggled sw =>
    refine .inl ⟨rfl, hnext, ?_, ?_⟩
    · intro hrev
      rw [heq] at hrev ⊢
      exact h.review hrev
    · intro pairs blind hscr
      rw [heq] at hscr ⊢
      exact (h.shown pairs blind hscr).cons _
  | restarted =>
    refine .inl ⟨rfl, hnext, ?_, ?_⟩
    · intro hrev
      rw [heq] at hrev
      cases hrev
    · intro pairs blind hscr
      rw [heq] at hscr
      cases hscr

/-- The messages but the last, and the last. -/
theorem dropLast_flatten_append {msg : List UInt8}
    (hlast : (splitMessage preimage maxApduLen).getLast? = some msg) :
    (splitMessage preimage maxApduLen).dropLast.flatten ++ msg = preimage := by
  have hsplit := List.dropLast_append_getLast? msg hlast
  calc (splitMessage preimage maxApduLen).dropLast.flatten ++ msg
    _ = ((splitMessage preimage maxApduLen).dropLast ++ [msg]).flatten := by simp
    _ = preimage := by rw [hsplit]; exact Lib.Slices.flatten_slices (by decide) preimage

theorem mem_splitMessage {msg : List UInt8} (h : msg ∈ splitMessage preimage maxApduLen) :
    msg ≠ [] ∧ msg.length ≤ 255 := Lib.Slices.mem_slices (by decide) h

/-- The whole of `sign_tx`: what it returns is the first chunk of an approved
signature of the transaction. -/
theorem safe_signTx (hpath : acceptedPath sdk packedPath = some (p, n)) (h : AtRest sdk start b) :
    Safe (Meets sdk may) (HostClient.signTx packedPath preimage)
      (fun first b' => ∃ sig, first = sigChunk sig 0 ∧ Signed sdk start p n preimage sig b') b := by
  refine safe_bind.mpr ((safe_first hpath h).mono ?_)
  rintro - b hb
  refine safe_bind.mpr ((safe_messages (fun msg hmem =>
    (mem_splitMessage (List.mem_of_mem_dropLast hmem)).1) hb).mono ?_)
  rintro - b hb
  split
  · trivial
  rename_i msg hlast
  have hne : msg ≠ [] := (mem_splitMessage (List.mem_of_getLast? hlast)).1
  refine safe_exchange (I := Streaming sdk start p n _) (fun b e h he _ => h.own he) ?_ hb
  intro b e o reply b' h hidle hsent _ hawaits
  have hreq := hsent.signTx
  rw [if_neg fun hboth => hne hboth.1] at hreq
  have hfirst := last_awaiting hreq hsent.outcome h (h.toAlong.next (hsent.serial b.1 hidle))
  rw [dropLast_flatten_append hlast] at hfirst
  obtain ⟨out, hend, hreply⟩ := hawaits.invariant (J := Awaiting sdk start p n preimage)
    (fun out b e hj hnone he => by
      rcases hj with ⟨-, hrev⟩ | ⟨sw, data, -, hsome⟩ | ⟨sig, hsome, -⟩
      · exact hrev.awaiting he.1
      · cases hnone.symm.trans hsome
      · cases hnone.symm.trans hsome) hfirst
  have hreply : replyOf out = some ⟨swOk, reply⟩ := hreply
  rcases hend with ⟨hnone, -⟩ | ⟨sw, data, hsw, hsome⟩ | ⟨sig, hsome, hsigned⟩
  · cases hnone.symm.trans hreply
  · cases hsome.symm.trans hreply
    exact absurd rfl hsw
  · cases hsome.symm.trans hreply
    exact ⟨sig, rfl, hsigned⟩

/-! ## The signature -/

/-- The chunks behind the first. -/
theorem sigChunks_eq (sig : Signature) :
    sigChunk sig 0 ++ (List.range 17).flatMap (fun i => sigChunk sig (UInt8.ofNat (i + 1))) =
      sig.toList := by
  have hlen : sig.toList.length = 4627 := sig.size_eq
  have hchunk : ∀ i < 18, sigChunk sig (UInt8.ofNat i) = Lib.Slices.slice 258 sig.toList i := by
    intro i hi
    have hindex : (UInt8.ofNat i).toNat = i := by
      rw [UInt8.toNat_ofNat']
      omega
    unfold sigChunk Lib.Slices.slice slice
    rw [hindex, Nat.mul_comm i]
    split
    · rw [Nat.add_sub_cancel_left]
    · rw [show i = 17 by omega]
      rw [List.take_of_length_le (by simp [hlen]), List.take_of_length_le (by simp [hlen])]
  calc sigChunk sig 0 ++ (List.range 17).flatMap (fun i => sigChunk sig (UInt8.ofNat (i + 1)))
    _ = (List.range 18).flatMap fun i => sigChunk sig (UInt8.ofNat i) := by
      rw [List.range_succ_eq_map, List.flatMap_cons, List.flatMap_map]
      rfl
    _ = (List.range 18).flatMap (Lib.Slices.slice 258 sig.toList) :=
      List.flatMap_congr fun i hi => hchunk i (List.mem_range.mp hi)
    _ = sig.toList.take (18 * 258) := Lib.Slices.flatMap_slice 258 sig.toList 18
    _ = sig.toList := List.take_of_length_le (by rw [hlen]; decide)

theorem afterChunk_kept (index : UInt8) (s : State) :
    (afterChunk index s).screen = s.screen ∧ (afterChunk index s).nvm.sig = s.nvm.sig := by
  unfold afterChunk
  split <;> exact ⟨rfl, rfl⟩

theorem safe_getSignatureChunks {sig : Signature} (h : Signed sdk start p n preimage sig b) :
    Safe (Meets sdk may) (getSignatureChunks (sigChunk sig 0))
      (fun all b' => all = sig.toList ∧ Signed sdk start p n preimage sig b') b := by
  have hloop : Safe (Meets sdk may)
      ((List.range' 1 17).foldlM (collect insSignTx 2) (sigChunk sig 0))
      (fun all b' => all = sigChunk sig 0 ++
          (List.range 17).flatMap (fun i => sigChunk sig (UInt8.ofNat (i + 1))) ∧
        Signed sdk start p n preimage sig b') b := by
    refine safe_collect ?_ h
    intro i hi b h
    refine safe_exchange (I := Signed sdk start p n preimage sig) (fun b e h he _ => h.own he) ?_ h
    intro b e o reply b' h hidle hsent _ hawaits
    obtain ⟨⟨-, h17⟩, hcase⟩ := @step_signature sdk b.2 e _ (hsent.signature hi)
    rcases hcase with ⟨-, hstep⟩ | ⟨-, hstep⟩
    · have hreply : replyOf (step sdk b.2 e).2 = some ⟨swBadState, []⟩ := by
        rw [hstep]
        rfl
      cases (hawaits.now hreply).1
    · have hreply : replyOf (step sdk b.2 e).2 = some ⟨swOk, sigChunk sig (UInt8.ofNat (i + 1))⟩ := by
        rw [hstep, (signatureReads_chunk b.2.nvm.sig h17).2, h.sig]
        rfl
      obtain ⟨heq, rfl⟩ := hawaits.now hreply
      cases heq
      have hkept := afterChunk_kept (UInt8.ofNat (i + 1)) b.2
      refine ⟨rfl, ⟨h.toAlong.next (hsent.serial b.1 hidle), ?_⟩, h.approves.cons _, ?_⟩
      · show (step sdk b.2 e).1.screen.isReview = false
        rw [hstep, hkept.1]
        exact h.idle
      · show (step sdk b.2 e).1.nvm.sig = sig
        rw [hstep, hkept.2]
        exact h.sig
  refine safe_bind.mpr (hloop.mono ?_)
  rintro all b' ⟨rfl, hsigned⟩
  refine ⟨?_, hsigned⟩
  have hlen : sig.toList.length = sigLen := sig.size_eq
  rw [sigChunks_eq, List.take_of_length_le (Nat.le_of_eq hlen)]

/-! ## The test -/

/-- What the signing test returns belongs to the path, and to an approval, since
the test began, of a review of just the preimage. -/
structure BelongsTo (sdk : Sdk) (packedPath preimage : List UInt8) (start b : Point) (out : E2eOut)
    (p : Path) (n : UInt8) (sig : Signature) : Prop where
  path : acceptedPath sdk packedPath = some (p, n)
  valid : isValidZondBip32Path p n = true
  address : out.address = (addressOf sdk (publicKey sdk p n)).toList
  publicKey : out.publicKey = (publicKey sdk p n).toList
  signature : out.signature = sig.toList
  approves : Since (Approves sdk start p n preimage sig) start.1 b.1

theorem safe_e2eDeviceSign (h : Along sdk start b) (packedPath preimage : List UInt8) :
    Safe (Meets sdk may) (e2eDeviceSign packedPath preimage)
      (fun out b' => ∃ p n sig, BelongsTo sdk packedPath preimage start b' out p n sig) b := by
  refine safe_bind.mpr ((safe_askAddress h).mono ?_)
  rintro - b ⟨p, n, hpath, rfl, hheld⟩
  refine safe_bind.mpr ((safe_getPublicKeyChunks hheld).mono ?_)
  rintro - b ⟨rfl, hheld⟩
  refine safe_bind.mpr (safe_assert fun _ => ?_)
  refine safe_bind.mpr ((safe_signTx hpath hheld.toAtRest).mono ?_)
  rintro - b ⟨sig, rfl, hsigned⟩
  refine safe_bind.mpr ((safe_getSignatureChunks hsigned).mono ?_)
  rintro - b ⟨rfl, hsigned⟩
  refine safe_bind.mpr (safe_assert fun _ => ?_)
  obtain ⟨-, -, -, -, hvalid⟩ := reads_of_acceptedPath hpath
  exact ⟨p, n, sig, hpath, hvalid, rfl, rfl, rfl, hsigned.approves⟩

end LedgerZond.HostSession
