import LedgerZond.HostSession

/-! # What a client comes to

Where the user approves what is shown and no call fails, the signing test
runs to its end, whatever screens the device puts on the way: every command is
replied to with `SW_OK`, those behind a review once the user has answered it,
and what the test asserts of the lengths holds. -/
namespace LedgerZond.HostProgress
open LedgerZond.CTypes LedgerZond.Types LedgerZond.Platform LedgerZond.AppState LedgerZond.Address
open LedgerZond.Review LedgerZond.RlpDecode LedgerZond.App LedgerZond.Requests LedgerZond.Displays
open LedgerZond.PublicKey LedgerZond.Steps LedgerZond.PublicKeyChunks LedgerZond.Dialogue
open LedgerZond.SignatureRelease LedgerZond.Chunking LedgerZond.HostClient LedgerZond.HostSession
open Lib.Client Lib.Server

variable {sdk : Sdk} {b b' start : Point} {s : State} {e : Event} {o : Outcome} {r : Result}
  {p : Path} {n : UInt8} {v : UInt8} {packedPath preimage data bytes : List UInt8} {tx : ZondTx}

/-! ## A willing user -/

/-- No call made for an event fails. -/
structure CallsOk (o : Outcome) : Prop where
  keccak : o.keccak = .ok
  display : DisplayOk o
  sign : SignOk o.sign

/-- The user approves what is shown and leaves blind signing as it is set; no
call fails, and nor does the power. -/
def Willing : Event → Prop
  | .apdu _ o => CallsOk o
  | .answer confirm o => confirm = true ∧ CallsOk o
  | .toggle sw => sw ≠ .blindSigning
  | .restart => False

theorem good_callsOk (sig : Signature) : CallsOk (.good sig) :=
  ⟨rfl, ⟨rfl, rfl, rfl, rfl, rfl⟩, rfl, rfl, rfl, rfl, rfl⟩

theorem CallsOk.keyOk (h : CallsOk o) : KeyOk o :=
  ⟨h.display.1, h.display.2.1, h.display.2.2.1⟩

/-- What a willing user leaves as it is while no review is on screen. -/
structure Keeps (s s' : State) : Prop where
  ctx : s'.ctx = s.ctx
  blind : s'.nvm.enableBlindSigning = s.nvm.enableBlindSigning
  sending : s'.nvm.isSendingSignature = s.nvm.isSendingSignature

theorem willing_keeps (h : s.screen.isReview = false) (he : isLocal e = true) (hw : Willing e) :
    Keeps s (step sdk s e).1 := by
  cases e with
  | apdu cmd o => cases he
  | answer confirm o =>
    simp only [step, onAnswer]
    cases hs : s.screen with
    | home => exact ⟨rfl, rfl, rfl⟩
    | blindSigningError => exact ⟨rfl, rfl, rfl⟩
    | _ =>
      rw [hs] at h
      cases h
  | toggle sw =>
    cases sw with
    | blindSigning => exact absurd rfl hw
    | _ => exact ⟨rfl, rfl, rfl⟩
  | restart => exact hw.elim

/-! ## Exchanges that succeed -/

/-- A reply comes, and whichever it is, it is `SW_OK` and leaves `Q`. -/
def Succeeds (sdk : Sdk) (Q : List UInt8 → Point → Prop) (out : List Effect) (b : Point) : Prop :=
  (∃ r b', Awaits (device sdk Willing) out b r b') ∧
    ∀ r b', Awaits (device sdk Willing) out b r b' → r.status = swOk ∧ Q r.data b'

theorem succeeds_now {Q : List UInt8 → Point → Prop} {out : List Effect}
    (hreply : replyOf out = some ⟨swOk, data⟩) (hq : Q data b) : Succeeds sdk Q out b := by
  refine ⟨⟨_, b, .replied hreply⟩, ?_⟩
  intro r b' hawaits
  obtain ⟨rfl, rfl⟩ := hawaits.now hreply
  exact ⟨rfl, hq⟩

theorem completes_exchange {ins p1 p2 : UInt8} {I : Point → Prop} {Q : List UInt8 → Point → Prop}
    (hfits : data.length ≤ 255)
    (hown : ∀ b e, I b → isLocal e = true → Willing e → I (b.next (step sdk) e))
    (hidle : ∀ b, I b → b.2.screen.isReview = false)
    (hreply : ∀ b e o, I b → Sent ins p1 p2 data o e → CallsOk o →
      Succeeds sdk Q (step sdk b.2 e).2 (b.next (step sdk) e))
    (hb : I b) : Completes (Meets sdk Willing) (exchange ins p1 p2 data) Q b := by
  unfold exchange
  rw [dif_pos hfits]
  refine completes_ask (I := I) (fun b e hi he => hown b e hi he.1 he.2) ?_ ?_ ?_ hb
  · exact ⟨_, hidle b hb, .good (.zero _), rfl, good_callsOk _⟩
  · rintro b e hi ⟨-, o, rfl, hok⟩
    exact (hreply b _ o hi ⟨hfits, rfl⟩ hok).1
  · rintro b e r b' hi ⟨-, o, rfl, hok⟩ hawaits
    obtain ⟨hstatus, hq⟩ := (hreply b _ o hi ⟨hfits, rfl⟩ hok).2 r b' hawaits
    rw [if_pos hstatus]
    exact hq

theorem noBytes_fits : ([] : List UInt8).length ≤ 255 := Nat.zero_le _

/-- **The rule of collecting**, for exchanges that succeed. -/
theorem completes_collect {ins p1 : UInt8} {I : Nat → Point → Prop} {count : Nat}
    (hone : ∀ i < count, ∀ b, I i b →
      Completes (Meets sdk Willing) (exchange ins p1 (UInt8.ofNat (i + 1)) [])
        (fun _ b' => I (i + 1) b') b)
    {first : List UInt8} (hb : I 0 b) :
    Completes (Meets sdk Willing) ((List.range' 1 count).foldlM (collect ins p1) first)
      (fun _ b' => I count b') b := by
  refine Completes.mono (completes_foldlM (I := fun _ left b => ∃ k, k + left.length = count ∧
    left = List.range' (k + 1) left.length ∧ I k b) ?_ ⟨0, by simp, by simp, hb⟩) ?_
  swap
  · rintro all b' ⟨k, hk, -, hb'⟩
    cases hk
    exact hb'
  · rintro all x left b ⟨k, hk, hleft, hb⟩
    rw [List.length_cons, List.range'_succ, List.cons.injEq] at hleft
    obtain ⟨rfl, hleft⟩ := hleft
    rw [List.length_cons] at hk
    refine completes_bind ((hone k (by omega) b hb).mono ?_)
    intro data b' hb'
    exact ⟨k + 1, by omega, hleft, hb'⟩

/-! ## The key -/

/-- At rest, with blind signing set as it was. -/
structure Ready (sdk : Sdk) (start : Point) (v : UInt8) (b : Point) : Prop
    extends AtRest sdk start b where
  blind : b.2.nvm.enableBlindSigning = v

theorem Ready.own (h : Ready sdk start v b) (he : isLocal e = true) (hw : Willing e) :
    Ready sdk start v (b.next (step sdk) e) :=
  ⟨h.toAtRest.own he, (willing_keeps h.idle he hw).blind.trans h.blind⟩

theorem key_answered (hk : KeyAsked sdk o data false s r) (hok : KeyOk o)
    (hpath : acceptedPath sdk data = some (p, n)) :
    r = (derivedKey sdk p n s, [.derive p n, .sendResponse .address
      (zondAddressPrefix :: (addressOf sdk (publicKey sdk p n)).toList)]) := by
  cases hk with
  | refused p' n' hno => cases hpath.symm.trans hno
  | failed p' n' pk address error _ hno => exact absurd hok hno
  | answered p' n' hpath' _ _ =>
    cases hpath.symm.trans hpath'
    rfl
  | unshown p' n' _ _ hdisplay => cases hdisplay
  | shown p' n' text _ _ hdisplay => cases hdisplay

theorem completes_getPublicKey (hpath : acceptedPath sdk packedPath = some (p, n))
    (hne : packedPath ≠ []) (hfits : packedPath.length ≤ 255) (h : Ready sdk start v b) :
    Completes (Meets sdk Willing) (getPublicKey packedPath >>= checkAddress)
      (fun _ b' => Ready sdk start v b') b := by
  have hasked : Completes (Meets sdk Willing) (getPublicKey packedPath)
      (fun data b' => data = zondAddressPrefix :: (addressOf sdk (publicKey sdk p n)).toList ∧
        Ready sdk start v b') b := by
    refine completes_exchange hfits (fun b e h he hw => h.own he hw) (fun b h => h.idle) ?_ h
    intro b e o h hsent hok
    have hreq := hsent.publicKey (by decide)
    rw [if_neg hne] at hreq
    have hstep := key_answered (step_publicKey (s := b.2) hreq hsent.outcome) hok.keyOk hpath
    refine succeeds_now (by rw [hstep]; rfl) ⟨rfl, ⟨h.toAlong.next (hsent.serial b.1 h.idle), ?_⟩, ?_⟩
    · exact (congrArg (fun r => r.1.screen.isReview) hstep).trans h.idle
    · exact (congrArg (fun r => r.1.nvm.enableBlindSigning) hstep).trans h.blind
  refine completes_bind (hasked.mono ?_)
  rintro data b' ⟨rfl, hready⟩
  have hlen : (addressOf sdk (publicKey sdk p n)).toList.length = 64 :=
    (addressOf sdk (publicKey sdk p n)).size_eq
  refine completes_bind (completes_assert ⟨rfl, ?_⟩ hready)
  rw [List.length_cons, hlen]

theorem completes_getPublicKeyChunks (h : Ready sdk start v b) :
    Completes (Meets sdk Willing) getPublicKeyChunks (fun _ b' => Ready sdk start v b') b := by
  refine completes_bind ((completes_collect (I := fun _ => Ready sdk start v) ?_ h).mono
    fun _ _ hb' => hb')
  intro i hi b h
  refine completes_exchange noBytes_fits (fun b e h he hw => h.own he hw) (fun b h => h.idle) ?_ h
  intro b e o h hsent _
  obtain ⟨reads, hstep⟩ := @step_pkChunk sdk b.2 e i hi (hsent.publicKeyChunk hi)
  refine succeeds_now (by rw [hstep]; rfl) ⟨⟨h.toAlong.next (hsent.serial b.1 h.idle), ?_⟩, ?_⟩
  · exact (congrArg (fun r => r.1.screen.isReview) hstep).trans h.idle
  · exact (congrArg (fun r => r.1.nvm.enableBlindSigning) hstep).trans h.blind

/-! ## The chunks of the transaction -/

/-- The context of a session that has taken in chunks. -/
def loadedCtx (p : Path) (n : UInt8) (rawTx : RawTx) : GlobalCtx :=
  { openedCtx p n with txInfo := { GlobalCtx.zero.txInfo with rawTx := rawTx } }

/-- A session on the path, that has taken in `bytes`. -/
structure Loading (sdk : Sdk) (start : Point) (v : UInt8) (p : Path) (n : UInt8)
    (bytes : List UInt8) (b : Point) : Prop extends Ready sdk start v b where
  ctx : ∃ rawTx : RawTx, rawTx.bytes = bytes ∧ b.2.ctx = loadedCtx p n rawTx

theorem Loading.own (h : Loading sdk start v p n bytes b) (he : isLocal e = true)
    (hw : Willing e) : Loading sdk start v p n bytes (b.next (step sdk) e) := by
  obtain ⟨rawTx, hraw, hctx⟩ := h.ctx
  exact ⟨h.toReady.own he hw, rawTx, hraw, (willing_keeps h.idle he hw).ctx.trans hctx⟩

theorem Loading.fits (h : Loading sdk start v p n bytes b)
    (hlen : bytes.length + data.length ≤ maxTransactionLen) : ChunkFits b.2.ctx data := by
  obtain ⟨rawTx, rfl, hctx⟩ := h.ctx
  rw [hctx]
  exact ⟨rfl, rfl, hlen⟩

theorem completes_first (hpath : acceptedPath sdk packedPath = some (p, n))
    (hne : packedPath ≠ []) (hfits : packedPath.length ≤ 255) (h : Ready sdk start v b) :
    Completes (Meets sdk Willing) (exchange insSignTx 0 0 packedPath)
      (fun _ b' => Loading sdk start v p n [] b') b := by
  refine completes_exchange hfits (fun b e h he hw => h.own he hw) (fun b h => h.idle) ?_ h
  intro b e o h hsent _
  have hreq := hsent.signTx
  rw [if_neg fun hboth => hne hboth.1] at hreq
  have hstep := @step_first sdk b.2 e p n packedPath hpath hreq
  refine succeeds_now (by rw [hstep]; rfl)
    ⟨⟨⟨h.toAlong.next (hsent.serial b.1 h.idle), ?_⟩, ?_⟩, GlobalCtx.zero.txInfo.rawTx, rfl, ?_⟩
  · exact (congrArg (fun r => r.1.screen.isReview) hstep).trans h.idle
  · exact (congrArg (fun r => r.1.nvm.enableBlindSigning) hstep).trans h.blind
  · exact congrArg (fun r => r.1.ctx) hstep

theorem completes_more (hne : data ≠ []) (hfits : data.length ≤ 255)
    (hroom : bytes.length + data.length ≤ maxTransactionLen)
    (h : Loading sdk start v p n bytes b) :
    Completes (Meets sdk Willing) (exchange insSignTx 1 0 data)
      (fun _ b' => Loading sdk start v p n (bytes ++ data) b') b := by
  refine completes_exchange hfits (fun b e h he hw => h.own he hw) (fun b h => h.idle) ?_ h
  intro b e o h hsent _
  have hreq := hsent.signTx
  rw [if_neg fun hboth => hne hboth.1] at hreq
  obtain ⟨whole, hwhole, hstep⟩ := @step_more sdk b.2 e data hreq (h.fits hroom)
  obtain ⟨rawTx, hraw, hctx⟩ := h.ctx
  refine succeeds_now (by rw [hstep]; rfl)
    ⟨⟨⟨h.toAlong.next (hsent.serial b.1 h.idle), ?_⟩, ?_⟩, whole, ?_, ?_⟩
  · exact (congrArg (fun r => r.1.screen.isReview) hstep).trans h.idle
  · exact (congrArg (fun r => r.1.nvm.enableBlindSigning) hstep).trans h.blind
  · rw [hwhole, hctx, ← hraw]
    rfl
  · show (step sdk b.2 e).1.ctx = loadedCtx p n whole
    rw [hstep]
    show (b.2.setRawTx whole).ctx = loadedCtx p n whole
    rw [State.setRawTx, hctx]
    rfl

theorem completes_messages {messages : List (List UInt8)}
    (hmsg : ∀ msg ∈ messages, msg ≠ [] ∧ msg.length ≤ 255)
    (hroom : messages.flatten.length ≤ maxTransactionLen) (h : Loading sdk start v p n [] b) :
    Completes (Meets sdk Willing)
      (messages.foldlM (fun _ msg => do let _ ← exchange insSignTx 1 0 msg) ())
      (fun _ b' => Loading sdk start v p n messages.flatten b') b := by
  refine Completes.mono (completes_foldlM
    (I := fun _ left b => (∀ msg ∈ left, msg ≠ [] ∧ msg.length ≤ 255) ∧
      ∃ sent, sent ++ left.flatten = messages.flatten ∧ Loading sdk start v p n sent b) ?_
    ⟨hmsg, [], rfl, h⟩) ?_
  swap
  · rintro - b' ⟨-, sent, hsent, hb'⟩
    rw [List.flatten_nil, List.append_nil] at hsent
    exact hsent ▸ hb'
  · rintro - msg left b ⟨hleft, sent, hsent, hb⟩
    obtain ⟨hne, hfits⟩ := hleft msg List.mem_cons_self
    have hlen : sent.length + msg.length ≤ maxTransactionLen := by
      rw [← hsent, List.flatten_cons, List.length_append, List.length_append] at hroom
      omega
    refine completes_bind ((completes_more hne hfits hlen hb).mono ?_)
    rintro - b' hb'
    refine ⟨fun m hm => hleft m (List.mem_cons_of_mem _ hm), sent ++ msg, ?_, hb'⟩
    rw [List.append_assoc]
    exact hsent

/-! ## The review -/

/-- A review of a decoded transaction is on screen, and the reply is to come. -/
structure Pending (sdk : Sdk) (start b : Point) : Prop extends Along sdk start b where
  leads : leadsToSignature b.2.screen
  parsed : IsParsed b.2.ctx

/-- At rest, with a signature that can be asked for. -/
structure Releasing (sdk : Sdk) (start b : Point) : Prop extends AtRest sdk start b where
  sendable : Sendable b.2

theorem Releasing.own (h : Releasing sdk start b) (he : isLocal e = true) (hw : Willing e) :
    Releasing sdk start (b.next (step sdk) e) := by
  have hkeeps := @willing_keeps sdk _ _ h.idle he hw
  refine ⟨h.toAtRest.own he, ?_⟩
  show Sendable (step sdk b.2 e).1
  rw [Sendable, hkeeps.ctx, hkeeps.sending]
  exact h.sendable

/-- The reply is to come, or it is `SW_OK`. -/
def Comes (sdk : Sdk) (start : Point) (out : List Effect) (b : Point) : Prop :=
  (replyOf out = none ∧ Pending sdk start b) ∨
    ∃ data, replyOf out = some ⟨swOk, data⟩ ∧ Releasing sdk start b

variable {blind : Bool}

theorem Displayed.comes (hd : Displayed sdk o blind s r) (hr : step sdk b.2 e = r)
    (hok : CallsOk o) (hp : IsParsed s.ctx) (hnext : Along sdk start (b.next (step sdk) e)) :
    Comes sdk start r.2 (b.next (step sdk) e) := by
  have heq := next_eq hr
  cases hd with
  | badState hno => exact absurd hp hno
  | failed pk address _ hno => exact absurd hok.display hno
  | shown pairs _ _ _ =>
    refine .inl ⟨rfl, hnext, ?_, ?_⟩
    · rw [heq]
      exact trivial
    · rw [heq]
      exact hp

/-- The last chunk is taken in and decoded, and a review put on screen. -/
theorem last_comes (hq : Event.request e = some (.last data)) (ho : Event.outcome e = some o)
    (hok : CallsOk o) (h : Loading sdk start v p n bytes b)
    (hlen : (bytes ++ data).length ≤ maxTransactionLen)
    (hdec : decodeLedgerTx .device (bytes ++ data) .zero = .ok (0, tx))
    (hshow : tx.dataLen = 0 ∨ v ≠ 0) (hnext : Along sdk start (b.next (step sdk) e)) :
    Comes sdk start (step sdk b.2 e).2 (b.next (step sdk) e) := by
  rw [List.length_append] at hlen
  obtain ⟨whole, hwhole, hstep⟩ := @step_last_eq sdk b.2 e o data hq ho (h.fits hlen)
  obtain ⟨rawTx, hraw, hctx⟩ := h.ctx
  have hbytes : whole.bytes = bytes ++ data := by
    rw [hwhole, hctx, ← hraw]
    rfl
  have hp := signTxParse_parsed sdk o ((b.2.setRawTx whole).setState .parsed)
  rw [← hstep] at hp
  have hty : b.2.ctx.reqType = .confirmTransaction := by
    rw [hctx]
    rfl
  have hzero : b.2.ctx.txInfo.txData = .zero := by
    rw [hctx]
    rfl
  generalize hr : step sdk b.2 e = r at hp
  have heq := next_eq hr
  -- what the decoder made of it
  have hsame : ∀ {ret : Int} {txData : ZondTx},
      decodeLedgerTx .device whole.bytes b.2.ctx.txInfo.txData = .ok (ret, txData) →
      ret = 0 ∧ txData = tx := by
    intro ret txData hdec'
    rw [hbytes, hzero, hdec] at hdec'
    cases hdec'
    exact ⟨rfl, rfl⟩
  cases hp with
  | unhashed mHash hno => exact absurd hok.keccak hno
  | undecoded txData _ hdec' =>
    obtain ⟨hret, -⟩ := hsame hdec'
    cases hret
  | reviewed txData _ hdec' hrev =>
    obtain ⟨-, rfl⟩ := hsame hdec'
    cases hrev with
    | refused hdata hoff =>
      rcases hshow with hnone | hon
      · exact absurd hnone hdata
      · exact absurd (h.blind.symm.trans hoff) hon
    | selector pair count _ _ =>
      refine .inl ⟨rfl, hnext, ?_, ?_⟩
      · rw [heq]
        exact trivial
      · rw [heq]
        exact ⟨hty, rfl⟩
    | fallback _ _ hd => exact Displayed.comes hd hr hok ⟨hty, rfl⟩ hnext
    | blind _ _ hd => exact Displayed.comes hd hr hok ⟨hty, rfl⟩ hnext
    | clear _ hd => exact Displayed.comes hd hr hok ⟨hty, rfl⟩ hnext

theorem pending_isReview (h : Pending sdk start b) : b.2.screen.isReview = true := by
  have hleads := h.leads
  cases hscr : b.2.screen with
  | confirm pair => rfl
  | transaction pairs blind => rfl
  | _ =>
    rw [hscr] at hleads
    exact hleads.elim

/-- An approval goes on to the next screen, or brings the reply. -/
theorem Pending.approve (h : Pending sdk start b) (hok : CallsOk o) :
    Comes sdk start (step sdk b.2 (.answer true o)).2 (b.next (step sdk) (.answer true o)) := by
  have hnext : Along sdk start (b.next (step sdk) (.answer true o)) := h.toAlong.own rfl
  have hreview := pending_isReview h
  have hdid := step_did sdk b.2 (.answer true o)
  generalize hr : step sdk b.2 (.answer true o) = r at hdid
  have heq := next_eq hr
  cases hdid with
  | fixed eff hq _ _ _ _ => cases hq
  | refusedChunk sw hq _ _ => rcases hq with hq | hq <;> cases hq
  | appended rawTx hq _ _ => cases hq
  | parsed o rawTx hq _ _ _ _ => cases hq
  | opened p n sw hq _ => cases hq
  | noSignature hq _ => cases hq
  | chunkSent hq _ _ _ => cases hq
  | keyServed hq _ => cases hq
  | walked o next _ _ =>
    refine .inl ⟨rfl, hnext, ?_, ?_⟩
    · rw [heq]
      exact trivial
    · rw [heq]
      exact h.parsed
  | walkEnded o _ _ hd => exact Displayed.comes hd hr hok h.parsed hnext
  | signed o _ _ =>
    refine .inr ⟨_, rfl, ⟨hnext, ?_⟩, ?_⟩
    · rw [heq]
      rfl
    · rw [heq]
      exact ⟨h.parsed.1, rfl, by simp [signedState]⟩
  | unsigned o sig effects _ hno _ => exact absurd hok.sign hno
  | addressApproved o hscr =>
    have hleads := h.leads
    rw [hscr] at hleads
    exact hleads.elim
  | dismissed confirm o hscr => cases hscr.symm.trans hreview

theorem Pending.own (h : Pending sdk start b) (he : isLocal e = true) (hw : Willing e) :
    Comes sdk start (step sdk b.2 e).2 (b.next (step sdk) e) := by
  cases e with
  | apdu cmd o => cases he
  | answer confirm o =>
    obtain ⟨rfl, hok⟩ := hw
    exact h.approve hok
  | toggle sw => exact .inl ⟨rfl, h.toAlong.own he, h.leads, h.parsed⟩
  | restart => exact hw.elim

/-- **The reply comes**, behind as many approvals as it takes. -/
theorem Comes.succeeds {out : List Effect} (h : Comes sdk start out b) :
    Succeeds sdk (fun _ b' => Releasing sdk start b') out b := by
  constructor
  · refine exists_awaits (m := device sdk Willing) (J := Comes sdk start) answersLeft ?_ h
    intro out b hcomes hnone
    rcases hcomes with ⟨-, hpending⟩ | ⟨data, hsome, -⟩
    · have hok := good_callsOk (.zero mldsa87SigBytes)
      have hpos := answersLeft_pos (pending_isReview hpending)
      have hlower := @answer_lowers sdk _ _ (inWalk_of_run hpending.run) true
        (Answers.stalls_of_ok hpending.parsed hok.display true)
      refine ⟨.answer true (.good (.zero _)), ⟨rfl, rfl, hok⟩, hpending.approve hok, ?_⟩
      exact Nat.lt_of_le_of_lt hlower (Nat.sub_lt hpos Nat.one_pos)
    · cases hnone.symm.trans hsome
  · intro r b' hawaits
    obtain ⟨last, hlast, hreply⟩ := hawaits.invariant (J := Comes sdk start)
      (fun out b e hj hnone he => by
        rcases hj with ⟨-, hpending⟩ | ⟨data, hsome, -⟩
        · exact hpending.own he.1 he.2
        · cases hnone.symm.trans hsome) h
    have hreply : replyOf last = some r := hreply
    rcases hlast with ⟨hnone, -⟩ | ⟨data, hsome, hreleasing⟩
    · cases hnone.symm.trans hreply
    · cases hsome.symm.trans hreply
      exact ⟨rfl, hreleasing⟩

theorem completes_signTx (hpath : acceptedPath sdk packedPath = some (p, n))
    (hne : packedPath ≠ []) (hfits : packedPath.length ≤ 255) (hsome : preimage ≠ [])
    (hlen : preimage.length ≤ maxTransactionLen)
    (hdec : decodeLedgerTx .device preimage .zero = .ok (0, tx)) (hshow : tx.dataLen = 0 ∨ v ≠ 0)
    (h : Ready sdk start v b) :
    Completes (Meets sdk Willing) (HostClient.signTx packedPath preimage)
      (fun _ b' => Releasing sdk start b') b := by
  refine completes_bind ((completes_first hpath hne hfits h).mono ?_)
  rintro - b hb
  have hmore : (splitMessage preimage maxApduLen).dropLast.flatten.length ≤ maxTransactionLen := by
    have hsub := (List.dropLast_sublist (splitMessage preimage maxApduLen)).flatten.length_le
    rw [show (splitMessage preimage maxApduLen).flatten = preimage from
      Lib.Slices.flatten_slices (by decide) preimage] at hsub
    exact hsub.trans hlen
  refine completes_bind ((completes_messages
    (fun msg hmem => mem_splitMessage (List.mem_of_mem_dropLast hmem)) hmore hb).mono ?_)
  rintro - b hb
  split
  · rename_i hnone
    rw [List.getLast?_eq_none_iff] at hnone
    have hwhole : (splitMessage preimage maxApduLen).flatten = preimage :=
      Lib.Slices.flatten_slices (by decide) preimage
    rw [hnone] at hwhole
    exact absurd hwhole.symm hsome
  rename_i msg hlast
  obtain ⟨hmsg, hmsgFits⟩ := mem_splitMessage (List.mem_of_getLast? hlast)
  have hwhole := dropLast_flatten_append hlast
  refine completes_exchange hmsgFits (fun b e h he hw => h.own he hw) (fun b h => h.idle) ?_ hb
  intro b e o h hsent hok
  have hreq := hsent.signTx
  rw [if_neg fun hboth => hmsg hboth.1] at hreq
  exact (last_comes hreq hsent.outcome hok h (by rw [hwhole]; exact hlen)
    (by rw [hwhole]; exact hdec) hshow (h.toAlong.next (hsent.serial b.1 h.idle))).succeeds

/-! ## The signature -/

theorem completes_getSignatureChunks (h : Releasing sdk start b) :
    Completes (Meets sdk Willing) (getSignatureChunks data) (fun _ _ => True) b := by
  refine completes_bind ((completes_collect (I := fun i b => i < 17 → Releasing sdk start b)
    ?_ (fun _ => h)).mono fun _ _ _ => trivial)
  intro i hi b h
  refine completes_exchange noBytes_fits (fun b e h he hw => h.own he hw) (fun b h => h.idle) ?_
    (h hi)
  intro b e o h hsent _
  rcases (@step_signature sdk b.2 e _ (hsent.signature hi)).2 with ⟨hno, -⟩ | ⟨hsend, hstep⟩
  · exact absurd h.sendable hno
  refine succeeds_now (by rw [hstep]; rfl) fun hnext =>
    ⟨⟨h.toAlong.next (hsent.serial b.1 h.idle), ?_⟩, ?_⟩
  · show (step sdk b.2 e).1.screen.isReview = false
    rw [hstep, (afterChunk_kept _ b.2).1]
    exact h.idle
  · have hlast : UInt8.ofNat (i + 1) ≠ 17 := by
      intro heq
      have hnat := congrArg UInt8.toNat heq
      rw [UInt8.toNat_ofNat'] at hnat
      change (i + 1) % 256 = 17 at hnat
      omega
    show Sendable (step sdk b.2 e).1
    rw [hstep, afterChunk, if_neg hlast]
    exact hsend

/-! ## The test -/

theorem canonicalPath_accepted : (acceptedPath testSdk canonicalPath).isSome = true := by decide

theorem creation_decodes : ∃ tx,
    decodeLedgerTx .device DecodeGrammar.validCreation .zero = .ok (0, tx) ∧ tx.dataLen = 0 :=
  DecodeGrammar.accepted_of_map .device DecodeGrammar.validCreation .zero ZondTx.dataLen 0
    (by decide)

/-- What a willing user can do, anybody can. -/
theorem meets_anything {cmd : Command} {r : Rapdu} (h : Meets sdk Willing b cmd r b') :
    Meets sdk Anything b cmd r b' := by
  refine h.mono (fun e => isLocal e = true ∧ Anything e) ?_ ?_
  · exact fun e he => ⟨he.1, trivial⟩
  · rintro s cmd e ⟨hidle, o, rfl, -⟩
    exact ⟨hidle, o, rfl, trivial⟩

theorem completes_e2eDeviceSign (hready : Ready sdk start v b)
    (hpath : acceptedPath sdk packedPath = some (p, n)) (hne : packedPath ≠ [])
    (hfits : packedPath.length ≤ 255) (hsome : preimage ≠ [])
    (hlen : preimage.length ≤ maxTransactionLen)
    (hdec : decodeLedgerTx .device preimage .zero = .ok (0, tx)) (hshow : tx.dataLen = 0 ∨ v ≠ 0) :
    Completes (Meets sdk Willing) (e2eDeviceSign packedPath preimage) (fun _ _ => True) b := by
  refine completes_bind (((completes_getPublicKey hpath hne hfits hready).and_safe
    (safe_askAddress hready.toAlong)).mono ?_)
  rintro - b ⟨hready, p', n', hpath', -, hheld⟩
  refine completes_bind (((completes_getPublicKeyChunks hready).and_safe
    (safe_getPublicKeyChunks hheld)).mono ?_)
  rintro - b ⟨hready, rfl, hheld⟩
  refine completes_bind (completes_assert (publicKey sdk p' n').size_eq ?_)
  refine completes_bind (((completes_signTx hpath hne hfits hsome hlen hdec hshow hready).and_safe
    (safe_signTx hpath' hheld.toAtRest)).mono ?_)
  rintro - b ⟨hreleasing, sig, rfl, hsigned⟩
  refine completes_bind (((completes_getSignatureChunks hreleasing).and_safe
    (safe_getSignatureChunks hsigned)).mono ?_)
  rintro - b ⟨-, rfl, -⟩
  exact completes_bind (completes_assert sig.size_eq trivial)

/-- **What a client ends with is right**, in whatever state it finds the
device, whatever the user does meanwhile and whichever calls fail. -/
theorem e2eDeviceSign_returns {out : E2eOut} (h : Run sdk Serial b.1 b.2)
    (hret : Returns (Meets sdk Anything) (e2eDeviceSign packedPath preimage) b out b') :
    ∃ p n sig, BelongsTo sdk packedPath preimage b b' out p n sig :=
  safe_iff.mp (safe_e2eDeviceSign ⟨h, List.suffix_rfl⟩ packedPath preimage) out b' hret

/-- The test returns on a fresh device, and what it returns is right. -/
theorem creation_returns : ∃ out b' p n sig,
    BelongsTo testSdk canonicalPath DecodeGrammar.validCreation ([], startUp .zero) b' out p n sig := by
  obtain ⟨⟨p, n⟩, hpath⟩ := Option.isSome_iff_exists.mp canonicalPath_accepted
  obtain ⟨tx, hdec, hdata⟩ := creation_decodes
  have hready : Ready testSdk ([], startUp .zero) 0 ([], startUp .zero) :=
    ⟨⟨⟨.start ⟨.zero, rfl⟩, List.suffix_rfl⟩, rfl⟩, rfl⟩
  obtain ⟨out, b', hret, -⟩ := (completes_e2eDeviceSign hready hpath (by decide) canonicalPath_fits
    (by decide) (by decide) hdec (.inl hdata)).exists_returns
  have hany : Returns (Meets testSdk Anything)
      (e2eDeviceSign canonicalPath DecodeGrammar.validCreation) ([], startUp .zero) out b' :=
    hret.mono fun _ _ _ _ => meets_anything
  exact ⟨out, b', e2eDeviceSign_returns (.start ⟨.zero, rfl⟩) hany⟩

end LedgerZond.HostProgress
