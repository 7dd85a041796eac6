import LedgerZond.PublicKey

/-! # What a step can do

Every event is served in one of a few ways, and `Did` lists them with their
guards and with the whole state they leave. The invariants of the
application are proved from `Did`, and never look into a handler again. -/
namespace LedgerZond.Steps
open LedgerZond.CTypes LedgerZond.Types LedgerZond.Platform LedgerZond.AppState
open LedgerZond.Address LedgerZond.Review LedgerZond.App LedgerZond.Requests LedgerZond.Displays
open LedgerZond.PublicKey

/-! ## Keys and signatures -/

/-- Neither a use of a key for signing nor a part of a signature nor a screen. -/
def Effect.isPlain : Effect → Bool
  | .sendSw _ => true
  | .sendResponse (.signature _ _ _) _ => false
  | .sendResponse _ _ => true
  | .derive _ _ => true
  | .sign _ _ _ => false
  | .verify _ _ _ _ _ => false
  | .draw _ => false

/-- A context without a transaction. -/
def IsAddressCtx (ctx : GlobalCtx) : Prop := ctx.reqType = .confirmAddress ∧ ctx.state = .none

/-- What `handler_get_public_key` can do. -/
inductive KeyServed (s : State) : Result → Prop
  | answered (ctx : GlobalCtx) (pk : PublicKey) (effects : List Effect) : IsAddressCtx ctx →
      (∀ eff ∈ effects, Effect.isPlain eff = true) →
      KeyServed s ({ s with ctx := ctx, nvm := { s.nvm with pk := pk } }, effects)
  | shown (ctx : GlobalCtx) (pk : PublicKey) (text : List Char) : IsAddressCtx ctx →
      KeyServed s ({ s with ctx := ctx, nvm := { s.nvm with pk := pk }, screen := .address text },
        [.derive ctx.bip32Path ctx.bip32PathLen, .draw (.address text)])

theorem handlerGetPublicKey_served (sdk : Sdk) (o : Outcome) (cdata : List UInt8) (display : Bool)
    (s : State) : KeyServed s (handlerGetPublicKey sdk o cdata display s) := by
  have hasked := handlerGetPublicKey_asked sdk o cdata display s
  generalize handlerGetPublicKey sdk o cdata display s = r at hasked
  cases hasked with
  | refused p n _ => exact .answered _ _ _ ⟨rfl, rfl⟩ (by simp [Effect.isPlain])
  | failed p n pk address error _ _ => exact .answered _ _ _ ⟨rfl, rfl⟩ (by simp [Effect.isPlain])
  | answered p n _ _ _ => exact .answered _ _ _ ⟨rfl, rfl⟩ (by simp [Effect.isPlain])
  | unshown p n _ _ _ => exact .answered _ _ _ ⟨rfl, rfl⟩ (by simp [Effect.isPlain])
  | shown p n text _ _ _ => exact .shown _ _ text ⟨rfl, rfl⟩

/-- Every call of `crypto_sign_message` succeeds. -/
def SignOk (o : SignOutcome) : Prop :=
  o.derive = cxOk ∧ o.keygen = cxOk ∧ o.sign = cxOk ∧ o.actualLen = mldsa87SigBytes ∧
    o.verify = cxOk

instance (o : SignOutcome) : Decidable (SignOk o) := inferInstanceAs (Decidable (_ ∧ _))

/-- The uses of a key by a signature that does not come about. -/
def SignUses (sdk : Sdk) (o : SignOutcome) (s : State) (effects : List Effect) : Prop :=
  ∀ eff ∈ effects, eff = .derive s.ctx.bip32Path s.ctx.bip32PathLen ∨
    (o.derive = cxOk ∧ o.keygen = cxOk) ∧
      eff = .sign s.ctx.txInfo.mHash qrlCtx (secretKey sdk s.ctx.bip32Path s.ctx.bip32PathLen) ∨
    ∃ sig, eff = .verify sig s.ctx.txInfo.mHash qrlCtx s.nvm.pk false

/-- An approved transaction: the signature is stored and being sent. -/
def signedState (sig : Signature) (s : State) : State :=
  { s with
    ctx := { s.ctx with state := .approved }
    nvm := { s.nvm with sig := sig, isSendingSignature := 1 }
    screen := .home }

/-- The uses of the key behind a signature, and its first chunk. -/
def signedEffects (sdk : Sdk) (sig : Signature) (s : State) : List Effect :=
  [.derive s.ctx.bip32Path s.ctx.bip32PathLen,
   .sign s.ctx.txInfo.mHash qrlCtx (secretKey sdk s.ctx.bip32Path s.ctx.bip32PathLen),
   .verify sig s.ctx.txInfo.mHash qrlCtx s.nvm.pk true,
   .sendResponse (.signature (chunkReads 0 signatureChunkSize signatureChunkSize) s.ctx.reqType
     .approved) (readAll sig.toList (chunkReads 0 signatureChunkSize signatureChunkSize))]

theorem transactionChoice_cases (sdk : Sdk) (o : Outcome) (s : State) :
    (SignOk o.sign ∧ transactionChoice sdk o true s =
        (signedState o.sign.sig s, signedEffects sdk o.sign.sig s)) ∨
      (¬SignOk o.sign ∧ ∃ sig effects, SignUses sdk o.sign s effects ∧
        transactionChoice sdk o true s = ({ s with
            ctx := { s.ctx with state := .none }
            nvm := { s.nvm with sig := sig }
            screen := .home },
          effects ++ [.sendSw swSignatureFail])) := by
  have hderive : SignUses sdk o.sign s [.derive s.ctx.bip32Path s.ctx.bip32PathLen] := by
    intro eff heff
    exact .inl (List.mem_singleton.mp heff)
  have hsign (h : o.sign.derive = cxOk ∧ o.sign.keygen = cxOk) :
      SignUses sdk o.sign s [.derive s.ctx.bip32Path s.ctx.bip32PathLen,
        .sign s.ctx.txInfo.mHash qrlCtx (secretKey sdk s.ctx.bip32Path s.ctx.bip32PathLen)] := by
    intro eff heff
    rcases List.mem_cons.mp heff with rfl | heff
    · exact .inl rfl
    · exact .inr (.inl ⟨h, List.mem_singleton.mp heff⟩)
  unfold transactionChoice validateTransaction cryptoSignMessage
  simp only [if_true, Result.after, ioSendSw, State.setState]
  by_cases hd : o.sign.derive = cxOk
  swap
  · simp only [if_pos hd]
    exact .inr ⟨fun h => hd h.1, s.nvm.sig, _, hderive, rfl⟩
  by_cases hk : o.sign.keygen = cxOk
  swap
  · simp only [if_neg (not_not.mpr hd), if_pos hk]
    exact .inr ⟨fun h => hk h.2.1, s.nvm.sig, _, hderive, rfl⟩
  simp only [if_neg (not_not.mpr hd), if_neg (not_not.mpr hk)]
  by_cases hs : o.sign.sign ≠ cxOk ∨ o.sign.actualLen ≠ mldsa87SigBytes
  · simp only [if_pos hs]
    exact .inr ⟨fun h => hs.elim (· h.2.2.1) (· h.2.2.2.1), o.sign.sig, _, hsign ⟨hd, hk⟩, rfl⟩
  simp only [if_neg hs]
  have hok : o.sign.sign = cxOk ∧ o.sign.actualLen = mldsa87SigBytes := by
    simpa [not_or] using hs
  cases hv : o.sign.verify == cxOk with
  | true => exact .inl ⟨⟨hd, hk, hok.1, hok.2, by simpa using hv⟩, rfl⟩
  | false =>
    refine .inr ⟨fun h => by simp [h.2.2.2.2] at hv, o.sign.sig, _, ?_, rfl⟩
    intro eff heff
    rcases List.mem_cons.mp heff with rfl | heff
    · exact .inl rfl
    rcases List.mem_cons.mp heff with rfl | heff
    · exact .inr (.inl ⟨⟨hd, hk⟩, rfl⟩)
    · exact .inr (.inr ⟨_, List.mem_singleton.mp heff⟩)

theorem chunkReads_lt {index count size n : Nat} (h : index * size + count ≤ n) :
    ∀ a ∈ chunkReads index count size, a < n := by
  intro a ha
  obtain ⟨i, hi, rfl⟩ := List.mem_map.mp ha
  rw [List.mem_range] at hi
  omega

theorem readAll_chunkReads {array : List UInt8} {index count size : Nat}
    (h : index * size + count ≤ array.length) :
    readAll array (chunkReads index count size) = (array.drop (index * size)).take count := by
  refine List.ext_getElem ?_ ?_
  · simp [readAll, chunkReads]
    omega
  · intro i hi _
    simp only [readAll, chunkReads, List.length_map, List.length_range] at hi
    have hlt : i + index * size < array.length := by omega
    simp [readAll, chunkReads, List.getElem?_eq_getElem hlt, Nat.add_comm]

/-- The bytes of `N_storage.sig` a chunk request reads. -/
def signatureReads (index : UInt8) : List Nat :=
  chunkReads index.toNat (if index < 17 then signatureChunkSize else signatureLastChunkSize)
    signatureChunkSize

/-- A request for a chunk of the signature is granted. -/
def Sendable (s : State) : Prop :=
  s.ctx.reqType = .confirmTransaction ∧ s.ctx.state = .approved ∧ s.nvm.isSendingSignature ≠ 0

/-- The state behind a chunk: the last one ends the session. -/
def afterChunk (index : UInt8) (s : State) : State :=
  if index = 17 then { s with ctx := .zero, nvm := { s.nvm with isSendingSignature := 0 } } else s

theorem signTxSignature_cases {p2 : UInt8} (h0 : p2 ≠ 0) (s : State) :
    (¬Sendable s ∧ signTxSignature p2 s = (s, [.sendSw swBadState])) ∨
      (Sendable s ∧ signTxSignature p2 s = (afterChunk p2 s,
        [.sendResponse (.signature (signatureReads p2) .confirmTransaction .approved)
          (readAll s.nvm.sig.toList (signatureReads p2))])) := by
  unfold signTxSignature
  by_cases hty : s.ctx.reqType = .confirmTransaction
  swap
  · exact .inl ⟨fun h => hty h.1, by rw [if_pos hty]; rfl⟩
  by_cases hst : s.ctx.state = .approved
  swap
  · exact .inl ⟨fun h => hst h.2.1, by rw [if_neg (by simp [hty]), if_pos hst]; rfl⟩
  rw [if_neg (by simp [hty]), if_neg (by simp [hst])]
  by_cases hfl : s.nvm.isSendingSignature = 0
  · exact .inl ⟨fun h => h.2.2 hfl, by rw [if_neg (by simp [hfl])]; rfl⟩
  rw [if_pos hfl]
  refine .inr ⟨⟨hty, hst, hfl⟩, ?_⟩
  unfold helperSendResponseSig afterChunk
  rw [if_neg h0]
  by_cases h17 : p2 = 17
  · rw [if_pos h17, if_pos h17, hty, hst]
    rfl
  · rw [if_neg h17, if_neg h17, hty, hst]
    rfl

/-- The index of a chunk of the signature. -/
theorem signRequest_signature {cdata : List UInt8} {p1 p2 q : UInt8}
    (h : signRequest cdata p1 p2 = .signature q) : q ≠ 0 ∧ q.toNat ≤ 17 := by
  unfold signRequest at h
  split_ifs at h with h0 h1 h2 h3
  obtain ⟨-, hlow, hhigh⟩ := h3
  cases h
  rw [gt_iff_lt, UInt8.lt_iff_toNat_lt] at hlow
  rw [UInt8.lt_iff_toNat_lt] at hhigh
  change p2.toNat < 18 at hhigh
  refine ⟨?_, by omega⟩
  intro hzero
  rw [hzero] at hlow
  exact absurd hlow (by decide)

theorem index_of_request {e : Event} {q : UInt8} (h : Event.request e = some (.signature q)) :
    q ≠ 0 ∧ q.toNat ≤ 17 := by
  obtain ⟨cmd, o, rfl, hcmd⟩ := command_of_request h id
  rcases requestOf_cases cmd with hfixed | ⟨-, -, -, hkey⟩ | ⟨-, -, hsign⟩
  · rw [hcmd] at hfixed
    exact hfixed.elim
  · rw [hcmd] at hkey
    cases hkey
  · exact signRequest_signature (hsign.symm.trans hcmd)

/-- A request for a chunk of the signature. -/
theorem step_signature {sdk : Sdk} {s : State} {e : Event} {p2 : UInt8}
    (hq : Event.request e = some (.signature p2)) :
    (p2 ≠ 0 ∧ p2.toNat ≤ 17) ∧
      ((¬Sendable s ∧ step sdk s e = (s, [.sendSw swBadState])) ∨
        (Sendable s ∧ step sdk s e = (afterChunk p2 s,
          [.sendResponse (.signature (signatureReads p2) .confirmTransaction .approved)
            (readAll s.nvm.sig.toList (signatureReads p2))]))) := by
  obtain ⟨o, ho⟩ := outcome_of_request hq
  have hp2 : p2 ≠ 0 ∧ p2.toNat ≤ 17 := index_of_request hq
  rw [step_request hq ho]
  exact ⟨hp2, signTxSignature_cases hp2.1 s⟩

/-! ## The walk through a call -/

/-- The parameter `reviewChoice` goes on with. -/
def nextIndex (s : State) : UInt8 :=
  if s.currentScreen = .selectorConfirmation then 0 else s.paramIndex + 1

/-- The walk has gone on. The page that was confirmed is still on screen. -/
def confirmed (s : State) : State :=
  { s with currentScreen := .parameterConfirmation, paramIndex := nextIndex s }

/-- A confirmation shows the next parameter or, behind the last, calls for the
review of the transaction. -/
theorem reviewChoice_confirm (sdk : Sdk) (o : Outcome) (s : State) : reviewChoice sdk o true s =
    if nextIndex s < s.paramCount then buildScreen sdk .parameterConfirmation (confirmed s)
    else uiDisplayBlindSignedTransaction sdk o (confirmed s) := by
  obtain ⟨ctx, nvm, cur, index, count, screen⟩ := s
  cases cur with
  | selectorConfirmation => rfl
  | parameterConfirmation => rfl

/-! ## Every step -/

/-- What a step can do. -/
inductive Did (sdk : Sdk) (s : State) : Event → Result → Prop
  | fixed {e : Event} {q : Request} (eff : Effect) : Event.request e = some q → q.IsFixed →
      Effect.isPlain eff = true → (∀ p n, eff ≠ .derive p n) →
      (∀ sw, q = .refused sw → eff = .sendSw sw) → Did sdk s e (s, [eff])
  | refusedChunk {e : Event} {cdata : List UInt8} (sw : UInt16) :
      (Event.request e = some (.more cdata) ∨ Event.request e = some (.last cdata)) →
      ¬ChunkFits s.ctx cdata → sw ≠ swOk → Did sdk s e (s, [.sendSw sw])
  | appended {e : Event} {cdata : List UInt8} (rawTx : RawTx) :
      Event.request e = some (.more cdata) → ChunkFits s.ctx cdata →
      rawTx.bytes = s.ctx.txInfo.rawTx.bytes ++ cdata →
      Did sdk s e (s.setRawTx rawTx, [.sendSw swOk])
  | parsed {e : Event} {cdata : List UInt8} {r : Result} (o : Outcome) (rawTx : RawTx) :
      Event.request e = some (.last cdata) → Event.outcome e = some o → ChunkFits s.ctx cdata →
      rawTx.bytes = s.ctx.txInfo.rawTx.bytes ++ cdata →
      Parsed sdk o ((s.setRawTx rawTx).setState .parsed) r → Did sdk s e r
  | opened {e : Event} {cdata : List UInt8} (p : Path) (n : UInt8) (sw : UInt16) :
      Event.request e = some (.first cdata) →
      (pathAccepted sdk cdata = true ∧ isValidZondBip32Path p n = true ∧ sw = swOk ∨
        pathAccepted sdk cdata = false ∧ sw = swWrongDataLength) →
      Did sdk s e (opened p n s, [.sendSw sw])
  | noSignature {e : Event} {p2 : UInt8} : Event.request e = some (.signature p2) → ¬Sendable s →
      Did sdk s e (s, [.sendSw swBadState])
  | chunkSent {e : Event} {p2 : UInt8} : Event.request e = some (.signature p2) → p2 ≠ 0 →
      p2.toNat ≤ 17 → Sendable s → Did sdk s e (afterChunk p2 s,
        [.sendResponse (.signature (signatureReads p2) .confirmTransaction .approved)
          (readAll s.nvm.sig.toList (signatureReads p2))])
  | keyServed {e : Event} {cdata : List UInt8} {display : Bool} {r : Result} :
      Event.request e = some (.publicKey cdata display) → KeyServed s r → Did sdk s e r
  | denied (o : Outcome) : s.screen.isReview = true →
      Did sdk s (.answer false o) ({ s with ctx := .zero, screen := .home }, [.sendSw swDeny])
  | walked {pair : Pair} (o : Outcome) (next : Pair) : s.screen = .confirm pair →
      nextIndex s < s.paramCount →
      Did sdk s (.answer true o) ({ confirmed s with screen := .confirm next },
        [.draw (.confirm next)])
  | walkEnded {pair : Pair} {r : Result} (o : Outcome) : s.screen = .confirm pair →
      ¬nextIndex s < s.paramCount → Displayed sdk o true (confirmed s) r →
      Did sdk s (.answer true o) r
  | signed {pairs : List Pair} {blind : Bool} (o : Outcome) : s.screen = .transaction pairs blind →
      SignOk o.sign →
      Did sdk s (.answer true o) (signedState o.sign.sig s, signedEffects sdk o.sign.sig s)
  | unsigned {pairs : List Pair} {blind : Bool} (o : Outcome) (sig : Signature)
      (effects : List Effect) : s.screen = .transaction pairs blind → ¬SignOk o.sign →
      SignUses sdk o.sign s effects → Did sdk s (.answer true o)
        ({ s with
            ctx := { s.ctx with state := .none }
            nvm := { s.nvm with sig := sig }
            screen := .home },
          effects ++ [.sendSw swSignatureFail])
  | addressApproved {text : List Char} (o : Outcome) : s.screen = .address text →
      Did sdk s (.answer true o)
        ({ s with ctx := { s.ctx with state := .approved }, screen := .home },
          [.sendResponse .address (zondAddressPrefix :: s.ctx.address.toList)])
  | dismissed (confirm : Bool) (o : Outcome) : s.screen.isReview = false →
      Did sdk s (.answer confirm o) ({ s with screen := .home }, [])
  | toggled (sw : Switch) : Did sdk s (.toggle sw) ({ s with nvm := controlsCallback sw s.nvm }, [])
  | restarted : Did sdk s .restart (startUp s.nvm, [])

theorem reviewChoice_did {sdk : Sdk} {s : State} {pair : Pair} (o : Outcome)
    (hs : s.screen = .confirm pair) : Did sdk s (.answer true o) (reviewChoice sdk o true s) := by
  rw [reviewChoice_confirm]
  split
  · rename_i hlt
    exact .walked o _ hs hlt
  · rename_i hlast
    exact .walkEnded o hs hlast (uiDisplayTransactionBsChoice_displayed sdk o true _)

/-- **Every step** is one of those. -/
theorem step_did (sdk : Sdk) (s : State) (e : Event) : Did sdk s e (step sdk s e) := by
  cases hq : Event.request e with
  | some q =>
    obtain ⟨o, ho⟩ := outcome_of_request hq
    rw [step_request hq ho]
    cases q with
    | refused sw => exact .fixed (.sendSw sw) hq trivial rfl (by simp) (by simp)
    | version => exact .fixed _ hq trivial rfl (by simp) (by simp)
    | appName => exact .fixed _ hq trivial rfl (by simp) (by simp)
    | publicKeyChunk index =>
      simp only [serve, helperSendResponsePkChunk]
      split
      · exact .fixed _ hq trivial rfl (by simp) (by simp)
      · exact .fixed _ hq trivial rfl (by simp) (by simp)
    | publicKey cdata display =>
      exact .keyServed hq (handlerGetPublicKey_served sdk o cdata display s)
    | first cdata =>
      obtain ⟨p, n, hst, hcase⟩ := signTxFirst_cases sdk cdata s
      have hres : serve sdk o s (.first cdata) =
          (opened p n s, (signTxFirst sdk cdata s).2) := by rw [← hst]; rfl
      rw [hres]
      rcases hcase with ⟨hacc, hv, hout⟩ | ⟨hacc, hout⟩
      · rw [hout]
        exact .opened p n _ hq (.inl ⟨hacc, hv, rfl⟩)
      · rw [hout]
        exact .opened p n _ hq (.inr ⟨hacc, rfl⟩)
    | more cdata =>
      simp only [serve, signTxMore]
      rcases appendChunk_cases sdk cdata s.ctx with ⟨hfit, rawTx, happ, hbytes⟩ |
        ⟨hno, sw, hsw, happ⟩
      · rw [happ]
        exact .appended rawTx hq hfit hbytes
      · rw [happ]
        exact .refusedChunk sw (.inl hq) hno hsw
    | last cdata =>
      simp only [serve, signTxLast]
      rcases appendChunk_cases sdk cdata s.ctx with ⟨hfit, rawTx, happ, hbytes⟩ |
        ⟨hno, sw, hsw, happ⟩
      · rw [happ]
        exact .parsed o rawTx hq ho hfit hbytes (signTxParse_parsed sdk o _)
      · rw [happ]
        exact .refusedChunk sw (.inr hq) hno hsw
    | signature p2 =>
      obtain ⟨hp2, hcase⟩ := @step_signature sdk s _ _ hq
      rw [step_request hq ho] at hcase
      rcases hcase with ⟨hno, hout⟩ | ⟨hsend, hout⟩
      · rw [hout]
        exact .noSignature hq hno
      · rw [hout]
        exact .chunkSent hq hp2.1 hp2.2 hsend
  | none =>
    rcases noRequest_cases hq with ⟨confirm, o, rfl⟩ | ⟨sw, rfl⟩ | rfl
    · simp only [step, onAnswer]
      cases hs : s.screen with
      | home =>
        have hsame : { s with screen := .home } = s := by rw [← hs]
        have hdid : Did sdk s (.answer confirm o) _ := .dismissed confirm o (by rw [hs]; rfl)
        rwa [hsame] at hdid
      | blindSigningError => exact .dismissed confirm o (by rw [hs]; rfl)
      | confirm pair =>
        cases confirm with
        | false => exact .denied o (by rw [hs]; rfl)
        | true => exact reviewChoice_did o hs
      | transaction pairs blind =>
        cases confirm with
        | false => exact .denied o (by rw [hs]; rfl)
        | true =>
          rcases transactionChoice_cases sdk o s with ⟨hok, hout⟩ | ⟨hno, sig, effects, huse, hout⟩
          · simp only [hout]
            exact .signed o hs hok
          · simp only [hout]
            exact .unsigned o sig effects hs hno huse
      | address text =>
        cases confirm with
        | false => exact .denied o (by rw [hs]; rfl)
        | true => exact .addressApproved o hs
    · exact .toggled sw
    · exact .restarted

/-! ## Where signatures are made and sent -/

theorem Effect.signs_of_isPlain {eff : Effect} (h : Effect.isPlain eff = true) :
    Effect.signs eff = false := by
  cases eff with
  | sendResponse source data => cases source <;> first | rfl | cases h
  | _ => first | rfl | cases h

variable {sdk : Sdk} {s : State} {e : Event} {r : Result} {o : Outcome}

theorem KeyServed.quiet (h : KeyServed s r) : ∀ eff ∈ r.2, Effect.signs eff = false := by
  cases h with
  | answered ctx pk effects _ hplain =>
    exact fun eff heff => Effect.signs_of_isPlain (hplain eff heff)
  | shown ctx pk text _ => simp [Effect.signs]

/-- The steps that make or send a signature. -/
inductive Signing (sdk : Sdk) (s : State) : Event → Result → Prop
  | chunkSent {e : Event} {p2 : UInt8} : Event.request e = some (.signature p2) → p2 ≠ 0 →
      p2.toNat ≤ 17 → Sendable s → Signing sdk s e (afterChunk p2 s,
        [.sendResponse (.signature (signatureReads p2) .confirmTransaction .approved)
          (readAll s.nvm.sig.toList (signatureReads p2))])
  | signed {pairs : List Pair} {blind : Bool} (o : Outcome) : s.screen = .transaction pairs blind →
      SignOk o.sign →
      Signing sdk s (.answer true o) (signedState o.sign.sig s, signedEffects sdk o.sign.sig s)
  | unsigned {pairs : List Pair} {blind : Bool} (o : Outcome) (s' : State) (effects : List Effect) :
      s.screen = .transaction pairs blind → SignUses sdk o.sign s effects →
      Signing sdk s (.answer true o) (s', effects ++ [.sendSw swSignatureFail])

theorem Did.signing (h : Did sdk s e r) {eff : Effect} (heff : eff ∈ r.2)
    (hs : Effect.signs eff = true) : Signing sdk s e r := by
  have hquiet : (∀ eff ∈ r.2, Effect.signs eff = false) → Signing sdk s e r := by
    intro hq
    rw [hq eff heff] at hs
    cases hs
  cases h with
  | fixed eff' _ _ hplain _ _ => exact hquiet (by simp [Effect.signs_of_isPlain hplain])
  | refusedChunk sw _ _ _ => exact hquiet (by simp [Effect.signs])
  | appended rawTx _ _ _ => exact hquiet (by simp [Effect.signs])
  | parsed o rawTx _ _ _ _ hp => exact hquiet hp.settled.quiet
  | opened p n sw _ _ => exact hquiet (by simp [Effect.signs])
  | noSignature _ _ => exact hquiet (by simp [Effect.signs])
  | chunkSent hq h0 h17 hsend => exact .chunkSent hq h0 h17 hsend
  | keyServed _ hk => exact hquiet hk.quiet
  | denied o _ => exact hquiet (by simp [Effect.signs])
  | walked o next _ _ => exact hquiet (by simp [Effect.signs])
  | walkEnded o _ _ hd => exact hquiet hd.quiet
  | signed o hscr hok => exact .signed o hscr hok
  | unsigned o sig effects hscr _ huse => exact .unsigned o _ effects hscr huse
  | addressApproved o _ => exact hquiet (by simp [Effect.signs])
  | dismissed confirm o _ => exact hquiet (by simp)
  | toggled sw => exact hquiet (by simp)
  | restarted => exact hquiet (by simp)

/-- Every signature call signs the hash of the context with the key of its
path, on the approval of a transaction. -/
theorem Did.sign_mem (h : Did sdk s e r) {msg : Bytes 32} {c : List UInt8} {sk : SecretKey}
    (hmem : Effect.sign msg c sk ∈ r.2) :
    (∃ o pairs blind, e = .answer true o ∧ s.screen = .transaction pairs blind ∧
        o.sign.derive = cxOk ∧ o.sign.keygen = cxOk) ∧
      msg = s.ctx.txInfo.mHash ∧ sk = secretKey sdk s.ctx.bip32Path s.ctx.bip32PathLen := by
  cases h.signing hmem rfl with
  | chunkSent _ _ _ _ => simp at hmem
  | signed o hscr hok =>
    simp only [signedEffects, List.mem_cons, reduceCtorEq, Effect.sign.injEq, List.not_mem_nil,
      false_or, or_false] at hmem
    exact ⟨⟨o, _, _, rfl, hscr, hok.1, hok.2.1⟩, hmem.1, hmem.2.2⟩
  | unsigned o s' effects hscr huse =>
    simp only [List.mem_append, List.mem_singleton, reduceCtorEq, or_false] at hmem
    rcases huse _ hmem with h | ⟨hok, h⟩ | ⟨sig, h⟩
    · cases h
    · simp only [Effect.sign.injEq] at h
      exact ⟨⟨o, _, _, rfl, hscr, hok⟩, h.1, h.2.2⟩
    · cases h

/-! ## Where keys are derived and reviews are shown -/

/-- The steps with a keyed effect: a chunk that is taken in, an approval, and
`GET_PUBLIC_KEY`. -/
inductive Keyed (s : State) : Event → Prop
  | chunk {e : Event} {cdata : List UInt8} : Event.request e = some (.last cdata) →
      ChunkFits s.ctx cdata → Keyed s e
  | confirm {pair : Pair} (o : Outcome) : s.screen = .confirm pair → Keyed s (.answer true o)
  | approve {pairs : List Pair} {blind : Bool} (o : Outcome) :
      s.screen = .transaction pairs blind → Keyed s (.answer true o)
  | publicKey {e : Event} {cdata : List UInt8} {display : Bool} :
      Event.request e = some (.publicKey cdata display) → Keyed s e

theorem Did.keyed (h : Did sdk s e r) {eff : Effect} (heff : eff ∈ r.2)
    (hk : Effect.isKeyed eff = true) :
    Keyed s e ∧
      (OnPath s.ctx r.2 ∨ ∃ cdata display, Event.request e = some (.publicKey cdata display)) := by
  have hnot : ∀ sw, eff ≠ .sendSw sw := by
    rintro sw rfl
    cases hk
  cases h with
  | fixed eff' _ _ hplain hderive _ =>
    rw [List.mem_singleton.mp heff] at hk
    cases eff' with
    | derive p n => exact absurd rfl (hderive p n)
    | draw screen => cases hplain
    | _ => cases hk
  | refusedChunk sw _ _ _ => exact absurd (List.mem_singleton.mp heff) (hnot _)
  | appended rawTx _ _ _ => exact absurd (List.mem_singleton.mp heff) (hnot _)
  | parsed o rawTx hq _ hfit _ hp => exact ⟨.chunk hq hfit, .inl hp.settled.onPath⟩
  | opened p n sw _ _ => exact absurd (List.mem_singleton.mp heff) (hnot _)
  | noSignature _ _ => exact absurd (List.mem_singleton.mp heff) (hnot _)
  | chunkSent _ _ _ _ =>
    rw [List.mem_singleton.mp heff] at hk
    cases hk
  | keyServed hq _ => exact ⟨.publicKey hq, .inr ⟨_, _, hq⟩⟩
  | denied o _ => exact absurd (List.mem_singleton.mp heff) (hnot _)
  | walked o next hs _ => exact ⟨.confirm o hs, .inl (fun p n h => by simp at h)⟩
  | walkEnded o hs _ hd => exact ⟨.confirm o hs, .inl hd.onPath⟩
  | signed o hs _ => exact ⟨.approve o hs, .inl (fun p n h => by simpa [signedEffects] using h)⟩
  | unsigned o sig effects hs _ huse =>
    refine ⟨.approve o hs, .inl ?_⟩
    intro p n h
    simp only [List.mem_append, List.mem_singleton, reduceCtorEq, or_false] at h
    rcases huse _ h with h | ⟨-, h⟩ | ⟨sig, h⟩
    · simpa using h
    · cases h
    · cases h
  | addressApproved o _ =>
    rw [List.mem_singleton.mp heff] at hk
    cases hk
  | dismissed confirm o _ => simp at heff
  | toggled sw => simp at heff
  | restarted => simp at heff

end LedgerZond.Steps
