import LedgerZond.Steps

/-! # A new session and what came before it

Two states are alike when what they can still let out is the same. A new
session makes any two states alike whose settings are equal: what it leaves
behind of the key, of the flag that a signature is being sent and of the
counters is written again before it is read. -/
namespace LedgerZond.Independence
open LedgerZond.CTypes LedgerZond.Types LedgerZond.Platform LedgerZond.AppState
open LedgerZond.Address LedgerZond.Review LedgerZond.App LedgerZond.Requests

/-! ## States that are alike -/

structure SameSettings (a b : InternalStorage) : Prop where
  enableBlindSigning : a.enableBlindSigning = b.enableBlindSigning
  displayNonce : a.displayNonce = b.displayNonce
  displayTxHash : a.displayTxHash = b.displayTxHash
  enableDebugSmartContract : a.enableDebugSmartContract = b.enableDebugSmartContract

/-- The review on screen. -/
def reviewOn (s : State) : Option Screen := if s.screen.isReview then some s.screen else none

/-- What two states share that let out the same from here on. The counters are
read behind a selector or a parameter, the key behind a transaction, and the
flag behind a signature. -/
structure Alike (a b : State) : Prop where
  ctx : a.ctx = b.ctx
  settings : SameSettings a.nvm b.nvm
  sig : a.nvm.sig = b.nvm.sig
  review : reviewOn a = reviewOn b
  walk : ∀ pair, a.screen = .confirm pair →
    a.currentScreen = b.currentScreen ∧ a.paramIndex = b.paramIndex ∧ a.paramCount = b.paramCount
  pk : ∀ pairs blind, a.screen = .transaction pairs blind → a.nvm.pk = b.nvm.pk
  sending : a.ctx.reqType = .confirmTransaction → a.ctx.state = .approved →
    a.nvm.isSendingSignature = b.nvm.isSendingSignature

/-- The same is let out, and what is left is alike. -/
def SameResult (r t : Result) : Prop := r.2 = t.2 ∧ Alike r.1 t.1

variable {sdk : Sdk} {a b : State} {r t : Result} {o : Outcome}

theorem Alike.screen_eq (h : Alike a b) (hscr : a.screen.isReview = true) :
    b.screen = a.screen := by
  have hreview := h.review
  rw [reviewOn, if_pos hscr, reviewOn] at hreview
  split at hreview
  · exact (Option.some.inj hreview).symm
  · cases hreview

theorem Alike.isReview (h : Alike a b) : b.screen.isReview = a.screen.isReview := by
  cases hscr : a.screen.isReview with
  | true => rw [h.screen_eq hscr, hscr]
  | false =>
    have hreview := h.review
    rw [reviewOn, if_neg (by simp [hscr]), reviewOn] at hreview
    split at hreview
    · cases hreview
    · simpa using ‹¬b.screen.isReview = true›

/-! ## Changes that keep states alike -/

/-- A change of the context that does not approve it. -/
theorem Alike.withCtx (h : Alike a b) {c d : GlobalCtx} (hcd : c = d)
    (happ : c.reqType = .confirmTransaction → c.state = .approved →
      a.ctx.reqType = .confirmTransaction ∧ a.ctx.state = .approved) :
    Alike { a with ctx := c } { b with ctx := d } where
  ctx := hcd
  settings := h.settings
  sig := h.sig
  review := h.review
  walk := h.walk
  pk := h.pk
  sending hty hst := h.sending (happ hty hst).1 (happ hty hst).2

/-- A screen without a review. -/
theorem Alike.withScreen (h : Alike a b) {screen : Screen} (hscr : screen.isReview = false) :
    Alike { a with screen := screen } { b with screen := screen } where
  ctx := h.ctx
  settings := h.settings
  sig := h.sig
  review := rfl
  walk pair hs := by
    rw [show screen = .confirm pair from hs] at hscr
    cases hscr
  pk pairs blind hs := by
    rw [show screen = .transaction pairs blind from hs] at hscr
    cases hscr
  sending := h.sending

/-- Keys that agree where the stored ones do. -/
theorem Alike.withPk (h : Alike a b) {x y : PublicKey} (hxy : a.nvm.pk = b.nvm.pk → x = y) :
    Alike { a with nvm := { a.nvm with pk := x } } { b with nvm := { b.nvm with pk := y } } where
  ctx := h.ctx
  settings := ⟨h.settings.1, h.settings.2, h.settings.3, h.settings.4⟩
  sig := h.sig
  review := h.review
  walk := h.walk
  pk pairs blind hs := hxy (h.pk pairs blind hs)
  sending := h.sending

/-- The flag, written with any context. -/
theorem Alike.withSending (h : Alike a b) {c d : GlobalCtx} (hcd : c = d) (flag : UInt8) :
    Alike { a with ctx := c, nvm := { a.nvm with isSendingSignature := flag } }
      { b with ctx := d, nvm := { b.nvm with isSendingSignature := flag } } :=
  ⟨hcd, ⟨h.settings.1, h.settings.2, h.settings.3, h.settings.4⟩, h.sig, h.review, h.walk, h.pk,
    fun _ _ => rfl⟩

theorem Alike.sendSw (h : Alike a b) (sw : UInt16) : SameResult (ioSendSw sw a) (ioSendSw sw b) :=
  ⟨rfl, h⟩

theorem SameResult.after (h : SameResult r t) (before : List Effect) :
    SameResult (r.after before) (t.after before) :=
  ⟨congrArg (before ++ ·) h.1, h.2⟩

/-- A screen that is drawn, with what is read behind it. -/
theorem Alike.draw (h : Alike a b) {screen screen' : Screen} (hscr : screen = screen')
    (hwalk : ∀ pair, screen = .confirm pair →
      a.currentScreen = b.currentScreen ∧ a.paramIndex = b.paramIndex ∧ a.paramCount = b.paramCount)
    (hpk : ∀ pairs blind, screen = .transaction pairs blind → a.nvm.pk = b.nvm.pk) :
    SameResult (nbglUseCase screen a) (nbglUseCase screen' b) := by
  subst hscr
  exact ⟨rfl, ⟨h.ctx, h.settings, h.sig, rfl, hwalk, hpk, h.sending⟩⟩

/-! ## The reviews -/

/-- The key that was stored matters for nothing but where none is made. -/
theorem addressFromBip32Path_congr (sdk : Sdk) (o : AddressOutcome) (p : Path) (n : UInt8)
    (x y : PublicKey) (address : Bytes addressSize) :
    (addressFromBip32Path sdk o p n x address).1 = (addressFromBip32Path sdk o p n y address).1 ∧
      (addressFromBip32Path sdk o p n x address).2.2 =
        (addressFromBip32Path sdk o p n y address).2.2 ∧
      ((addressFromBip32Path sdk o p n x address).1 = cxOk →
        (addressFromBip32Path sdk o p n x address).2.1 =
          (addressFromBip32Path sdk o p n y address).2.1) := by
  unfold addressFromBip32Path
  by_cases hd : o.derive = cxOk
  swap
  · rw [if_pos hd, if_pos hd]
    exact ⟨rfl, rfl, fun h => absurd h hd⟩
  by_cases hk : o.keygen = cxOk
  swap
  · rw [if_neg (not_not.mpr hd), if_neg (not_not.mpr hd), if_pos hk, if_pos hk]
    exact ⟨rfl, rfl, fun h => absurd h Displays.cxFail_ne⟩
  rw [if_neg (not_not.mpr hd), if_neg (not_not.mpr hd), if_neg (not_not.mpr hk),
    if_neg (not_not.mpr hk)]
  cases o.hash <;> exact ⟨rfl, rfl, fun _ => rfl⟩

theorem reviewPairs_congr {x y : InternalStorage} (h : SameSettings x y) (tx : ZondTx)
    (mHash : Bytes 32) (fromText toText : List Char) :
    reviewPairs sdk x tx mHash fromText toText = reviewPairs sdk y tx mHash fromText toText := by
  simp only [reviewPairs, h.displayNonce, h.displayTxHash]

theorem uiDisplayTransactionBsChoice_alike (h : Alike a b) (blind : Bool) :
    SameResult (uiDisplayTransactionBsChoice sdk o blind a)
      (uiDisplayTransactionBsChoice sdk o blind b) := by
  obtain ⟨herr, haddr, hpk⟩ := addressFromBip32Path_congr sdk o.address a.ctx.bip32Path
    a.ctx.bip32PathLen a.nvm.pk b.nvm.pk a.ctx.address
  have hkept : a.nvm.pk = b.nvm.pk →
      (addressFromBip32Path sdk o.address a.ctx.bip32Path a.ctx.bip32PathLen a.nvm.pk
        a.ctx.address).2.1 =
      (addressFromBip32Path sdk o.address a.ctx.bip32Path a.ctx.bip32PathLen b.nvm.pk
        a.ctx.address).2.1 := fun hsame => by rw [hsame]
  unfold uiDisplayTransactionBsChoice
  rw [← h.ctx]
  split
  · refine Alike.sendSw ?_ _
    rw [State.setState, State.setState, ← h.ctx]
    exact h.withCtx rfl fun _ hst => by cases hst
  generalize addressFromBip32Path sdk o.address a.ctx.bip32Path a.ctx.bip32PathLen a.nvm.pk
    a.ctx.address = ra at *
  generalize addressFromBip32Path sdk o.address a.ctx.bip32Path a.ctx.bip32PathLen b.nvm.pk
    a.ctx.address = rb at *
  obtain ⟨error, pkA, address⟩ := ra
  obtain ⟨errorB, pkB, addressB⟩ := rb
  simp only at herr haddr hpk hkept
  subst herr haddr
  have hkeyed : Alike
      { a with nvm := { a.nvm with pk := pkA }, ctx := { a.ctx with address := address } }
      { b with nvm := { b.nvm with pk := pkB }, ctx := { a.ctx with address := address } } :=
    (h.withPk hkept).withCtx rfl fun hty hst => ⟨hty, hst⟩
  refine SameResult.after ?_ _
  by_cases hok : error = cxOk
  swap
  · rw [if_pos hok, if_pos hok]
    exact hkeyed.sendSw _
  rw [if_neg (not_not.mpr hok), if_neg (not_not.mpr hok)]
  split
  · exact hkeyed.sendSw _
  dsimp only
  split
  · exact hkeyed.sendSw _
  · refine hkeyed.draw ?_ (fun pair hs => by cases hs) fun _ _ _ => hpk hok
    rw [reviewPairs_congr hkeyed.settings]

theorem buildScreen_alike (h : Alike a b) (confirmType : ConfirmationType)
    (hscreen : a.currentScreen = b.currentScreen) (hindex : a.paramIndex = b.paramIndex)
    (hcount : a.paramCount = b.paramCount) :
    SameResult (buildScreen sdk confirmType a) (buildScreen sdk confirmType b) := by
  unfold buildScreen
  rw [← h.ctx, ← hindex, ← hcount]
  cases confirmType with
  | parameterConfirmation =>
    exact h.draw rfl (fun _ _ => ⟨hscreen, hindex, hcount⟩) fun _ _ hs => by cases hs
  | selectorConfirmation =>
    exact h.draw rfl (fun _ _ => ⟨hscreen, hindex, hcount⟩) fun _ _ hs => by cases hs

/-- The counters of a walk through the parameters, set alike. -/
theorem Alike.withWalk (h : Alike a b) (current : ConfirmationType) (index count : UInt8) :
    Alike { a with currentScreen := current, paramIndex := index, paramCount := count }
      { b with currentScreen := current, paramIndex := index, paramCount := count } :=
  ⟨h.ctx, h.settings, h.sig, h.review, fun _ _ => ⟨rfl, rfl, rfl⟩, h.pk, h.sending⟩

theorem signTxReview_alike (h : Alike a b) :
    SameResult (signTxReview sdk o a) (signTxReview sdk o b) := by
  unfold signTxReview
  rw [← h.ctx, ← h.settings.enableBlindSigning, ← h.settings.enableDebugSmartContract]
  by_cases hrefuse : a.ctx.txInfo.txData.dataLen ≠ 0 ∧ a.nvm.enableBlindSigning = 0
  · rw [if_pos hrefuse, if_pos hrefuse]
    exact ⟨rfl, h.withScreen rfl⟩
  rw [if_neg hrefuse, if_neg hrefuse]
  split
  · rcases abiCalldataParse (a.ctx.txInfo.txData.data.toList.take
      a.ctx.txInfo.txData.dataLen.toNat) with ⟨parsed, calldata⟩
    dsimp only
    have hcalled : Alike
        { a with ctx := { a.ctx with txInfo := { a.ctx.txInfo with calldata := calldata } } }
        { b with ctx := { a.ctx with txInfo := { a.ctx.txInfo with calldata := calldata } } } :=
      h.withCtx rfl fun hty hst => ⟨hty, hst⟩
    split
    · exact buildScreen_alike (hcalled.withWalk _ _ _) _ rfl rfl rfl
    · exact uiDisplayTransactionBsChoice_alike hcalled false
  split
  · exact uiDisplayTransactionBsChoice_alike h true
  · exact uiDisplayTransactionBsChoice_alike h false

/-! ## The requests -/

theorem signTxParse_alike (h : Alike a b) :
    SameResult (signTxParse sdk o a) (signTxParse sdk o b) := by
  unfold signTxParse
  rw [← h.ctx]
  dsimp only
  cases o.keccak with
  | failed left =>
    refine Alike.sendSw ?_ _
    exact h.withCtx rfl fun hty hst => ⟨hty, hst⟩
  | ok =>
    rcases decodeRawTx a.ctx.txInfo.rawTx a.ctx.txInfo.txData with ⟨err, txData⟩
    have hdecoded : Alike (Displays.decoded sdk txData a) (Displays.decoded sdk txData b) := by
      rw [Displays.decoded, Displays.decoded, ← h.ctx]
      exact h.withCtx rfl fun hty hst => ⟨hty, hst⟩
    rw [Displays.decoded, Displays.decoded, ← h.ctx] at hdecoded
    dsimp only
    split
    · exact hdecoded.sendSw _
    · exact signTxReview_alike hdecoded

theorem signTxMore_alike (h : Alike a b) (cdata : List UInt8) :
    SameResult (signTxMore sdk cdata a) (signTxMore sdk cdata b) := by
  unfold signTxMore
  rw [← h.ctx]
  split
  · exact h.sendSw _
  · refine Alike.sendSw ?_ _
    rw [State.setRawTx, State.setRawTx, ← h.ctx]
    exact h.withCtx rfl fun hty hst => ⟨hty, hst⟩

theorem signTxLast_alike (h : Alike a b) (cdata : List UInt8) :
    SameResult (signTxLast sdk o cdata a) (signTxLast sdk o cdata b) := by
  unfold signTxLast
  rw [← h.ctx]
  split
  · exact h.sendSw _
  · refine signTxParse_alike ?_
    simp only [State.setRawTx, State.setState, ← h.ctx]
    exact h.withCtx rfl fun _ hst => by cases hst

theorem helperSendResponseSig_alike (h : Alike a b) (index : UInt8) :
    SameResult (helperSendResponseSig index a) (helperSendResponseSig index b) := by
  unfold helperSendResponseSig
  rw [← h.ctx, ← h.sig]
  dsimp only
  by_cases h0 : index = 0
  · rw [if_pos h0, if_pos h0]
    exact ⟨rfl, h.withSending rfl 1⟩
  rw [if_neg h0, if_neg h0]
  by_cases h17 : index = 17
  · rw [if_pos h17, if_pos h17]
    exact ⟨rfl, h.withSending rfl 0⟩
  · rw [if_neg h17, if_neg h17]
    exact ⟨rfl, h⟩

theorem signTxSignature_alike (h : Alike a b) (p2 : UInt8) :
    SameResult (signTxSignature p2 a) (signTxSignature p2 b) := by
  unfold signTxSignature
  rw [← h.ctx]
  by_cases hty : a.ctx.reqType = .confirmTransaction
  swap
  · rw [if_pos hty, if_pos hty]
    exact h.sendSw _
  by_cases hst : a.ctx.state = .approved
  swap
  · rw [if_neg (not_not.mpr hty), if_neg (not_not.mpr hty), if_pos hst, if_pos hst]
    exact h.sendSw _
  rw [if_neg (not_not.mpr hty), if_neg (not_not.mpr hty), if_neg (not_not.mpr hst),
    if_neg (not_not.mpr hst), ← h.sending hty hst]
  split
  · exact helperSendResponseSig_alike h p2
  · exact h.sendSw _

/-- A new session leaves the same context whatever the state was. -/
theorem signTxFirst_eq (sdk : Sdk) (cdata : List UInt8) :
    ∃ p n sw, ∀ s, signTxFirst sdk cdata s = (opened p n s, [.sendSw sw]) := by
  unfold signTxFirst
  cases sdk.bufferReadU8 ⟨cdata, 0⟩ with
  | none => exact ⟨_, _, swWrongDataLength, fun s => rfl⟩
  | some r =>
    obtain ⟨n, buffer⟩ := r
    rcases hr : sdk.bufferReadBip32Path buffer GlobalCtx.zero.bip32Path n.toNat with ⟨read, p, rest⟩
    simp only [hr]
    cases read with
    | false => exact ⟨p, n, swWrongDataLength, fun s => rfl⟩
    | true =>
      cases isValidZondBip32Path p n with
      | false => exact ⟨p, n, swWrongDataLength, fun s => rfl⟩
      | true => exact ⟨p, n, swOk, fun s => rfl⟩

/-- A new session makes states alike that show the same review or none. -/
theorem opened_alike (p : Path) (n : UInt8) (hset : SameSettings a.nvm b.nvm)
    (hreview : reviewOn a = reviewOn b)
    (hwalk : ∀ pair, a.screen = .confirm pair → a.currentScreen = b.currentScreen ∧
      a.paramIndex = b.paramIndex ∧ a.paramCount = b.paramCount)
    (hpk : ∀ pairs blind, a.screen = .transaction pairs blind → a.nvm.pk = b.nvm.pk) :
    Alike (opened p n a) (opened p n b) where
  ctx := rfl
  settings := ⟨hset.1, hset.2, hset.3, hset.4⟩
  sig := rfl
  review := hreview
  walk := hwalk
  pk := hpk
  sending _ hst := by cases hst

theorem uiDisplayAddress_alike (h : Alike a b) :
    SameResult (uiDisplayAddress sdk o a) (uiDisplayAddress sdk o b) := by
  unfold uiDisplayAddress
  rw [← h.ctx]
  split
  · refine Alike.sendSw ?_ _
    rw [State.setState, State.setState, ← h.ctx]
    exact h.withCtx rfl fun _ hst => by cases hst
  split
  · exact h.sendSw _
  · exact h.draw rfl (fun _ hs => by cases hs) fun _ _ hs => by cases hs

theorem helperSendResponseAddress_alike (h : Alike a b) :
    SameResult (helperSendResponseAddress a) (helperSendResponseAddress b) := by
  unfold helperSendResponseAddress
  rw [← h.ctx]
  exact ⟨rfl, h⟩

theorem handlerGetPublicKey_alike (h : Alike a b) (cdata : List UInt8) (display : Bool) :
    SameResult (handlerGetPublicKey sdk o cdata display a)
      (handlerGetPublicKey sdk o cdata display b) := by
  have hctx : ∀ {c : GlobalCtx} (pk : PublicKey), c.reqType = .confirmAddress →
      Alike { a with ctx := c, nvm := { a.nvm with pk := pk } }
        { b with ctx := c, nvm := { b.nvm with pk := pk } } := by
    intro c pk hty
    exact (h.withPk fun _ => rfl).withCtx rfl fun hty' _ => by rw [hty] at hty'; cases hty'
  unfold handlerGetPublicKey
  cases sdk.bufferReadU8 ⟨cdata, 0⟩ with
  | none => exact (hctx _ rfl).sendSw _
  | some u8 =>
    obtain ⟨n, buffer⟩ := u8
    rcases hr : sdk.bufferReadBip32Path buffer GlobalCtx.zero.bip32Path n.toNat with ⟨read, p, rest⟩
    simp only [hr]
    split
    · exact (hctx _ rfl).sendSw _
    split
    · exact (hctx _ rfl).sendSw _
    rcases addressFromBip32Path sdk o.address p n (.zero _) GlobalCtx.zero.address with
      ⟨error, pk, address⟩
    refine SameResult.after ?_ _
    split
    · exact (hctx _ rfl).sendSw _
    split
    · exact uiDisplayAddress_alike (hctx _ rfl)
    · exact helperSendResponseAddress_alike (hctx _ rfl)

/-! ## The answers of the user -/

theorem Alike.bzero (h : Alike a b) : Alike a.bzero b.bzero :=
  h.withCtx rfl fun _ hst => by cases hst

theorem reviewChoice_alike (h : Alike a b) {pair : Pair} (hs : a.screen = .confirm pair)
    (confirm : Bool) : SameResult (reviewChoice sdk o confirm a) (reviewChoice sdk o confirm b) := by
  obtain ⟨hscreen, hindex, hcount⟩ := h.walk pair hs
  unfold reviewChoice
  dsimp only
  rw [← hscreen, ← hindex, ← hcount]
  split
  · have hhome : Alike { a with screen := .home } { b with screen := .home } := h.withScreen rfl
    exact ⟨rfl, (hhome.withWalk a.currentScreen a.paramIndex a.paramCount).bzero⟩
  split
  · have hwalk := h.withWalk .parameterConfirmation 0 a.paramCount
    split
    · exact buildScreen_alike hwalk _ rfl rfl rfl
    · exact uiDisplayTransactionBsChoice_alike hwalk true
  · have hwalk := h.withWalk a.currentScreen (a.paramIndex + 1) a.paramCount
    split
    · exact buildScreen_alike hwalk _ rfl rfl rfl
    · exact uiDisplayTransactionBsChoice_alike hwalk true

/-- A signature that is stored. -/
theorem Alike.withSig (h : Alike a b) (sig : Signature) :
    Alike { a with nvm := { a.nvm with sig := sig } } { b with nvm := { b.nvm with sig := sig } } :=
  ⟨h.ctx, ⟨h.settings.1, h.settings.2, h.settings.3, h.settings.4⟩, rfl, h.review, h.walk, h.pk,
    h.sending⟩

theorem transactionChoice_alike (h : Alike a b) {pairs : List Pair} {blind : Bool}
    (hs : a.screen = .transaction pairs blind) (confirm : Bool) :
    SameResult (transactionChoice sdk o confirm a) (transactionChoice sdk o confirm b) := by
  have hhome : Alike { a with screen := .home } { b with screen := .home } := h.withScreen rfl
  -- what a signature leaves that does not come about, before it is stored and behind that
  have hunmade : Alike { a with ctx := { a.ctx with state := .none }, screen := .home }
      { b with ctx := { a.ctx with state := .none }, screen := .home } :=
    hhome.withCtx rfl fun _ hst => by cases hst
  have hunsigned : Alike
      { a with
        ctx := { a.ctx with state := .none }
        nvm := { a.nvm with sig := o.sign.sig }
        screen := .home }
      { b with
        ctx := { a.ctx with state := .none }
        nvm := { b.nvm with sig := o.sign.sig }
        screen := .home } :=
    hunmade.withSig o.sign.sig
  unfold transactionChoice validateTransaction cryptoSignMessage
  simp only [Result.after, ioSendSw, State.setState, ← h.ctx]
  cases confirm with
  | false => exact ⟨rfl, hhome.bzero⟩
  | true =>
    simp only [if_true]
    by_cases hd : o.sign.derive = cxOk
    swap
    · simp only [if_pos hd]
      exact ⟨rfl, hunmade⟩
    by_cases hk : o.sign.keygen = cxOk
    swap
    · simp only [if_neg (not_not.mpr hd), if_pos hk]
      exact ⟨rfl, hunmade⟩
    simp only [if_neg (not_not.mpr hd), if_neg (not_not.mpr hk)]
    by_cases hsign : o.sign.sign ≠ cxOk ∨ o.sign.actualLen ≠ mldsa87SigBytes
    · simp only [if_pos hsign]
      exact ⟨rfl, hunsigned⟩
    simp only [if_neg hsign]
    cases o.sign.verify == cxOk with
    | false =>
      simp only [Bool.false_eq_true, if_false]
      exact ⟨by rw [h.pk pairs blind hs], hunsigned⟩
    | true =>
      simp only [if_true]
      refine ⟨?_, hunsigned.withSending rfl 1⟩
      rw [h.pk pairs blind hs]
      rfl

theorem addressChoice_alike (h : Alike a b) (hty : a.ctx.reqType = .confirmAddress)
    (confirm : Bool) : SameResult (addressChoice confirm a) (addressChoice confirm b) := by
  have hhome : Alike { a with screen := .home } { b with screen := .home } := h.withScreen rfl
  unfold addressChoice validatePubkey
  cases confirm with
  | false => exact ⟨rfl, hhome.bzero⟩
  | true =>
    simp only [if_true, State.setState, ← h.ctx]
    refine helperSendResponseAddress_alike (hhome.withCtx rfl ?_)
    intro htx _
    rw [show a.ctx.reqType = .confirmTransaction from htx] at hty
    cases hty

/-- An address on screen is what the context asks about. -/
def AddressAsked (s : State) : Prop :=
  ∀ text, s.screen = .address text → s.ctx.reqType = .confirmAddress

/-- An answer to no review only leads home. -/
theorem onAnswer_dismissed (sdk : Sdk) (o : Outcome) (confirm : Bool) {s : State}
    (hscr : s.screen.isReview = false) :
    onAnswer sdk o confirm s = ({ s with screen := .home }, []) := by
  unfold onAnswer
  cases hs : s.screen with
  | home => simp only [← hs]
  | blindSigningError => rfl
  | _ =>
    rw [hs] at hscr
    cases hscr

theorem onAnswer_alike (h : Alike a b) (haddr : AddressAsked a) (confirm : Bool) :
    SameResult (onAnswer sdk o confirm a) (onAnswer sdk o confirm b) := by
  cases hscr : a.screen.isReview with
  | false =>
    rw [onAnswer_dismissed sdk o confirm hscr,
      onAnswer_dismissed sdk o confirm (h.isReview.trans hscr)]
    exact ⟨rfl, h.withScreen rfl⟩
  | true =>
    unfold onAnswer
    rw [h.screen_eq hscr]
    cases hs : a.screen with
    | home => simp [hs, Screen.isReview] at hscr
    | blindSigningError => simp [hs, Screen.isReview] at hscr
    | confirm pair => exact reviewChoice_alike h hs confirm
    | transaction pairs blind => exact transactionChoice_alike h hs confirm
    | address text => exact addressChoice_alike h (haddr text hs) confirm

/-! ## Every step -/

/-- A chunk request of `GET_PUBLIC_KEY`. -/
def asksChunk (e : Event) : Bool :=
  match Event.request e with
  | some (.publicKeyChunk _) => true
  | _ => false

variable {hist : History} {e : Event}

theorem AddressAsked.of_home {s : State} (hscr : s.screen.isReview = false) : AddressAsked s := by
  intro text hs
  rw [hs] at hscr
  cases hscr

theorem AddressAsked.step {s : State} (h : AddressAsked s) (hserial : Serial hist s e)
    (hdid : Steps.Did sdk s e r) : AddressAsked r.1 := by
  cases hdid with
  | fixed eff _ _ _ _ _ => exact h
  | refusedChunk sw _ _ _ => exact h
  | appended rawTx _ _ _ => exact h
  | parsed o rawTx hq _ _ _ hp =>
    have hhome : s.screen.isReview = false := serial_request hserial hq
    exact fun text hs => absurd hs (hp.settled.notAddress (Screen.ne_address hhome) text)
  | opened p n sw hq _ =>
    have hhome : s.screen.isReview = false := serial_request hserial hq
    exact .of_home hhome
  | noSignature _ _ => exact h
  | chunkSent hq _ _ _ =>
    have hhome : s.screen.isReview = false := serial_request hserial hq
    unfold Steps.afterChunk
    split <;> exact .of_home hhome
  | keyServed hq hk =>
    have hhome : s.screen.isReview = false := serial_request hserial hq
    cases hk with
    | answered ctx pk effects _ _ => exact .of_home hhome
    | shown ctx pk text haddr => exact fun _ _ => haddr.1
  | denied o _ => exact .of_home rfl
  | walked o next _ _ => exact fun text hs => by cases hs
  | walkEnded o hs _ hd =>
    have hnot := hd.notAddress fun text haddress => by cases hs.symm.trans haddress
    exact fun text hs' => absurd hs' (hnot text)
  | signed o _ _ => exact .of_home rfl
  | unsigned o sig effects _ _ _ => exact .of_home rfl
  | addressApproved o _ => exact .of_home rfl
  | dismissed confirm o _ => exact .of_home rfl
  | toggled sw => exact h
  | restarted => exact .of_home rfl

theorem toggle_alike (h : Alike a b) (sw : Switch) :
    Alike { a with nvm := controlsCallback sw a.nvm }
      { b with nvm := controlsCallback sw b.nvm } := by
  obtain ⟨hblind, hnonce, hhash, hdebug⟩ := h.settings
  cases sw with
  | blindSigning =>
    exact ⟨h.ctx, ⟨congrArg notByte hblind, hnonce, hhash, hdebug⟩, h.sig, h.review, h.walk, h.pk,
      h.sending⟩
  | nonce =>
    exact ⟨h.ctx, ⟨hblind, congrArg notByte hnonce, hhash, hdebug⟩, h.sig, h.review, h.walk, h.pk,
      h.sending⟩
  | txHash =>
    exact ⟨h.ctx, ⟨hblind, hnonce, congrArg notByte hhash, hdebug⟩, h.sig, h.review, h.walk, h.pk,
      h.sending⟩
  | debugSmartContract =>
    exact ⟨h.ctx, ⟨hblind, hnonce, hhash, congrArg notByte hdebug⟩, h.sig, h.review, h.walk, h.pk,
      h.sending⟩

/-- **One step** of two states that are alike. -/
theorem step_alike (h : Alike a b) (haddr : AddressAsked a) (hno : asksChunk e = false) :
    SameResult (step sdk a e) (step sdk b e) := by
  cases hq : Event.request e with
  | some q =>
    obtain ⟨o, ho⟩ := outcome_of_request hq
    rw [step_request hq ho, step_request hq ho]
    cases q with
    | refused sw => exact h.sendSw sw
    | version => exact ⟨rfl, h⟩
    | appName => exact ⟨rfl, h⟩
    | publicKeyChunk index => simp [asksChunk, hq] at hno
    | publicKey cdata display => exact handlerGetPublicKey_alike h cdata display
    | first cdata =>
      obtain ⟨p, n, sw, hfirst⟩ := signTxFirst_eq sdk cdata
      rw [serve, serve, hfirst, hfirst]
      exact ⟨rfl, opened_alike p n h.settings h.review h.walk h.pk⟩
    | more cdata => exact signTxMore_alike h cdata
    | last cdata => exact signTxLast_alike h cdata
    | signature p2 => exact signTxSignature_alike h p2
  | none =>
    rcases noRequest_cases hq with ⟨confirm, o, rfl⟩ | ⟨sw, rfl⟩ | rfl
    · exact onAnswer_alike h haddr confirm
    · exact ⟨rfl, toggle_alike h sw⟩
    · refine ⟨rfl, ⟨rfl, h.settings, h.sig, rfl, ?_, ?_, ?_⟩⟩
      · intro _ hs
        cases hs
      · intro _ _ hs
        cases hs
      · intro hty _
        cases hty

/-- **A new session** makes states alike. -/
theorem step_opens (hset : SameSettings a.nvm b.nvm) (ha : a.screen.isReview = false)
    (hb : b.screen.isReview = false) (hopens : opens e = true) :
    SameResult (step sdk a e) (step sdk b e) ∧ AddressAsked (step sdk a e).1 := by
  obtain ⟨cdata, hq⟩ := first_of_opens hopens
  obtain ⟨o, ho⟩ := outcome_of_request hq
  obtain ⟨p, n, sw, hfirst⟩ := signTxFirst_eq sdk cdata
  have hreview : reviewOn a = reviewOn b := by
    rw [reviewOn, reviewOn, ha, hb]
    rfl
  rw [step_request hq ho, step_request hq ho, serve, serve, hfirst, hfirst]
  refine ⟨⟨rfl, opened_alike p n hset hreview ?_ ?_⟩, .of_home ha⟩
  · intro pair hs
    rw [hs] at ha
    cases ha
  · intro pairs blind hs
    rw [hs] at ha
    cases ha

/-! ## Two runs -/

theorem serial_of_opens {s : State} (hopens : opens e = true)
    (h : Lib.Machine.Allowed (step sdk) Serial s [e]) : s.screen.isReview = false := by
  obtain ⟨cdata, hq⟩ := first_of_opens hopens
  exact serial_request h.1 hq

/-- Alike, and fit to stay so. -/
def Paired (a b : State) : Prop := Alike a b ∧ AddressAsked a

/-- **A session is independent of what came before it**: behind the same new
session, two runs of the same events let out the same. -/
theorem session_independent {es : List Event} (hset : SameSettings a.nvm b.nvm)
    (hopens : opens e = true) (hno : ∀ e' ∈ es, asksChunk e' = false)
    (ha : Lib.Machine.Allowed (step sdk) Serial a (es ++ [e]))
    (hb : Lib.Machine.Allowed (step sdk) Serial b (es ++ [e])) :
    Lib.Machine.outputs (step sdk) a (es ++ [e]) =
      Lib.Machine.outputs (step sdk) b (es ++ [e]) := by
  obtain ⟨⟨hout, halike⟩, haddr⟩ := @step_opens sdk a b e hset (serial_of_opens hopens ha.earlier)
    (serial_of_opens hopens hb.earlier) hopens
  have hlater : Lib.Machine.Allowed (step sdk) Serial (step sdk a e).1 es :=
    ha.later fun _ _ _ e' => by cases e' <;> exact id
  have hpaired : Paired (step sdk a e).1 (step sdk b e).1 := ⟨halike, haddr⟩
  obtain ⟨houts, -⟩ := Lib.Machine.exec_related (fun hist x y e' he hxy hserial => by
    obtain ⟨hsame, hpost⟩ : SameResult (step sdk x e') (step sdk y e') :=
      step_alike hxy.1 hxy.2 (hno e' he)
    exact ⟨hsame, hpost, hxy.2.step hserial (Steps.step_did sdk x e')⟩) hpaired hlater
  rw [Lib.Machine.outputs_append, Lib.Machine.outputs_append]
  exact congrArg₂ (· ++ ·) houts (congrArg (fun out => [out]) hout)

/-! ## A device in the middle of a signature -/

def openSession : Event := signTx 0 0 canonicalPath canonicalPath_fits

/-- A contract creation, signed, the latest event first. -/
def creationSigned : List Event :=
  [approve, signTx 2 0 DecodeGrammar.validCreation validCreation_fits]

/-- A device whose host has read two chunks of a signature. -/
def interruptedRelease : State :=
  (runOf testSdk (signTx 2 1 [] noData_fits :: creationSigned ++ [openSession])).2

theorem interruptedRelease_independent :
    Lib.Machine.outputs (step testSdk) (startUp .zero) (creationSigned ++ [openSession]) =
      Lib.Machine.outputs (step testSdk) interruptedRelease (creationSigned ++ [openSession]) :=
  session_independent ⟨by decide, by decide, by decide, by decide⟩ (by decide) (by decide)
    (by decide) (by decide)

/-- A `SIGN_TX` P1 = 0 without data, and a chunk behind it. -/
def chunkBehindEmpty : List Event := [signTx 1 0 [0x00] zeroByte_fits, signTx 0 0 [] noData_fits]

/-- A `SIGN_TX` P1 = 0 without data starts no session: a device that has one
open takes in the chunk behind it, and a fresh one does not. -/
theorem emptyFirst_not_independent :
    Run testSdk Serial [] (startUp .zero) ∧
      Run testSdk Serial (runOf testSdk [openSession]).1 (runOf testSdk [openSession]).2 ∧
      SameSettings (startUp .zero).nvm (runOf testSdk [openSession]).2.nvm ∧
      chunkBehindEmpty.map asksFirst = [false, true] ∧
      (∀ e ∈ chunkBehindEmpty, asksChunk e = false) ∧
      Lib.Machine.Allowed (step testSdk) Serial (startUp .zero) chunkBehindEmpty ∧
      Lib.Machine.Allowed (step testSdk) Serial (runOf testSdk [openSession]).2 chunkBehindEmpty ∧
      Lib.Machine.outputs (step testSdk) (startUp .zero) chunkBehindEmpty ≠
        Lib.Machine.outputs (step testSdk) (runOf testSdk [openSession]).2 chunkBehindEmpty := by
  have hfresh : Lib.Machine.outputs (step testSdk) (startUp .zero) chunkBehindEmpty =
      [[.sendSw swBadState], [.sendSw swWrongDataLength]] := by decide
  have hopen : Lib.Machine.outputs (step testSdk) (runOf testSdk [openSession]).2
      chunkBehindEmpty = [[.sendSw swOk], [.sendSw swWrongDataLength]] := by decide
  refine ⟨.start ⟨.zero, rfl⟩, Lib.Machine.Run.exec ⟨.zero, rfl⟩ [openSession] (by decide),
    ⟨rfl, rfl, rfl, rfl⟩, by decide, by decide, by decide, by decide, ?_⟩
  rw [hfresh, hopen]
  decide

end LedgerZond.Independence
