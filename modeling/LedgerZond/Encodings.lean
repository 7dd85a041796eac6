import LedgerZond.Chunking
import LedgerZond.NormalForm
import LedgerZond.ShownHash

/-! # Encodings that only a hash tells apart

Whichever accepted encoding of a transaction a host sends, the device shows
the same screens but for the line with the hash, answers the same events alike,
and signs under the same key. Only what is signed differs, and with it the
signature. The relation that two runs keep leaves open the bytes, their hash,
that line, the signature and the way integers are written, and nothing else. -/
namespace LedgerZond.Encodings
open LedgerZond.CTypes LedgerZond.Types LedgerZond.Platform LedgerZond.AppState
open LedgerZond.Address LedgerZond.Review LedgerZond.RlpDecode LedgerZond.DecodeGrammar
open LedgerZond.App LedgerZond.Requests LedgerZond.Displays LedgerZond.QrlTx
open LedgerZond.ShortestHeaders LedgerZond.Chunking LedgerZond.NormalForm LedgerZond.ShownHash
open Lib.Machine (exec outputs Allowed exec_similar)

/-! ## Everything but the hash -/

def isHashLine (pair : Pair) : Bool := pair.1 == "Transaction hash" || pair.1 == "Tx hash"

/-- A screen without the line with the hash. -/
def unhashed : Screen → Screen
  | .transaction pairs blind => .transaction (pairs.filter fun pair => !isHashLine pair) blind
  | screen => screen

/-- An effect without the hash and without the bytes of a signature. -/
def masked : Effect → Effect
  | .draw screen => .draw (unhashed screen)
  | .sign _ c sk => .sign (.zero _) c sk
  | .verify _ _ c pk accepted => .verify (.zero _) (.zero _) c pk accepted
  | .sendResponse (.signature reads ty st) data =>
    .sendResponse (.signature reads ty st) (List.replicate data.length 0)
  | effect => effect

def observed (effects : List Effect) : List Effect := effects.map masked

/-- The device, the hash and the signature apart. -/
def observedStep (sdk : Sdk) (s : State) (e : Event) : Result :=
  ((step sdk s e).1, observed (step sdk s e).2)

/-- Calls that turn out alike. The signature that is made may be another one,
and so may what a failing hash leaves. -/
def SameCalls (o o' : Outcome) : Prop :=
  (o.keccak = .ok ↔ o'.keccak = .ok) ∧ ∃ keccak sig,
    o' = { o with keccak := keccak, sign := { o.sign with sig := sig } }

/-- The same event, with calls that turn out alike. -/
inductive SameEvent : Event → Event → Prop
  | apdu {o o' : Outcome} (cmd : Option Command) : SameCalls o o' →
      SameEvent (.apdu cmd o) (.apdu cmd o')
  | answer {o o' : Outcome} (confirm : Bool) : SameCalls o o' →
      SameEvent (.answer confirm o) (.answer confirm o')
  | toggle (sw : Switch) : SameEvent (.toggle sw) (.toggle sw)
  | restart : SameEvent .restart .restart

variable {sdk : Sdk} {a b s : State} {r r' : Result} {o o' : Outcome} {tx tx' : ZondTx}

theorem observed_append (xs ys : List Effect) : observed (xs ++ ys) = observed xs ++ observed ys :=
  List.map_append

/-! ## States that differ in the encoding -/

/-- What two states may differ in. -/
structure Encoding where
  rawTx : RawTx
  mHash : Bytes 32
  tx : ZondTx
  sig : Signature
  screen : Screen

/-- The state with another encoding. -/
abbrev reencoded (x : Encoding) (s : State) : State :=
  { s with
    ctx := { s.ctx with txInfo :=
      { s.ctx.txInfo with rawTx := x.rawTx, mHash := x.mHash, txData := x.tx } }
    nvm := { s.nvm with sig := x.sig }
    screen := x.screen }

/-- `b` is `a` with another encoding of the same transaction. -/
def Veiled (a b : State) : Prop :=
  ∃ x, b = reencoded x a ∧ SameTx a.ctx.txInfo.txData x.tx ∧ unhashed a.screen = unhashed x.screen

/-- The same is let out, the hash and the signature apart, and what is left
differs in the encoding alone. -/
def Indistinct (r r' : Result) : Prop := observed r.2 = observed r'.2 ∧ Veiled r.1 r'.1

/-- The same context, behind screens that differ in the hash alone. -/
theorem veiled_of_screen {screen : Screen} (h : unhashed s.screen = unhashed screen)
    (sig : Signature) : Veiled s { s with nvm := { s.nvm with sig := sig }, screen := screen } :=
  ⟨⟨_, _, _, sig, screen⟩, rfl, .refl _, h⟩

theorem Veiled.sendSw (h : Veiled a b) (sw : UInt16) :
    Indistinct (ioSendSw sw a) (ioSendSw sw b) := ⟨rfl, h⟩

/-- A change of what is neither the encoding nor on screen. -/
theorem Veiled.change (h : Veiled a b) (f : State → State)
    (hf : ∀ x, f (reencoded x a) = reencoded x (f a))
    (htx : (f a).ctx.txInfo.txData = a.ctx.txInfo.txData) (hscr : (f a).screen = a.screen) :
    Veiled (f a) (f b) := by
  obtain ⟨x, rfl, hsame, hscreen⟩ := h
  exact ⟨x, hf x, htx ▸ hsame, hscr ▸ hscreen⟩

/-- Another screen, up to the hash. -/
theorem Veiled.withScreen (h : Veiled a b) {screen screen' : Screen}
    (hscr : unhashed screen = unhashed screen') :
    Veiled { a with screen := screen } { b with screen := screen' } := by
  obtain ⟨x, rfl, hsame, -⟩ := h
  exact ⟨{ x with screen := screen' }, rfl, hsame, hscr⟩

/-- Other signatures. -/
theorem Veiled.withSig (h : Veiled a b) (sig sig' : Signature) :
    Veiled { a with nvm := { a.nvm with sig := sig } }
      { b with nvm := { b.nvm with sig := sig' } } := by
  obtain ⟨x, rfl, hsame, hscreen⟩ := h
  exact ⟨{ x with sig := sig' }, rfl, hsame, hscreen⟩

theorem Veiled.draw (h : Veiled a b) {screen screen' : Screen}
    (hscr : unhashed screen = unhashed screen') :
    Indistinct (nbglUseCase screen a) (nbglUseCase screen' b) := by
  refine ⟨?_, h.withScreen hscr⟩
  show [Effect.draw (unhashed screen)] = [Effect.draw (unhashed screen')]
  rw [hscr]

/-- A context that is cleared holds no encoding. -/
theorem Veiled.bzero (h : Veiled a b) : Veiled a.bzero b.bzero := by
  obtain ⟨x, rfl, -, hscreen⟩ := h
  exact @veiled_of_screen a.bzero x.screen hscreen x.sig

/-- Effects in front that are the same, the hash apart. -/
theorem Indistinct.after (h : Indistinct r r') {before before' : List Effect}
    (hbefore : observed before = observed before') :
    Indistinct (r.after before) (r'.after before') := by
  refine ⟨?_, h.2⟩
  rw [Result.after, Result.after, observed_append, observed_append, hbefore, h.1]

/-! ## The reviews -/

theorem isHashLine_txHashItem (sdk : Sdk) (text : List Char) :
    isHashLine (txHashItem sdk, text) = true := by
  unfold txHashItem
  split <;> rfl

/-- Without the line, the hash is not part of a review. -/
theorem unhashed_reviewPairs (sdk : Sdk) (nvm : InternalStorage) (tx : ZondTx)
    (mHash mHash' : Bytes 32) (fromText toText : List Char) (blind : Bool) :
    unhashed (.transaction (reviewPairs sdk nvm tx mHash fromText toText) blind) =
      unhashed (.transaction (reviewPairs sdk nvm tx mHash' fromText toText) blind) := by
  unfold unhashed reviewPairs
  split_ifs <;> simp [List.filter_cons, isHashLine_txHashItem]

theorem uiDisplayTransactionBsChoice_veiled (h : Veiled a b) (ho : SameCalls o o') (blind : Bool) :
    Indistinct (uiDisplayTransactionBsChoice sdk o blind a)
      (uiDisplayTransactionBsChoice sdk o' blind b) := by
  obtain ⟨x, rfl, hsame, hscreen⟩ := h
  obtain ⟨-, keccak, sig, rfl⟩ := ho
  unfold uiDisplayTransactionBsChoice
  dsimp only [reencoded]
  by_cases hbad : a.ctx.reqType ≠ .confirmTransaction ∨ a.ctx.state ≠ .parsed
  · rw [if_pos hbad, if_pos hbad]
    exact ⟨rfl, x, rfl, hsame, hscreen⟩
  rw [if_neg hbad, if_neg hbad]
  rcases addressFromBip32Path sdk o.address a.ctx.bip32Path a.ctx.bip32PathLen a.nvm.pk
    a.ctx.address with ⟨error, pk, address⟩
  have hkeyed : Veiled
      { a with nvm := { a.nvm with pk := pk }, ctx := { a.ctx with address := address } }
      (reencoded x
        { a with nvm := { a.nvm with pk := pk }, ctx := { a.ctx with address := address } }) :=
    ⟨x, rfl, hsame, hscreen⟩
  refine Indistinct.after ?_ rfl
  dsimp only
  by_cases hok : error = cxOk
  swap
  · rw [if_pos hok, if_pos hok]
    exact hkeyed.sendSw _
  rw [if_neg (not_not.mpr hok), if_neg (not_not.mpr hok)]
  cases formatChecksummedAddress sdk o.fromChecksum address uiBufferSize with
  | none => exact hkeyed.sendSw _
  | some fromText =>
    dsimp only
    rw [← hsame.toAddress]
    cases formatChecksummedAddress sdk o.toChecksum a.ctx.txInfo.txData.toAddress toAddressSize with
    | none => exact hkeyed.sendSw _
    | some toText =>
      dsimp only
      rw [NormalForm.reviewPairs_congr hsame]
      exact hkeyed.draw (unhashed_reviewPairs ..)

theorem buildScreen_veiled (h : Veiled a b) (confirmType : ConfirmationType) :
    Indistinct (buildScreen sdk confirmType a) (buildScreen sdk confirmType b) := by
  have hdraw := fun pair => @Veiled.draw a b h (.confirm pair) _ rfl
  obtain ⟨x, rfl, hsame, hscreen⟩ := h
  cases confirmType with
  | parameterConfirmation => exact hdraw _
  | selectorConfirmation => exact hdraw _

/-- **The choice of a review** depends on the parameters alone. -/
theorem signTxReview_veiled (h : Veiled a b) (ho : SameCalls o o') :
    Indistinct (signTxReview sdk o a) (signTxReview sdk o' b) := by
  have hveiled := h
  obtain ⟨x, rfl, hsame, hscreen⟩ := h
  unfold signTxReview
  dsimp only [reencoded]
  rw [← hsame.dataLen, ← hsame.toLen]
  by_cases hrefuse : a.ctx.txInfo.txData.dataLen ≠ 0 ∧ a.nvm.enableBlindSigning = 0
  · rw [if_pos hrefuse, if_pos hrefuse]
    exact ⟨rfl, hveiled.withScreen rfl⟩
  rw [if_neg hrefuse, if_neg hrefuse]
  split
  · have hdata := hsame.data
    rw [← hsame.dataLen] at hdata
    rw [← hdata]
    rcases abiCalldataParse (a.ctx.txInfo.txData.data.toList.take
      a.ctx.txInfo.txData.dataLen.toNat) with ⟨parsed, calldata⟩
    have hcalled := hveiled.change (fun s => { s with ctx.txInfo.calldata := calldata })
      (fun _ => rfl) rfl rfl
    dsimp only
    split
    · exact buildScreen_veiled
        (hcalled.change (uiContractCallInit calldata.paramCount) (fun _ => rfl) rfl rfl) _
    · exact uiDisplayTransactionBsChoice_veiled hcalled ho false
  split
  · exact uiDisplayTransactionBsChoice_veiled hveiled ho true
  · exact uiDisplayTransactionBsChoice_veiled hveiled ho false

/-! ## The requests -/

/-- **Two encodings of a transaction**, parsed in states that differ in them alone. -/
theorem signTxParse_veiled (h : Veiled a b) (ho : SameCalls o o') {txA txB : ZondTx}
    (ha : Decodes .device a.ctx.txInfo.rawTx.bytes txA)
    (hb : Decodes .device b.ctx.txInfo.rawTx.bytes txB) (hsame : SameTx txA txB) :
    Indistinct (signTxParse sdk o a) (signTxParse sdk o' b) := by
  obtain ⟨tx, hdec, htx⟩ := ha.again a.ctx.txInfo.txData
  obtain ⟨tx', hdec', htx'⟩ := hb.again b.ctx.txInfo.txData
  obtain ⟨x, rfl, hprior, hscreen⟩ := h
  unfold signTxParse
  dsimp only [reencoded] at hdec' ⊢
  cases hk : o.keccak with
  | failed left =>
    cases hk' : o'.keccak with
    | failed left' =>
      exact ⟨rfl, { x with mHash := left'.getD x.mHash }, rfl, hprior, hscreen⟩
    | ok => cases hk.symm.trans (ho.1.mpr hk')
  | ok =>
    rw [ho.1.mp hk]
    dsimp only
    rw [decodeRawTx, hdec, decodeRawTx, hdec']
    dsimp only
    rw [if_neg (not_not.mpr rfl), if_neg (not_not.mpr rfl)]
    refine signTxReview_veiled ⟨{ x with mHash := sdk.keccak256 x.rawTx.bytes, tx := tx' }, rfl, ?_,
      hscreen⟩ ho
    exact htx.symm.trans (hsame.trans htx')

/-- A signature is sent from where it is stored. -/
theorem helperSendResponseSig_veiled (h : Veiled a b) (index : UInt8) :
    Indistinct (helperSendResponseSig index a) (helperSendResponseSig index b) := by
  have hflag := fun flag : UInt8 => h.change
    (fun s => { s with nvm := { s.nvm with isSendingSignature := flag } }) (fun _ => rfl) rfl rfl
  have hveiled := h
  obtain ⟨x, rfl, hsame, hscreen⟩ := h
  have hsent : ∀ reads ty st,
      observed [.sendResponse (.signature reads ty st) (readAll a.nvm.sig.toList reads)] =
        observed [.sendResponse (.signature reads ty st) (readAll x.sig.toList reads)] := by
    intro reads ty st
    simp only [observed, List.map_cons, List.map_nil, masked, readAll, List.length_map]
  unfold helperSendResponseSig
  dsimp only [reencoded]
  by_cases h0 : index = 0
  · rw [if_pos h0, if_pos h0]
    exact ⟨hsent _ _ _, hflag 1⟩
  rw [if_neg h0, if_neg h0]
  by_cases h17 : index = 17
  · rw [if_pos h17, if_pos h17]
    exact ⟨hsent _ _ _, (hflag 0).bzero⟩
  · rw [if_neg h17, if_neg h17]
    exact ⟨hsent _ _ _, hveiled⟩

theorem signTxSignature_veiled (h : Veiled a b) (p2 : UInt8) :
    Indistinct (signTxSignature p2 a) (signTxSignature p2 b) := by
  have hveiled := h
  obtain ⟨x, rfl, hsame, hscreen⟩ := h
  unfold signTxSignature
  dsimp only [reencoded]
  split
  · exact hveiled.sendSw _
  split
  · exact hveiled.sendSw _
  split
  · exact helperSendResponseSig_veiled hveiled p2
  · exact hveiled.sendSw _

/-- A new session holds no encoding. -/
theorem signTxFirst_veiled (h : Veiled a b) (cdata : List UInt8) :
    Indistinct (signTxFirst sdk cdata a) (signTxFirst sdk cdata b) := by
  obtain ⟨x, rfl, -, hscreen⟩ := h
  obtain ⟨p, n, sw, hfirst⟩ := Independence.signTxFirst_eq sdk cdata
  rw [hfirst, hfirst]
  exact ⟨rfl, @veiled_of_screen (opened p n a) x.screen hscreen (.zero _)⟩

/-- Nor does the context of a public key. -/
theorem handlerGetPublicKey_veiled (h : Veiled a b) (ho : SameCalls o o') (cdata : List UInt8)
    (display : Bool) :
    Indistinct (handlerGetPublicKey sdk o cdata display a)
      (handlerGetPublicKey sdk o' cdata display b) := by
  obtain ⟨x, rfl, -, hscreen⟩ := h
  obtain ⟨-, keccak, sig, rfl⟩ := ho
  have hkey : ∀ (c : GlobalCtx) (pk : PublicKey),
      Veiled { a with ctx := c, nvm := { a.nvm with pk := pk } }
        { a with ctx := c, nvm := { a.nvm with pk := pk, sig := x.sig }, screen := x.screen } :=
    fun c pk => @veiled_of_screen { a with ctx := c, nvm := { a.nvm with pk := pk } } x.screen
      hscreen x.sig
  unfold handlerGetPublicKey
  dsimp only [reencoded]
  cases sdk.bufferReadU8 ⟨cdata, 0⟩ with
  | none => exact (hkey _ _).sendSw _
  | some u8 =>
    obtain ⟨n, buffer⟩ := u8
    rcases hr : sdk.bufferReadBip32Path buffer GlobalCtx.zero.bip32Path n.toNat with ⟨read, p, rest⟩
    simp only [hr]
    split
    · exact (hkey _ _).sendSw _
    split
    · exact (hkey _ _).sendSw _
    rcases addressFromBip32Path sdk o.address p n (.zero _) GlobalCtx.zero.address with
      ⟨error, pk, address⟩
    refine Indistinct.after ?_ rfl
    split
    · exact (hkey _ _).sendSw _
    split
    · unfold uiDisplayAddress
      dsimp only
      rw [if_neg (by simp), if_neg (by simp)]
      split
      · exact (hkey _ _).sendSw _
      · exact (hkey _ _).draw rfl
    · exact ⟨rfl, hkey _ _⟩

/-! ## The answers of the user -/

theorem reviewChoice_veiled (h : Veiled a b) (ho : SameCalls o o') (confirm : Bool) :
    Indistinct (reviewChoice sdk o confirm a) (reviewChoice sdk o' confirm b) := by
  have hhome : Veiled { a with screen := .home } { b with screen := .home } := h.withScreen rfl
  have hwalk := fun (current : ConfirmationType) (index : UInt8) => h.change
    (fun s => { s with currentScreen := current, paramIndex := index }) (fun _ => rfl) rfl rfl
  obtain ⟨x, rfl, hsame, hscreen⟩ := h
  unfold reviewChoice
  dsimp only [reencoded]
  split
  · exact ⟨rfl, hhome.bzero⟩
  split
  · split
    · exact buildScreen_veiled (hwalk .parameterConfirmation 0) _
    · exact uiDisplayTransactionBsChoice_veiled (hwalk .parameterConfirmation 0) ho true
  · split
    · exact buildScreen_veiled (hwalk a.currentScreen (a.paramIndex + 1)) _
    · exact uiDisplayTransactionBsChoice_veiled (hwalk a.currentScreen (a.paramIndex + 1)) ho true

/-- **A signature** is made under the same key, of another hash. -/
theorem cryptoSignMessage_veiled (h : Veiled a b) (o : SignOutcome) (sig : Signature) :
    (cryptoSignMessage sdk o a).1 = (cryptoSignMessage sdk { o with sig := sig } b).1 ∧
      Indistinct (cryptoSignMessage sdk o a).2
        (cryptoSignMessage sdk { o with sig := sig } b).2 := by
  have hsig := h.withSig o.sig sig
  have hveiled := h
  obtain ⟨x, rfl, hsame, hscreen⟩ := h
  unfold cryptoSignMessage
  dsimp only [reencoded]
  by_cases hd : o.derive = cxOk
  swap
  · rw [if_pos hd, if_pos hd]
    exact ⟨rfl, rfl, hveiled⟩
  by_cases hk : o.keygen = cxOk
  swap
  · rw [if_neg (not_not.mpr hd), if_neg (not_not.mpr hd), if_pos hk, if_pos hk]
    exact ⟨rfl, rfl, hveiled⟩
  rw [if_neg (not_not.mpr hd), if_neg (not_not.mpr hd), if_neg (not_not.mpr hk),
    if_neg (not_not.mpr hk)]
  split
  · exact ⟨rfl, rfl, hsig⟩
  · exact ⟨rfl, rfl, hsig⟩

theorem transactionChoice_veiled (h : Veiled a b) (ho : SameCalls o o') (confirm : Bool) :
    Indistinct (transactionChoice sdk o confirm a) (transactionChoice sdk o' confirm b) := by
  have hhome : Veiled { a with screen := .home } { b with screen := .home } := h.withScreen rfl
  obtain ⟨-, keccak, sig, rfl⟩ := ho
  unfold transactionChoice validateTransaction
  cases confirm with
  | false => exact ⟨rfl, hhome.bzero⟩
  | true =>
    have happroved := hhome.change (·.setState .approved) (fun _ => rfl) rfl rfl
    obtain ⟨hok, hout, hend⟩ := cryptoSignMessage_veiled happroved o.sign sig
    simp only [if_true]
    rw [← hok]
    refine Indistinct.after ?_ hout
    split
    · exact helperSendResponseSig_veiled hend 0
    · exact (hend.change (·.setState .none) (fun _ => rfl) rfl rfl).sendSw _

theorem addressChoice_veiled (h : Veiled a b) (confirm : Bool) :
    Indistinct (addressChoice confirm a) (addressChoice confirm b) := by
  have hhome : Veiled { a with screen := .home } { b with screen := .home } := h.withScreen rfl
  unfold addressChoice validatePubkey
  cases confirm with
  | false => exact ⟨rfl, hhome.bzero⟩
  | true =>
    have happroved := hhome.change (·.setState .approved) (fun _ => rfl) rfl rfl
    obtain ⟨x, rfl, -, -⟩ := h
    exact ⟨rfl, happroved⟩

/-- An answer goes to the same callback. -/
theorem onAnswer_veiled (h : Veiled a b) (ho : SameCalls o o') (confirm : Bool) :
    Indistinct (onAnswer sdk o confirm a) (onAnswer sdk o' confirm b) := by
  have hscr : unhashed a.screen = unhashed b.screen := by
    obtain ⟨x, rfl, -, hscreen⟩ := h
    exact hscreen
  unfold onAnswer
  cases ha : a.screen <;> cases hb : b.screen <;> rw [ha, hb] at hscr <;> try cases hscr
  · exact ⟨rfl, h⟩
  · exact ⟨rfl, h.withScreen rfl⟩
  · exact reviewChoice_veiled h ho confirm
  · exact transactionChoice_veiled h ho confirm
  · exact addressChoice_veiled h confirm

/-! ## Every step -/

variable {e e' : Event} {t t' : List UInt8} {params : Params}

/-- A request that is no chunk. -/
theorem serve_veiled (h : Veiled a b) (ho : SameCalls o o') {q : Request} (hno : q.chunk = none) :
    Indistinct (serve sdk o a q) (serve sdk o' b q) := by
  cases q with
  | refused sw => exact h.sendSw sw
  | version => exact ⟨rfl, h⟩
  | appName => exact ⟨rfl, h⟩
  | publicKeyChunk index =>
    have hveiled := h
    obtain ⟨x, rfl, -, -⟩ := h
    rw [serve, serve, helperSendResponsePkChunk, helperSendResponsePkChunk]
    split
    · exact hveiled.sendSw _
    · exact ⟨rfl, hveiled⟩
  | publicKey cdata display => exact handlerGetPublicKey_veiled h ho cdata display
  | first cdata => exact signTxFirst_veiled h cdata
  | more cdata => cases hno
  | last cdata => cases hno
  | signature p2 => exact signTxSignature_veiled h p2

/-- **One step** that takes in no chunk. -/
theorem step_veiled (h : Veiled a b) (he : SameEvent e e') (hno : chunkOf e = none) :
    Indistinct (step sdk a e) (step sdk b e') := by
  cases he with
  | @apdu o o' cmd ho =>
    cases cmd with
    | none => exact h.sendSw _
    | some cmd =>
      have hq : ∀ o, Event.request (.apdu (some cmd) o) = some (requestOf cmd) := fun _ => rfl
      rw [step_request (hq o) rfl, step_request (hq o') rfl]
      exact serve_veiled h ho ((chunkOf_of_request (hq o)).symm.trans hno)
  | answer confirm ho => exact onAnswer_veiled h ho confirm
  | toggle sw =>
    exact ⟨rfl, h.change (fun s => { s with nvm := controlsCallback sw s.nvm })
      (fun _ => by cases sw <;> rfl) rfl rfl⟩
  | restart =>
    obtain ⟨x, rfl, -, -⟩ := h
    exact ⟨rfl, @veiled_of_screen (startUp a.nvm) .home rfl x.sig⟩

/-- Whatever comes in next. -/
theorem outputs_veiled (h : Veiled a b) {later later' : List Event}
    (hsimilar : List.Forall₂ SameEvent later later') (hno : ∀ e ∈ later, chunkOf e = none) :
    outputs (observedStep sdk) a later = outputs (observedStep sdk) b later' := by
  have hany : Allowed (observedStep sdk) (fun _ _ _ => True) a later := by
    clear hsimilar
    induction later with
    | nil => trivial
    | cons e later ih => exact ⟨trivial, ih fun e he => hno e (List.mem_cons_of_mem _ he)⟩
  have hboth : List.Forall₂ (fun e e' => chunkOf e = none ∧ SameEvent e e') later later' :=
    (List.forall₂_and_left _ _).mpr ⟨hno, hsimilar⟩
  have hstep : ∀ (_ : History) (x y : State) (e e' : Event), chunkOf e = none ∧ SameEvent e e' →
      Veiled x y → True → (observedStep sdk x e).2 = (observedStep sdk y e').2 ∧
        Veiled (observedStep sdk x e).1 (observedStep sdk y e').1 :=
    fun _ x y e e' he hxy _ => step_veiled hxy he.2 he.1
  exact (exec_similar hstep h hboth hany).1

/-! ## A session with either encoding -/

/-- Two transactions sent in a session: every chunk is answered alike, the last
up to the hash, and so is what comes in later. -/
structure SameSession (sdk : Sdk) (o o' : Outcome) (s : State) (c : Cutting t) (d : Cutting t')
    (later later' : List Event) : Prop where
  chunks : ∃ out out', observed out = observed out' ∧
    answers sdk s (c.apdus o) = out :: List.replicate c.more.length [.sendSw swOk] ∧
    answers sdk s (d.apdus o') = out' :: List.replicate d.more.length [.sendSw swOk]
  later : outputs (observedStep sdk) (feed sdk s (c.apdus o)).2 later =
    outputs (observedStep sdk) (feed sdk s (d.apdus o')).2 later'

/-- Two encodings of a transaction whose nonce can be shown. -/
structure Encode (t t' : List UInt8) (params : Params) : Prop where
  fits : t.length ≤ maxTransactionLen
  fits' : t'.length ≤ maxTransactionLen
  reads : ReadsAs .device t params
  reads' : ReadsAs .device t' params
  nonceFits : params.nonce < 10 ^ 9

/-- **Encodings are indistinguishable** but for the hash: in a session that is
open, two byte strings that are read as one transaction, however they are cut,
are answered alike, reviewed alike and signed under one key, through whatever
dialogue follows, whichever signature is made of either. -/
theorem sameParams_sameSession (hopen : IsOpen s.ctx) (hempty : s.ctx.txInfo.rawTx.bytes = [])
    (h : Encode t t' params) (c : Cutting t) (d : Cutting t') (ho : SameCalls o o')
    {later later' : List Event} (hsimilar : List.Forall₂ SameEvent later later')
    (hno : ∀ e ∈ later, chunkOf e = none) : SameSession sdk o o' s c d later later' := by
  obtain ⟨tx, hdec, hparams⟩ := h.reads
  obtain ⟨tx', hdec', hparams'⟩ := h.reads'
  have hsame := sameTx_of_holding hdec.holding hdec'.holding (hparams.trans hparams'.symm)
  obtain ⟨hstate, hout⟩ := @feed_whole sdk s o t hopen hempty h.fits c
  obtain ⟨hstate', hout'⟩ := @feed_whole sdk s o' t' hopen hempty h.fits' d
  have hsent : Veiled ((s.setRawTx ⟨t, h.fits⟩).setState .parsed)
      ((s.setRawTx ⟨t', h.fits'⟩).setState .parsed) :=
    ⟨⟨⟨t', h.fits'⟩, s.ctx.txInfo.mHash, s.ctx.txInfo.txData, s.nvm.sig, s.screen⟩, rfl, .refl _,
      rfl⟩
  obtain ⟨hseen, hend⟩ : Indistinct _ _ := signTxParse_veiled hsent ho hdec hdec' hsame
  refine ⟨⟨_, _, hseen, hout, hout'⟩, ?_⟩
  rw [hstate, hstate']
  exact outputs_veiled hend hsimilar hno

/-- The normal form of the transaction with the nonce 5 behind 0x81. -/
def shortNonce : List UInt8 :=
  [0x02, 0xce, 0x80, 0x05, 0x80, 0x80, 0x80, 0x80, 0x80, 0x80, 0xc0, 0x83, 1, 0, 0, 0x80]

/-- A signature that is not all zero. -/
def otherSig : Signature := (Bytes.zero _).overlay [1]

/-- Signed by two signatures, the first chunk of which is asked for once more. -/
theorem shortNonce_sameSession :
    SameSession wrappedSdk (.good (.zero _)) (.good (.zero _))
      (runOf wrappedSdk [Independence.openSession]).2
      (wholeOf wrappedNonce (by decide) (by decide)) (wholeOf shortNonce (by decide) (by decide))
      [signTx 2 1 [] (by decide), .answer true (.good (.zero _))]
      [signTx 2 1 [] (by decide), .answer true (.good otherSig)] := by
  obtain ⟨tx, hdec, hnormal⟩ := accepted_of_map .device wrappedNonce .zero
    (fun tx => (encodeUnsignedPreimage (paramsOf tx), (paramsOf tx).nonce)) (shortNonce, 5)
    (by decide)
  have hdecodes : Decodes .device wrappedNonce tx := ⟨by decide, .zero, hdec⟩
  obtain ⟨tx', hdec', hsame⟩ := decodes_encoded hdecodes.holding .device .zero
  obtain ⟨hshort, hnonce⟩ := Prod.ext_iff.mp hnormal
  rw [show encodeUnsignedPreimage (paramsOf tx) = shortNonce from hshort] at hdec'
  have hencode : Encode wrappedNonce shortNonce (paramsOf tx) :=
    ⟨by decide, by decide, ⟨tx, hdecodes, rfl⟩, ⟨tx', ⟨by decide, .zero, hdec'⟩, hsame.params⟩,
      lt_of_eq_of_lt hnonce (by decide)⟩
  have hgood : ∀ sig sig' : Signature, SameCalls (.good sig) (.good sig') :=
    fun sig sig' => ⟨Iff.rfl, .ok, sig', rfl⟩
  exact sameParams_sameSession ⟨by decide, by decide⟩ (by decide) hencode _ _ (hgood _ _)
    (.cons (.apdu _ (hgood _ _)) (.cons (.answer true (hgood _ _)) .nil)) (by decide)

end LedgerZond.Encodings
