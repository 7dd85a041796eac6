import LedgerZond.Steps
import LedgerZond.Lib.Slices

/-! # Whose key the chunks belong to

The key lives in one slot without an owner. `GET_PUBLIC_KEY` writes it, each
review of a transaction writes it again with the key of its own session, and
a chunk of it is sent whenever it is asked for. `keptPath` follows the path
whose key the latest `GET_PUBLIC_KEY` left there, as long as no review puts
another one over it: then the chunks belong to the address that was
returned. -/
namespace LedgerZond.PublicKeyChunks
open LedgerZond.CTypes LedgerZond.Types LedgerZond.Platform LedgerZond.AppState
open LedgerZond.Address LedgerZond.Review LedgerZond.App LedgerZond.Requests LedgerZond.Displays
open LedgerZond.PublicKey LedgerZond.Steps

variable {sdk : Sdk} {hist newer older : History} {s : State} {e : Event} {r : Result} {o : Outcome}
  {en : Entry}

/-! ## Requests for a key -/

/-- `GET_PUBLIC_KEY` P2 = 0, also one the dispatcher refuses. -/
def asksKey : Event → Bool
  | .apdu (some cmd) _ => cmd.cla == cla && cmd.ins == insGetPublicKey && cmd.p2 == 0
  | _ => false

def latestAsk (hist : History) : Option Entry := hist.find? fun en => asksKey en.event

/-- The path of a `GET_PUBLIC_KEY` P2 = 0 whose derivation succeeds. -/
def derivedPath (sdk : Sdk) (e : Event) : Option (Path × UInt8) :=
  match Event.request e, Event.outcome e with
  | some (.publicKey cdata _), some o => if KeyOk o then acceptedPath sdk cdata else none
  | _, _ => none

/-- The bytes `[258 * index, 258 * index + 258)` of a public key, as far as it goes. -/
def pkChunk (pk : PublicKey) (index : Nat) : List UInt8 :=
  (pk.toList.drop (index * pkChunkSize)).take pkChunkSize

/-- A chunk that is sent belongs to the key which the latest `GET_PUBLIC_KEY`
P2 = 0 derived. -/
def SendsDerived (sdk : Sdk) (hist : History) (en : Entry) : Prop :=
  ∀ index reads data, Event.request en.event = some (.publicKeyChunk index) →
    Effect.sendResponse (.publicKey reads) data ∈ en.out →
    ∃ d p n, latestAsk hist = some d ∧ derivedPath sdk d.event = some (p, n) ∧
      data = pkChunk (publicKey sdk p n) index.toNat

/-! ## What a review stores -/

def Effect.isDerive : Effect → Bool
  | .derive _ _ => true
  | _ => false

/-- The calls of `address_from_bip32_path` up to the storing of the key succeed. -/
def keyMade (o : Outcome) : Bool := decide (o.address.derive = cxOk ∧ o.address.keygen = cxOk)

/-- The step stores the key of its session: a review derives it. The key that
an approval derives is not stored. -/
def storesKey (en : Entry) : Bool :=
  match en.event, en.pre.screen with
  | .answer _ _, .transaction _ _ => false
  | e, _ => (Event.outcome e).any fun o => en.out.any Effect.isDerive && keyMade o

/-- The path whose key the latest `GET_PUBLIC_KEY` P2 = 0 derived, unless a
review has stored the key of another path since. -/
def keptPath (sdk : Sdk) : History → Option (Path × UInt8)
  | [] => none
  | en :: hist =>
    if asksKey en.event then derivedPath sdk en.event
    else if storesKey en then
      (keptPath sdk hist).filter (· == (en.pre.ctx.bip32Path, en.pre.ctx.bip32PathLen))
    else keptPath sdk hist

/-- A chunk is asked for only while the key of the latest request is kept. -/
def KeyKept (sdk : Sdk) (hist : History) (en : Entry) : Prop :=
  ∀ index, Event.request en.event = some (.publicKeyChunk index) → (keptPath sdk hist).isSome

/-- What a display leaves in the slot. -/
def Stores (sdk : Sdk) (o : Outcome) (s : State) (r : Result) : Prop :=
  r.1.nvm.pk =
    if r.2.any Effect.isDerive && keyMade o then publicKey sdk s.ctx.bip32Path s.ctx.bip32PathLen
    else s.nvm.pk

theorem Stores.of_quiet (hpk : r.1.nvm.pk = s.nvm.pk) (hout : r.2.any Effect.isDerive = false) :
    Stores sdk o s r := by
  rw [Stores, hout]
  exact hpk

theorem addressFromBip32Path_pk (sdk : Sdk) (o : AddressOutcome) (p : Path) (n : UInt8)
    (pk : PublicKey) (address : Bytes addressSize) :
    (addressFromBip32Path sdk o p n pk address).2.1 =
      if o.derive = cxOk ∧ o.keygen = cxOk then publicKey sdk p n else pk := by
  unfold addressFromBip32Path
  by_cases hd : o.derive = cxOk
  swap
  · rw [if_pos hd, if_neg fun h => hd h.1]
  by_cases hk : o.keygen = cxOk
  swap
  · rw [if_neg (not_not.mpr hd), if_pos hk, if_neg fun h => hk h.2]
  rw [if_neg (not_not.mpr hd), if_neg (not_not.mpr hk), if_pos ⟨hd, hk⟩]
  cases o.hash <;> rfl

theorem uiDisplayTransactionBsChoice_stores (sdk : Sdk) (o : Outcome) (blind : Bool) (s : State) :
    Stores sdk o s (uiDisplayTransactionBsChoice sdk o blind s) := by
  have hpk := addressFromBip32Path_pk sdk o.address s.ctx.bip32Path s.ctx.bip32PathLen s.nvm.pk
    s.ctx.address
  unfold uiDisplayTransactionBsChoice
  split
  · exact .of_quiet rfl rfl
  simp only
  split
  · simpa [Stores, Result.after, Effect.isDerive, ioSendSw, keyMade] using hpk
  split
  · simpa [Stores, Result.after, Effect.isDerive, ioSendSw, keyMade] using hpk
  split
  · simpa [Stores, Result.after, Effect.isDerive, ioSendSw, keyMade] using hpk
  · simpa [Stores, Result.after, Effect.isDerive, nbglUseCase, keyMade] using hpk

theorem signTxReview_stores (sdk : Sdk) (o : Outcome) (s : State) :
    Stores sdk o s (signTxReview sdk o s) := by
  by_cases hrefuse : s.ctx.txInfo.txData.dataLen ≠ 0 ∧ s.nvm.enableBlindSigning = 0
  · rw [signTxReview, if_pos hrefuse]
    exact .of_quiet rfl rfl
  rw [signTxReview, if_neg hrefuse]
  split
  · simp only
    split
    · exact .of_quiet rfl rfl
    · exact uiDisplayTransactionBsChoice_stores sdk o false _
  split
  · exact uiDisplayTransactionBsChoice_stores sdk o true s
  · exact uiDisplayTransactionBsChoice_stores sdk o false s

theorem signTxParse_stores (sdk : Sdk) (o : Outcome) (s : State) :
    Stores sdk o s (signTxParse sdk o s) := by
  rcases signTxParse_cases sdk o s with ⟨-, mHash, heq⟩ | ⟨-, txData, -, heq⟩ | ⟨-, txData, -, heq⟩
  · rw [heq]
    exact .of_quiet rfl rfl
  · rw [heq]
    exact .of_quiet rfl rfl
  · rw [heq]
    exact signTxReview_stores sdk o (decoded sdk txData s)

theorem reviewChoice_stores (sdk : Sdk) (o : Outcome) (confirm : Bool) (s : State) :
    Stores sdk o s (reviewChoice sdk o confirm s) := by
  unfold reviewChoice
  simp only
  split
  · exact .of_quiet rfl rfl
  split
  · split
    · exact .of_quiet rfl rfl
    · exact uiDisplayTransactionBsChoice_stores sdk o true _
  · split
    · exact .of_quiet rfl rfl
    · exact uiDisplayTransactionBsChoice_stores sdk o true _

/-! ## What a step stores -/

theorem asksKey_of_publicKey {cdata : List UInt8} {display : Bool}
    (h : Event.request e = some (.publicKey cdata display)) : asksKey e = true := by
  obtain ⟨cmd, o, rfl, hcmd⟩ := command_of_request h id
  rcases requestOf_cases cmd with hfixed | ⟨hcla, hins, hzero, -⟩ | ⟨-, -, hsign⟩
  · rw [hcmd] at hfixed
    exact hfixed.elim
  · simp [asksKey, hcla, hins, hzero]
  · rw [hcmd, signRequest] at hsign
    split_ifs at hsign

theorem storesKey_of_confirm {pair : Pair} {confirm : Bool} (he : en.event = .answer confirm o)
    (hs : en.pre.screen = .confirm pair) :
    storesKey en = (en.out.any Effect.isDerive && keyMade o) := by
  simp only [storesKey, he, hs]
  rfl

theorem storesKey_of_request {q : Request} (hq : Event.request en.event = some q)
    (ho : Event.outcome en.event = some o) :
    storesKey en = (en.out.any Effect.isDerive && keyMade o) := by
  unfold storesKey
  split
  next he _ =>
    rw [he] at hq
    cases hq
  next => rw [ho]; rfl

/-- **One step**, other than a `GET_PUBLIC_KEY` P2 = 0, leaves the key of its
session in the slot, or what was there. -/
theorem step_pk (sdk : Sdk) (s : State) (h : asksKey e = false) :
    (step sdk s e).1.nvm.pk =
      if storesKey (entry sdk s e) then publicKey sdk s.ctx.bip32Path s.ctx.bip32PathLen
      else s.nvm.pk := by
  cases hq : Event.request e with
  | some q =>
    obtain ⟨o, ho⟩ := outcome_of_request hq
    rw [@storesKey_of_request o (entry sdk s e) q hq ho]
    show Stores sdk o s (step sdk s e)
    cases q with
    | signature p2 =>
      rcases (@step_signature sdk s _ _ hq).2 with ⟨-, hout⟩ | ⟨-, hout⟩
      · rw [hout]
        exact .of_quiet rfl rfl
      · rw [hout]
        unfold afterChunk
        split <;> exact .of_quiet rfl rfl
    | publicKey cdata display =>
      rw [asksKey_of_publicKey hq] at h
      cases h
    | first cdata =>
      obtain ⟨p, n, hst, hcase⟩ := signTxFirst_cases sdk cdata s
      have hpk : (signTxFirst sdk cdata s).1.nvm.pk = s.nvm.pk := by rw [hst]; rfl
      rw [step_request hq ho]
      rcases hcase with ⟨-, -, hout⟩ | ⟨-, hout⟩
      · exact .of_quiet hpk (by rw [serve, hout]; rfl)
      · exact .of_quiet hpk (by rw [serve, hout]; rfl)
    | more cdata =>
      rw [step_request hq ho]
      simp only [serve, signTxMore]
      split <;> exact .of_quiet rfl rfl
    | last cdata =>
      rw [step_request hq ho]
      simp only [serve, signTxLast]
      split
      · exact .of_quiet rfl rfl
      · exact signTxParse_stores sdk o _
    | publicKeyChunk index =>
      rw [step_request hq ho]
      simp only [serve, helperSendResponsePkChunk]
      split <;> exact .of_quiet rfl rfl
    | _ =>
      rw [step_request hq ho]
      exact .of_quiet rfl rfl
  | none =>
    rcases noRequest_cases hq with ⟨confirm, o, rfl⟩ | ⟨sw, rfl⟩ | rfl
    · cases hs : s.screen with
      | home => simp [step, onAnswer, storesKey, entry, Lib.Machine.entry, hs]
      | blindSigningError => simp [step, onAnswer, storesKey, entry, Lib.Machine.entry, hs]
      | confirm pair =>
        have hstep : step sdk s (.answer confirm o) = reviewChoice sdk o confirm s := by
          simp only [step, onAnswer, hs]
        rw [@storesKey_of_confirm o (entry sdk s (.answer confirm o)) pair confirm rfl hs]
        show Stores sdk o s (step sdk s (.answer confirm o))
        rw [hstep]
        exact reviewChoice_stores sdk o confirm s
      | transaction pairs blind =>
        have hkept : (transactionChoice sdk o confirm s).1.nvm.pk = s.nvm.pk := by
          cases confirm with
          | false => rfl
          | true =>
            rcases transactionChoice_cases sdk o s with ⟨-, hout⟩ | ⟨-, sig, effects, -, hout⟩
            · rw [hout]
              rfl
            · rw [hout]
        simpa [step, onAnswer, storesKey, entry, Lib.Machine.entry, hs] using hkept
      | address text =>
        have hkept : (addressChoice confirm s).1.nvm.pk = s.nvm.pk := by
          cases confirm <;> rfl
        have hquiet : (addressChoice confirm s).2.any Effect.isDerive = false := by
          cases confirm <;> rfl
        simpa [step, onAnswer, storesKey, entry, Lib.Machine.entry, hs, Event.outcome, hquiet]
          using hkept
    · cases sw <;> rfl
    · rfl

/-- A `GET_PUBLIC_KEY` P2 = 0 that succeeds derives its key and its address. -/
theorem step_derived {p : Path} {n : UInt8} (h : derivedPath sdk e = some (p, n)) :
    ∃ cdata display o, Event.request e = some (.publicKey cdata display) ∧
      acceptedPath sdk cdata = some (p, n) ∧ KeyOk o ∧
      KeyAsked sdk o cdata display s (step sdk s e) := by
  unfold derivedPath at h
  split at h
  next cdata display o hq ho =>
    split at h
    next hok => exact ⟨cdata, display, o, hq, h, hok, step_publicKey hq ho⟩
    next => cases h
  next => cases h

/-- It leaves them in the slot and in the context, and sends just these. -/
theorem KeyAsked.derived {cdata : List UInt8} {display : Bool} {p : Path} {n : UInt8}
    (h : KeyAsked sdk o cdata display s r) (hpath : acceptedPath sdk cdata = some (p, n))
    (hok : KeyOk o) :
    r.1.nvm.pk = publicKey sdk p n ∧ r.1.ctx.address = addressOf sdk (publicKey sdk p n) ∧
      ∀ data, Effect.sendResponse .address data ∈ r.2 →
        data = zondAddressPrefix :: (addressOf sdk (publicKey sdk p n)).toList := by
  cases h with
  | refused p' n' hno =>
    rw [hpath] at hno
    cases hno
  | failed p' n' pk address error _ hno => exact absurd hok hno
  | answered p' n' hpath' _ _ =>
    cases hpath.symm.trans hpath'
    exact ⟨rfl, rfl, by simp⟩
  | unshown p' n' hpath' _ _ =>
    cases hpath.symm.trans hpath'
    exact ⟨rfl, rfl, by simp⟩
  | shown p' n' text hpath' _ _ =>
    cases hpath.symm.trans hpath'
    exact ⟨rfl, rfl, by simp⟩

/-! ## The invariant -/

/-- The slot holds the key that is kept. -/
def HoldsKept (sdk : Sdk) (hist : History) (s : State) : Prop :=
  ∀ p n, keptPath sdk hist = some (p, n) → s.nvm.pk = publicKey sdk p n

theorem HoldsKept.step (hinv : HoldsKept sdk hist s) (e : Event) :
    HoldsKept sdk (entry sdk s e :: hist) (step sdk s e).1 := by
  intro p n hkept
  cases hask : asksKey e with
  | true =>
    have hpath : derivedPath sdk e = some (p, n) := by
      rwa [keptPath, if_pos (show asksKey (entry sdk s e).event = true from hask)] at hkept
    obtain ⟨cdata, display, o, -, hacc, hok, hasked⟩ := @step_derived sdk s e p n hpath
    exact (KeyAsked.derived hasked hacc hok).1
  | false =>
    rw [keptPath, if_neg (by simp [entry, Lib.Machine.entry, hask])] at hkept
    rw [step_pk sdk s hask]
    split at hkept
    next hstores =>
      obtain ⟨-, hsame⟩ := Option.filter_eq_some_iff.mp hkept
      rw [if_pos hstores]
      simp only [beq_iff_eq, Prod.mk.injEq] at hsame
      rw [hsame.1, hsame.2]
      rfl
    next hstores =>
      rw [if_neg hstores]
      exact hinv p n hkept

theorem holdsKept_of_run {ok : History → State → Event → Prop} (h : Run sdk ok hist s) :
    HoldsKept sdk hist s := by
  refine h.invariant ?_ fun hist s e _ hinv _ => hinv.step e
  intro s _ p n hkept
  cases hkept

/-- A key that is kept is that of the latest request. -/
theorem latestAsk_of_keptPath {p : Path} {n : UInt8} (h : keptPath sdk hist = some (p, n)) :
    ∃ d, latestAsk hist = some d ∧ derivedPath sdk d.event = some (p, n) := by
  induction hist with
  | nil => cases h
  | cons en hist ih =>
    rw [keptPath] at h
    cases hask : asksKey en.event with
    | true =>
      rw [if_pos hask] at h
      exact ⟨en, by simp [latestAsk, hask], h⟩
    | false =>
      rw [if_neg (by simp [hask])] at h
      have hlatest : latestAsk (en :: hist) = latestAsk hist := by simp [latestAsk, hask]
      rw [hlatest]
      split at h
      next => exact ih (Option.filter_eq_some_iff.mp h).1
      next => exact ih h

/-! ## The chunks -/

/-- A chunk is a slice of what is in the slot. -/
theorem step_chunk {index : UInt8} {reads : List Nat} {data : List UInt8}
    (hq : Event.request e = some (.publicKeyChunk index))
    (hmem : Effect.sendResponse (.publicKey reads) data ∈ (step sdk s e).2) :
    data = pkChunk s.nvm.pk index.toNat := by
  obtain ⟨o, ho⟩ := outcome_of_request hq
  have hlen : s.nvm.pk.toList.length = mldsa87PublicKeyBytes := s.nvm.pk.size_eq
  rw [step_request hq ho, serve, helperSendResponsePkChunk] at hmem
  split at hmem
  next => simp at hmem
  next hindex =>
    simp only [ioSendResponsePointer, List.mem_singleton, Effect.sendResponse.injEq] at hmem
    rw [hmem.2, pkChunk]
    by_cases hlast : index.toNat < pkChunks - 1
    · have hfit : index.toNat * pkChunkSize + pkChunkSize ≤ mldsa87PublicKeyBytes := by
        simp only [pkChunks, pkChunkSize, mldsa87PublicKeyBytes] at hlast ⊢
        omega
      rw [if_pos hlast, readAll_chunkReads (hfit.trans_eq hlen.symm)]
    · have hten : index.toNat = pkChunks - 1 := by
        simp only [pkChunks] at hindex hlast ⊢
        omega
      -- the last slice is cut short by the end of the key
      rw [if_neg hlast, hten, readAll_chunkReads (by rw [hlen]; decide),
        List.take_of_length_le (by rw [List.length_drop, hlen]; decide),
        List.take_of_length_le (by rw [List.length_drop, hlen]; decide)]

/-- The chunks, in order, are the key. -/
theorem flatMap_pkChunk (pk : PublicKey) :
    (List.range pkChunks).flatMap (pkChunk pk) = pk.toList := by
  have hlen : pk.toList.length = mldsa87PublicKeyBytes := pk.size_eq
  have hall : (List.range pkChunks).flatMap (pkChunk pk) = pk.toList.take (pkChunks * pkChunkSize) :=
    Lib.Slices.flatMap_slice pkChunkSize pk.toList pkChunks
  rw [hall, List.take_of_length_le]
  rw [hlen]
  decide

/-! ## The address that is returned -/

/-- Besides a `GET_PUBLIC_KEY` only the approval of an address sends one: the
address of the context. -/
theorem step_address {data : List UInt8} (hask : asksKey e = false)
    (hmem : Effect.sendResponse .address data ∈ (step sdk s e).2) :
    (∃ text, s.screen = .address text) ∧ data = zondAddressPrefix :: s.ctx.address.toList := by
  have hdid := step_did sdk s e
  generalize hr : step sdk s e = r at hdid hmem
  cases hdid with
  | @fixed _ q eff hq hfix _ _ _ =>
    obtain ⟨o, ho⟩ := outcome_of_request hq
    rw [step_request hq ho, ← List.mem_singleton.mp hmem] at hr
    cases q with
    | refused sw => simp [serve, ioSendSw] at hr
    | version => simp [serve, handlerGetVersion, ioSendResponsePointer] at hr
    | appName => simp [serve, handlerGetAppName, ioSendResponsePointer] at hr
    | publicKeyChunk index =>
      simp only [serve, helperSendResponsePkChunk] at hr
      split at hr
      · simp [ioSendSw] at hr
      · simp [ioSendResponsePointer] at hr
    | _ => exact hfix.elim
  | refusedChunk sw _ _ _ => simp at hmem
  | appended rawTx _ _ _ => simp at hmem
  | parsed o rawTx _ _ _ _ hp => exact absurd hmem (hp.settled.noResponse _ _)
  | opened p n sw _ _ => simp at hmem
  | noSignature _ _ => simp at hmem
  | chunkSent _ _ _ _ => simp at hmem
  | keyServed hq _ =>
    rw [asksKey_of_publicKey hq] at hask
    cases hask
  | denied o _ => simp at hmem
  | walked o next _ _ => simp at hmem
  | walkEnded o _ _ hd => exact absurd hmem (hd.noResponse _ _)
  | signed o _ _ => simp [signedEffects] at hmem
  | unsigned o sig effects _ _ huse =>
    simp only [List.mem_append, List.mem_singleton, reduceCtorEq, or_false] at hmem
    rcases huse _ hmem with h | ⟨-, h⟩ | ⟨sig, h⟩ <;> cases h
  | addressApproved o hs =>
    simp only [List.mem_singleton, Effect.sendResponse.injEq, true_and] at hmem
    exact ⟨⟨_, hs⟩, hmem⟩
  | dismissed confirm o _ => simp at hmem
  | toggled sw => simp at hmem
  | restarted => simp at hmem

/-- While an address is on screen, nothing but a `GET_PUBLIC_KEY` put it there
or changes it. -/
theorem step_addressScreen {text : List Char} (hserial : Serial hist s e)
    (hask : asksKey e = false) (hscr : (step sdk s e).1.screen = .address text) :
    s.screen = .address text ∧ (step sdk s e).1.ctx.address = s.ctx.address := by
  have hdid := step_did sdk s e
  generalize step sdk s e = r at hdid hscr
  -- a request is served while no review is on screen
  have hhome : ∀ {q : Request}, Event.request e = some q → s.screen ≠ .address text := by
    intro q hq haddress
    have hno : s.screen.isReview = false := serial_request hserial hq
    rw [haddress] at hno
    cases hno
  cases hdid with
  | fixed eff hq _ _ _ _ => exact ⟨hscr, rfl⟩
  | refusedChunk sw _ _ _ => exact ⟨hscr, rfl⟩
  | appended rawTx _ _ _ => exact ⟨hscr, rfl⟩
  | parsed o rawTx hq _ _ _ hp =>
    have hno : s.screen.isReview = false := serial_request hserial hq
    exact absurd hscr (hp.settled.notAddress (Screen.ne_address hno) text)
  | opened p n sw hq _ => exact absurd hscr (hhome hq)
  | noSignature _ _ => exact ⟨hscr, rfl⟩
  | @chunkSent _ p2 hq _ _ _ =>
    have hkept : (afterChunk p2 s).screen = s.screen := by
      unfold afterChunk
      split <;> rfl
    exact absurd (hkept.symm.trans hscr) (hhome hq)
  | keyServed hq _ =>
    rw [asksKey_of_publicKey hq] at hask
    cases hask
  | denied o _ => cases hscr
  | walked o next _ _ => cases hscr
  | walkEnded o hs _ hd =>
    exact absurd hscr (hd.notAddress (fun text haddress => by cases hs.symm.trans haddress) text)
  | signed o _ _ => cases hscr
  | unsigned o sig effects _ _ _ => cases hscr
  | addressApproved o _ => cases hscr
  | dismissed confirm o _ => cases hscr
  | toggled sw => exact ⟨hscr, rfl⟩
  | restarted => cases hscr

/-- The address on screen is that of the latest request. -/
def ShowsLatest (sdk : Sdk) (hist : History) (s : State) : Prop :=
  ∀ text d p n, s.screen = .address text → latestAsk hist = some d →
    derivedPath sdk d.event = some (p, n) → s.ctx.address = addressOf sdk (publicKey sdk p n)

theorem ShowsLatest.step (hinv : ShowsLatest sdk hist s) (hserial : Serial hist s e) :
    ShowsLatest sdk (entry sdk s e :: hist) (App.step sdk s e).1 := by
  intro text d p n hscr hlatest hpath
  cases hask : asksKey e with
  | true =>
    have hd : latestAsk (entry sdk s e :: hist) = some (entry sdk s e) := by
      simp [latestAsk, entry, Lib.Machine.entry, hask]
    cases hd.symm.trans hlatest
    obtain ⟨cdata, display, o, -, hacc, hok, hasked⟩ := @step_derived sdk s e p n hpath
    exact (KeyAsked.derived hasked hacc hok).2.1
  | false =>
    obtain ⟨hpre, hkept⟩ := step_addressScreen hserial hask hscr
    have hd : latestAsk (entry sdk s e :: hist) = latestAsk hist := by
      simp [latestAsk, entry, Lib.Machine.entry, hask]
    rw [hkept]
    exact hinv text d p n hpre (hd.symm.trans hlatest) hpath

theorem showsLatest_of_run (h : Run sdk Serial hist s) : ShowsLatest sdk hist s := by
  refine h.invariant ?_ fun hist s e _ hinv hserial => hinv.step hserial
  intro s _ text d p n _ hlatest
  cases hlatest

/-! ## The chunks and the address belong together -/

/-- A chunk of a public key is sent. -/
def SendsChunk (en : Entry) (index : Nat) (data : List UInt8) : Prop :=
  ∃ i reads, Event.request en.event = some (.publicKeyChunk i) ∧ i.toNat = index ∧
    Effect.sendResponse (.publicKey reads) data ∈ en.out

/-- What is sent since the `GET_PUBLIC_KEY` `d`, which derived the key of the
path `p`, belongs to that path. -/
structure Belongs (sdk : Sdk) (newer older : History) (d : Entry) (p : Path) (n : UInt8) :
    Prop where
  /-- Any chunks, one of each index, are the key. -/
  chunks : ∀ chunks : Nat → List UInt8,
    (∀ i < pkChunks, ∃ en ∈ newer, SendsChunk en i (chunks i)) →
    (List.range pkChunks).flatMap chunks = (publicKey sdk p n).toList
  answered : ∀ data, Effect.sendResponse .address data ∈ d.out →
    data = zondAddressPrefix :: (addressOf sdk (publicKey sdk p n)).toList
  /-- An address that is sent once the user has approved it. -/
  approved : Throughout (fun hist en => Serial hist en.pre en.event) (newer ++ d :: older) →
    ∀ en ∈ newer, ∀ data, Effect.sendResponse .address data ∈ en.out →
      data = zondAddressPrefix :: (addressOf sdk (publicKey sdk p n)).toList

/-- The chunks sent since a `GET_PUBLIC_KEY` that succeeded reassemble to the
key whose address it returned. -/
def Reassembles (sdk : Sdk) (hist : History) : Prop :=
  ∀ newer d older p n, hist = newer ++ d :: older → derivedPath sdk d.event = some (p, n) →
    (∀ en ∈ newer, asksKey en.event = false) → Belongs sdk newer older d p n

theorem latestAsk_append {between : History} {d : Entry}
    (hno : ∀ en ∈ between, asksKey en.event = false) (hd : asksKey d.event = true) : latestAsk (between ++ d :: older) = some d := by
  have hskip : between.find? (fun en => asksKey en.event) = none :=
    List.find?_eq_none.mpr fun en hen => by simp [hno en hen]
  rw [latestAsk, List.find?_append, hskip]
  simp [hd]

theorem asksKey_of_derivedPath {p : Path} {n : UInt8} (h : derivedPath sdk e = some (p, n)) :
    asksKey e = true := by
  obtain ⟨cdata, display, o, hq, -⟩ := @step_derived sdk (startUp .zero) e p n h
  exact asksKey_of_publicKey hq

/-- A step behind a kept key sends chunks of just that. -/
theorem sendsDerived_of_run {ok : History → State → Event → Prop} (h : Run sdk ok hist s)
    (hkept : Throughout (KeyKept sdk) hist) : Throughout (SendsDerived sdk) hist := by
  refine h.throughout ?_ hkept
  intro en hist s hrun _ hkeeps index reads data hq hmem
  obtain ⟨hbefore, -, hen, -⟩ := hrun.last
  obtain ⟨⟨p, n⟩, hpath⟩ := Option.isSome_iff_exists.mp (hkeeps index hq)
  obtain ⟨d, hlatest, hderived⟩ := latestAsk_of_keptPath hpath
  refine ⟨d, p, n, hlatest, hderived, ?_⟩
  rw [← holdsKept_of_run hbefore p n hpath]
  rw [hen] at hmem
  exact step_chunk hq hmem

/-- An address that the user approved is that of the latest request. -/
def ApprovesLatest (sdk : Sdk) (hist : History) (en : Entry) : Prop :=
  asksKey en.event = false → ∀ data, Effect.sendResponse .address data ∈ en.out →
    ∀ d p n, latestAsk hist = some d → derivedPath sdk d.event = some (p, n) →
      data = zondAddressPrefix :: (addressOf sdk (publicKey sdk p n)).toList

theorem approvesLatest_of_run (h : Run sdk Serial hist s) : Throughout (ApprovesLatest sdk) hist := by
  refine h.throughout_of_step ?_
  intro hist s e hrun _ hask data hmem d p n hlatest hpath
  obtain ⟨⟨text, hscr⟩, hdata⟩ := step_address hask hmem
  rw [hdata, showsLatest_of_run hrun text d p n hscr hlatest hpath]

theorem belongs_of_run {ok : History → State → Event → Prop} {d : Entry} {p : Path} {n : UInt8}
    (h : Run sdk ok (newer ++ d :: older) s)
    (hsends : Throughout (SendsDerived sdk) (newer ++ d :: older))
    (hpath : derivedPath sdk d.event = some (p, n))
    (hno : ∀ en ∈ newer, asksKey en.event = false) : Belongs sdk newer older d p n where
  chunks chunks hall := by
    rw [← flatMap_pkChunk]
    refine List.flatMap_congr ?_
    intro i hi
    obtain ⟨en, hen, index, reads, hq, rfl, hmem⟩ := hall i (List.mem_range.mp hi)
    obtain ⟨between, hsub, hsent⟩ := hsends.of_mem hen
    obtain ⟨d', p', n', hlatest, hpath', hdata⟩ := hsent index reads _ hq hmem
    have hd : latestAsk (between ++ d :: older) = some d :=
      latestAsk_append (fun en hen => hno en (hsub en hen)) (asksKey_of_derivedPath hpath)
    cases hd.symm.trans hlatest
    cases hpath.symm.trans hpath'
    exact hdata
  answered data hmem := by
    have hd := h.genuine d (List.mem_append_right _ List.mem_cons_self)
    obtain ⟨cdata, display, o, -, hacc, hok, hasked⟩ := @step_derived sdk d.pre d.event p n hpath
    rw [hd] at hmem
    exact (KeyAsked.derived hasked hacc hok).2.2 data hmem
  approved hserial en hen data hmem := by
    obtain ⟨between, hsub, happroves⟩ := (approvesLatest_of_run (h.restrict hserial)).of_mem hen
    exact happroves (hno en hen) data hmem d p n
      (latestAsk_append (fun en hen => hno en (hsub en hen)) (asksKey_of_derivedPath hpath)) hpath

/-- **Chunks belong to the address** in every run in which chunks are asked for
only while the key of the latest `GET_PUBLIC_KEY` is kept. -/
theorem run_sendsDerived {ok : History → State → Event → Prop} (h : Run sdk ok hist s)
    (hkept : Throughout (KeyKept sdk) hist) :
    Throughout (SendsDerived sdk) hist ∧ Reassembles sdk hist := by
  have hsends := sendsDerived_of_run h hkept
  refine ⟨hsends, ?_⟩
  intro newer d older p n hhist hpath hno
  subst hhist
  exact belongs_of_run h hsends hpath hno

/-! ## A chunk without a request -/

/-- A `GET_PUBLIC_KEY` whose calls all succeed. -/
def getPublicKey (p2 : UInt8) (data : List UInt8) (h : data.length ≤ 255) : Event :=
  .apdu (some ⟨cla, insGetPublicKey, 0, p2, data, h⟩) (.good (.zero _))

/-- Two chunks, with a review of the same path between, the latest event first. -/
def reviewBetween : List Event :=
  [getPublicKey 2 [] noData_fits, approve,
    signTx 2 0 DecodeGrammar.validCreation validCreation_fits,
    signTx 0 0 canonicalPath canonicalPath_fits, getPublicKey 1 [] noData_fits,
    getPublicKey 0 canonicalPath canonicalPath_fits]

theorem reviewBetween_sendsDerived :
    Throughout (SendsDerived testSdk) (runOf testSdk reviewBetween).1 ∧
      Reassembles testSdk (runOf testSdk reviewBetween).1 := by
  have hkept : (keptPath testSdk (runOf testSdk (reviewBetween.drop 1)).1).isSome ∧
      (keptPath testSdk (runOf testSdk (reviewBetween.drop 5)).1).isSome := by decide
  have hrun : Run testSdk Serial (runOf testSdk reviewBetween).1 (runOf testSdk reviewBetween).2 :=
    Lib.Machine.Run.exec ⟨.zero, rfl⟩ reviewBetween (by decide)
  refine run_sendsDerived hrun ⟨?_, ?_, ?_, ?_, ?_, ?_, trivial⟩
  · exact fun _ _ => hkept.1
  · intro index hq
    cases hq
  · intro index hq
    cases hq
  · intro index hq
    cases hq
  · exact fun _ _ => hkept.2
  · intro index hq
    cases hq

/-- A fresh device sends a chunk of a key that it has not derived. -/
theorem freshChunk_not_derived :
    Run testSdk Serial (runOf testSdk [getPublicKey 1 [] (by decide)]).1
        (runOf testSdk [getPublicKey 1 [] (by decide)]).2 ∧
      ¬Throughout (SendsDerived testSdk) (runOf testSdk [getPublicKey 1 [] (by decide)]).1 := by
  refine ⟨Lib.Machine.Run.exec ⟨.zero, rfl⟩ _ (by decide), ?_⟩
  intro hsends
  obtain ⟨d, p, n, hlatest, -⟩ := hsends.1 0 _ _ rfl List.mem_cons_self
  cases hlatest

end LedgerZond.PublicKeyChunks
