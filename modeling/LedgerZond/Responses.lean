import LedgerZond.SignatureRelease
import LedgerZond.PublicKey

/-! # What the responses are made of

Besides status words the application sends its version, its name, the address
of its context, and slices of the stored key and signature. Each of them fits
the array it is put together in, and no slice is read from behind the end of
what is stored: in every state, whatever came before. -/
namespace LedgerZond.Responses
open LedgerZond.CTypes LedgerZond.Types LedgerZond.Platform LedgerZond.AppState LedgerZond.Address
open LedgerZond.App LedgerZond.Requests LedgerZond.Displays LedgerZond.PublicKey LedgerZond.Steps
open LedgerZond.SignatureRelease

/-- The bytes of a response as read off the state that is left, `resp` holding
as many of them as it is declared for. -/
def Sends (s : State) : Source → List UInt8 → Prop
  | .version, data => data = [2, 2, 2]
  | .appName, data => data = [0x51, 0x52, 0x4C, 0x20, 0x76, 0x32, 0x2E, 0x30]
  | .address, data =>
    data = zondAddressPrefix :: s.ctx.address.toList ∧ data.length = 1 + addressSize
  | .publicKey reads, data =>
    data = readAll s.nvm.pk.toList reads ∧ data.length ≤ pkChunkSize ∧
      ∀ a ∈ reads, a < mldsa87PublicKeyBytes
  | .signature reads _ _, data =>
    data = readAll s.nvm.sig.toList reads ∧ data.length ≤ signatureChunkSize ∧
      ∀ a ∈ reads, a < mldsa87SigBytes

variable {sdk : Sdk} {s : State} {e : Event} {r : Result} {o : Outcome} {source : Source}
  {data cdata : List UInt8} {display : Bool}

/-- Every response among what is let out is made of what is left behind. -/
def Responds (r : Result) : Prop :=
  ∀ source data, Effect.sendResponse source data ∈ r.2 → Sends r.1 source data

theorem responds_none (h : ∀ source data, Effect.sendResponse source data ∉ r.2) : Responds r :=
  fun source data hmem => absurd hmem (h source data)

theorem responds_sw (sw : UInt16) (s : State) : Responds (s, [.sendSw sw]) :=
  responds_none (by simp)

theorem length_readAll (array : List UInt8) (index count size : Nat) :
    (readAll array (chunkReads index count size)).length = count := by
  simp [readAll, chunkReads]

theorem sends_address (s : State) : Sends s .address (zondAddressPrefix :: s.ctx.address.toList) := by
  have hlen : s.ctx.address.toList.length = addressSize := s.ctx.address.size_eq
  refine ⟨rfl, ?_⟩
  rw [List.length_cons, hlen, Nat.add_comm]

/-! ## The key -/

/-- The chunks of the key are cut so that none reaches behind it. -/
theorem pkChunk_fits {index count : Nat} (hindex : index < pkChunks)
    (hcount : count = if index < pkChunks - 1 then pkChunkSize else pkLastChunkSize) :
    count ≤ pkChunkSize ∧ index * pkChunkSize + count ≤ mldsa87PublicKeyBytes := by
  rw [hcount]
  by_cases hmore : index < pkChunks - 1
  · rw [if_pos hmore]
    simp only [pkChunks, pkChunkSize, mldsa87PublicKeyBytes] at hmore ⊢
    omega
  · rw [if_neg hmore]
    simp only [pkChunks, pkChunkSize, pkLastChunkSize, mldsa87PublicKeyBytes] at hindex ⊢
    omega

theorem responds_pkChunk (index : UInt8) (s : State) :
    Responds (helperSendResponsePkChunk index s) := by
  unfold helperSendResponsePkChunk
  split
  · exact responds_sw _ s
  · rename_i hindex
    intro source data hmem
    simp only [ioSendResponsePointer, List.mem_singleton, Effect.sendResponse.injEq] at hmem
    obtain ⟨rfl, rfl⟩ := hmem
    obtain ⟨hsize, hfit⟩ := pkChunk_fits (Nat.lt_of_not_le hindex) rfl
    exact ⟨rfl, by rw [length_readAll]; exact hsize, chunkReads_lt hfit⟩

theorem responds_publicKey (h : KeyAsked sdk o cdata display s r) : Responds r := by
  cases h with
  | refused p n _ => exact responds_sw _ _
  | failed p n pk address error _ _ => exact responds_none (by simp)
  | answered p n _ _ _ =>
    intro source data hmem
    simp only [List.mem_cons, reduceCtorEq, Effect.sendResponse.injEq, List.not_mem_nil, or_false,
      false_or] at hmem
    obtain ⟨rfl, rfl⟩ := hmem
    exact sends_address (derivedKey sdk p n s)
  | unshown p n _ _ _ => exact responds_none (by simp)
  | shown p n text _ _ _ => exact responds_none (by simp)

/-! ## The signature -/

theorem sends_signature {index : UInt8} (h : index.toNat ≤ 17) (s : State) (ty : RequestType)
    (st : SessionState) : Sends s (.signature (signatureReads index) ty st)
      (readAll s.nvm.sig.toList (signatureReads index)) := by
  refine ⟨rfl, ?_, (signatureReads_chunk s.nvm.sig h).1⟩
  rw [signatureReads, length_readAll]
  split
  · exact Nat.le_refl _
  · decide

theorem responds_signature {index : UInt8} (hq : Event.request e = some (.signature index)) :
    Responds (step sdk s e) := by
  obtain ⟨⟨-, h17⟩, ⟨-, hstep⟩ | ⟨-, hstep⟩⟩ := @step_signature sdk s e index hq
  · rw [hstep]
    exact responds_sw _ s
  · rw [hstep]
    intro source data hmem
    simp only [List.mem_singleton, Effect.sendResponse.injEq] at hmem
    obtain ⟨rfl, rfl⟩ := hmem
    have hsig : (afterChunk index s).nvm.sig = s.nvm.sig := by
      unfold afterChunk
      split
      · rfl
      · rfl
    rw [← hsig]
    exact sends_signature h17 (afterChunk index s) _ _

theorem responds_signed (sig : Signature) : Responds (signedState sig s, signedEffects sdk sig s) := by
  intro source data hmem
  simp only [signedEffects, List.mem_cons, reduceCtorEq, Effect.sendResponse.injEq, List.not_mem_nil,
    or_false, false_or] at hmem
  obtain ⟨rfl, rfl⟩ := hmem
  exact @sends_signature 0 (by decide) (signedState sig s) _ _

/-! ## Every step -/

theorem responds_noRequest (hq : Event.request e = none) : Responds (step sdk s e) := by
  have hdid := step_did sdk s e
  generalize step sdk s e = r at hdid ⊢
  cases hdid with
  | denied o _ => exact responds_sw _ _
  | walked o next _ _ => exact responds_none (by simp)
  | walkEnded o _ _ hd => exact responds_none hd.noResponse
  | signed o _ _ => exact responds_signed o.sign.sig
  | unsigned o sig effects _ _ huses =>
    refine responds_none fun source data hmem => ?_
    rcases List.mem_append.mp hmem with hmem | hmem
    · rcases huses _ hmem with h | ⟨-, h⟩ | ⟨sig, h⟩
      · cases h
      · cases h
      · cases h
    · simp at hmem
  | addressApproved o _ =>
    intro source data hmem
    simp only [List.mem_singleton, Effect.sendResponse.injEq] at hmem
    obtain ⟨rfl, rfl⟩ := hmem
    exact sends_address { s with ctx := { s.ctx with state := .approved }, screen := .home }
  | dismissed confirm o _ => exact responds_none (by simp)
  | toggled sw => exact responds_none (by simp)
  | restarted => exact responds_none (by simp)
  | fixed eff hreq _ _ _ _ => cases hq.symm.trans hreq
  | refusedChunk sw hreq _ _ =>
    rcases hreq with hreq | hreq
    · cases hq.symm.trans hreq
    · cases hq.symm.trans hreq
  | appended rawTx hreq _ _ => cases hq.symm.trans hreq
  | parsed o rawTx hreq _ _ _ _ => cases hq.symm.trans hreq
  | opened p n sw hreq _ => cases hq.symm.trans hreq
  | noSignature hreq _ => cases hq.symm.trans hreq
  | chunkSent hreq _ _ _ => cases hq.symm.trans hreq
  | keyServed hreq _ => cases hq.symm.trans hreq

theorem responds_more (cdata : List UInt8) (s : State) : Responds (signTxMore sdk cdata s) := by
  unfold signTxMore
  cases appendChunk sdk cdata s.ctx with
  | error sw => exact responds_sw sw s
  | ok rawTx => exact responds_sw swOk _

theorem responds_last (o : Outcome) (cdata : List UInt8) (s : State) :
    Responds (signTxLast sdk o cdata s) := by
  unfold signTxLast
  cases appendChunk sdk cdata s.ctx with
  | error sw => exact responds_sw sw s
  | ok rawTx => exact responds_none (signTxParse_parsed sdk o _).settled.noResponse

theorem step_responds (sdk : Sdk) (s : State) (e : Event) : Responds (step sdk s e) := by
  cases hq : Event.request e with
  | none => exact responds_noRequest hq
  | some q =>
    obtain ⟨o, ho⟩ := outcome_of_request hq
    cases q with
    | more cdata =>
      rw [step_request hq ho]
      exact responds_more cdata s
    | last cdata =>
      rw [step_request hq ho]
      exact responds_last o cdata s
    | signature index => exact responds_signature hq
    | publicKey cdata display => exact responds_publicKey (step_publicKey hq ho)
    | refused sw =>
      rw [step_request hq ho]
      exact responds_sw sw s
    | version =>
      rw [step_request hq ho]
      intro source data hmem
      simp only [serve, handlerGetVersion, ioSendResponsePointer, List.mem_singleton,
        Effect.sendResponse.injEq] at hmem
      obtain ⟨rfl, rfl⟩ := hmem
      exact rfl
    | appName =>
      rw [step_request hq ho]
      intro source data hmem
      simp only [serve, handlerGetAppName, ioSendResponsePointer, List.mem_singleton,
        Effect.sendResponse.injEq] at hmem
      obtain ⟨rfl, rfl⟩ := hmem
      exact rfl
    | publicKeyChunk index =>
      rw [step_request hq ho]
      exact responds_pkChunk index s
    | first cdata =>
      rw [step_request hq ho, serve]
      obtain ⟨p, n, -, ⟨-, -, hout⟩ | ⟨-, hout⟩⟩ := signTxFirst_cases sdk cdata s
      · exact responds_none (by simp [hout])
      · exact responds_none (by simp [hout])

/-- **What the responses of a run are made of**, whatever restricts its events. -/
theorem run_responds {ok : History → State → Event → Prop} {hist : History}
    (h : Run sdk ok hist s) : Lib.Machine.Throughout (fun _ en => ∀ source data,
      Effect.sendResponse source data ∈ en.out → Sends en.post source data) hist :=
  h.throughout_of_step fun _ s e _ _ => step_responds sdk s e

/-- The first chunk of the signature of the contract creation, among others. -/
theorem interrupted_responds : Lib.Machine.Throughout (fun _ en => ∀ source data,
    Effect.sendResponse source data ∈ en.out → Sends en.post source data)
    (entry SignedBytes.creationSdk SignedBytes.reviewed.2 approve :: SignedBytes.reviewed.1) :=
  run_responds SignedBytes.interrupted_run

end LedgerZond.Responses
