import LedgerZond.App

/-! # What is asked of the application

The dispatcher as a choice among requests, and what the two requests that
take in data ask of it: the path of a session and the chunks of a
transaction. -/
namespace LedgerZond.Requests
open LedgerZond.CTypes LedgerZond.Types LedgerZond.Platform LedgerZond.AppState
open LedgerZond.Address LedgerZond.App

/-! ## Requests -/

/-- What the dispatcher makes of a command. -/
inductive Request where
  | refused (sw : UInt16)
  | version
  | appName
  | publicKeyChunk (index : UInt8)
  | publicKey (cdata : List UInt8) (display : Bool)
  | first (cdata : List UInt8)
  | more (cdata : List UInt8)
  | last (cdata : List UInt8)
  | signature (p2 : UInt8)
deriving DecidableEq

/-- A request whose answer neither reads nor changes the session. -/
def Request.IsFixed : Request → Prop
  | .refused _ => True
  | .version => True
  | .appName => True
  | .publicKeyChunk _ => True
  | _ => False

def signRequest (cdata : List UInt8) (p1 p2 : UInt8) : Request :=
  if p1 = 0 then .first cdata
  else if p1 = 1 then .more cdata
  else if p1 = 2 ∧ p2 = 0 then .last cdata
  else if p1 = 2 ∧ p2 > 0 ∧ p2 < 18 then .signature p2
  else .refused swWrongP1P2

def requestOf (cmd : Command) : Request :=
  if cmd.cla ≠ cla then .refused swClaNotSupported
  else if cmd.ins = insGetVersion then
    if cmd.p1 ≠ 0 ∨ cmd.p2 ≠ 0 then .refused swWrongP1P2 else .version
  else if cmd.ins = insGetAppName then
    if cmd.p1 ≠ 0 ∨ cmd.p2 ≠ 0 then .refused swWrongP1P2 else .appName
  else if cmd.ins = insGetPublicKey then
    if cmd.p1 > 1 ∨ cmd.p2 > 11 then .refused swWrongP1P2
    else if cmd.p2 > 0 then .publicKeyChunk (cmd.p2 - 1)
    else if cmd.data = [] then .refused swWrongDataLength
    else .publicKey cmd.data (cmd.p1 ≠ 0)
  else if cmd.ins = insSignTx then
    if cmd.data = [] ∧ cmd.p2 = 0 then .refused swWrongDataLength
    else signRequest cmd.data cmd.p1 cmd.p2
  else .refused swInsNotSupported

def serve (sdk : Sdk) (o : Outcome) (s : State) : Request → Result
  | .refused sw => ioSendSw sw s
  | .version => handlerGetVersion s
  | .appName => handlerGetAppName s
  | .publicKeyChunk index => helperSendResponsePkChunk index s
  | .publicKey cdata display => handlerGetPublicKey sdk o cdata display s
  | .first cdata => signTxFirst sdk cdata s
  | .more cdata => signTxMore sdk cdata s
  | .last cdata => signTxLast sdk o cdata s
  | .signature p2 => signTxSignature p2 s

theorem handlerSignTx_eq (sdk : Sdk) (o : Outcome) (cdata : List UInt8) (p1 p2 : UInt8)
    (s : State) :
    handlerSignTx sdk o cdata p1 p2 s = serve sdk o s (signRequest cdata p1 p2) := by
  simp only [handlerSignTx, signRequest, apply_ite (serve sdk o s)]
  rfl

/-- The dispatcher only chooses; its test for `p2 < 0` never holds. -/
theorem apduDispatcher_eq (sdk : Sdk) (o : Outcome) (cmd : Command) (s : State) :
    apduDispatcher sdk o cmd s = serve sdk o s (requestOf cmd) := by
  have hnever : ¬(cmd.p1 ≠ dataFirst ∧ cmd.p1 ≠ dataMore ∧ cmd.p1 ≠ dataLast ∧ cmd.p2 < 0 ∧
      cmd.p2 > 17) := by
    intro hguard
    obtain ⟨-, -, -, h, -⟩ := hguard
    exact absurd h (by simp [UInt8.lt_iff_toNat_lt])
  rw [apduDispatcher, if_neg hnever]
  simp only [requestOf, apply_ite (serve sdk o s), handlerSignTx_eq]
  rfl

def Event.request : Event → Option Request
  | .apdu none _ => some (.refused swWrongDataLength)
  | .apdu (some cmd) _ => some (requestOf cmd)
  | _ => none

/-- The payload of a chunk request. -/
def Request.chunk : Request → Option (List UInt8)
  | .more cdata => some cdata
  | .last cdata => some cdata
  | _ => none

def Request.isFirst : Request → Bool
  | .first _ => true
  | _ => false

/-- The payload of a chunk that reaches its handler. -/
def chunkOf (e : Event) : Option (List UInt8) := (Event.request e).bind Request.chunk

/-- A `SIGN_TX` P1 = 0 that reaches its handler. -/
def opens (e : Event) : Bool := (Event.request e).any Request.isFirst

/-- Any `SIGN_TX` P1 = 0, also one the dispatcher refuses for want of data. -/
def asksFirst : Event → Bool
  | .apdu (some cmd) _ => cmd.cla == cla && cmd.ins == insSignTx && cmd.p1 == 0
  | _ => false

theorem chunkOf_of_request {e : Event} {q : Request} (h : Event.request e = some q) :
    chunkOf e = q.chunk := by
  rw [chunkOf, h]
  rfl

theorem opens_of_request {e : Event} {q : Request} (h : Event.request e = some q) :
    opens e = q.isFirst := by
  rw [opens, h]
  rfl

/-- Only an APDU asks for anything. -/
theorem apdu_of_request {e : Event} {q : Request} (h : Event.request e = some q) :
    ∃ cmd o, e = .apdu cmd o := by
  cases e with
  | apdu cmd o => exact ⟨cmd, o, rfl⟩
  | answer confirm o => cases h
  | toggle sw => cases h
  | restart => cases h

/-- What is not answered at once comes from a command. -/
theorem command_of_request {e : Event} {q : Request} (h : Event.request e = some q)
    (hq : ¬q.IsFixed) : ∃ cmd o, e = .apdu (some cmd) o ∧ requestOf cmd = q := by
  obtain ⟨cmd, o, rfl⟩ := apdu_of_request h
  cases cmd with
  | none =>
    cases h
    exact absurd trivial hq
  | some cmd => exact ⟨cmd, o, rfl, Option.some.inj h⟩

/-- What asks for nothing is not an APDU. -/
theorem noRequest_cases {e : Event} (h : Event.request e = none) :
    (∃ confirm o, e = .answer confirm o) ∨ (∃ sw, e = .toggle sw) ∨ e = .restart := by
  cases e with
  | apdu cmd o =>
    cases cmd with
    | none => simp only [Event.request, reduceCtorEq] at h
    | some cmd => simp only [Event.request, reduceCtorEq] at h
  | answer confirm o => exact .inl ⟨confirm, o, rfl⟩
  | toggle sw => exact .inr (.inl ⟨sw, rfl⟩)
  | restart => exact .inr (.inr rfl)

/-- **What the dispatcher makes of a command**: an answer at once, a
`GET_PUBLIC_KEY` P2 = 0, or what `SIGN_TX` makes of it. -/
theorem requestOf_cases (cmd : Command) :
    (requestOf cmd).IsFixed ∨
      (cmd.cla = cla ∧ cmd.ins = insGetPublicKey ∧ cmd.p2 = 0 ∧
        requestOf cmd = .publicKey cmd.data (cmd.p1 ≠ 0)) ∨
      (cmd.cla = cla ∧ cmd.ins = insSignTx ∧
        requestOf cmd = signRequest cmd.data cmd.p1 cmd.p2) := by
  unfold requestOf
  by_cases hcla : cmd.cla = cla
  swap
  · rw [if_pos hcla]
    exact .inl trivial
  rw [if_neg (not_not.mpr hcla)]
  by_cases hver : cmd.ins = insGetVersion
  · rw [if_pos hver]
    split
    · exact .inl trivial
    · exact .inl trivial
  rw [if_neg hver]
  by_cases hname : cmd.ins = insGetAppName
  · rw [if_pos hname]
    split
    · exact .inl trivial
    · exact .inl trivial
  rw [if_neg hname]
  by_cases hkey : cmd.ins = insGetPublicKey
  · rw [if_pos hkey]
    split
    · exact .inl trivial
    split
    · exact .inl trivial
    rename_i hp2
    split
    · exact .inl trivial
    · have hzero : cmd.p2 = 0 := by
        rw [gt_iff_lt, UInt8.lt_iff_toNat_lt, Nat.not_lt] at hp2
        exact UInt8.toNat_inj.mp (Nat.le_zero.mp hp2)
      exact .inr (.inl ⟨hcla, hkey, hzero, rfl⟩)
  rw [if_neg hkey]
  by_cases hsign : cmd.ins = insSignTx
  · rw [if_pos hsign]
    split
    · exact .inl trivial
    · exact .inr (.inr ⟨hcla, hsign, rfl⟩)
  · rw [if_neg hsign]
    exact .inl trivial

theorem first_of_opens {e : Event} (h : opens e = true) :
    ∃ cdata, Event.request e = some (.first cdata) := by
  cases hq : Event.request e with
  | none =>
    rw [opens, hq] at h
    cases h
  | some q =>
    rw [opens_of_request hq] at h
    cases q with
    | first cdata => exact ⟨cdata, rfl⟩
    | _ => cases h

theorem Request.IsFixed.chunk {q : Request} (h : q.IsFixed) : q.chunk = none := by
  cases q <;> first | rfl | exact h.elim

theorem Request.IsFixed.isFirst {q : Request} (h : q.IsFixed) : q.isFirst = false := by
  cases q <;> first | rfl | exact h.elim

theorem asksFirst_of_request {e : Event} {cdata : List UInt8}
    (h : Event.request e = some (.first cdata)) : asksFirst e = true := by
  obtain ⟨cmd, o, rfl, hcmd⟩ := command_of_request h id
  rcases requestOf_cases cmd with hfixed | ⟨-, -, -, hkey⟩ | ⟨hcla, hins, hsign⟩
  · rw [hcmd] at hfixed
    exact hfixed.elim
  · rw [hcmd] at hkey
    cases hkey
  · rw [hcmd, signRequest] at hsign
    split_ifs at hsign with hp1
    simp [asksFirst, hcla, hins, hp1]

theorem requestOf_signTx {cmd : Command} (hcla : cmd.cla = cla) (hins : cmd.ins = insSignTx) :
    requestOf cmd = if cmd.data = [] ∧ cmd.p2 = 0 then .refused swWrongDataLength
      else signRequest cmd.data cmd.p1 cmd.p2 := by
  rw [requestOf, if_neg (by simp [hcla]), if_neg (by rw [hins]; decide),
    if_neg (by rw [hins]; decide), if_neg (by rw [hins]; decide), if_pos hins]

theorem requestOf_publicKey {cmd : Command} (hcla : cmd.cla = cla)
    (hins : cmd.ins = insGetPublicKey) :
    requestOf cmd = if cmd.p1 > 1 ∨ cmd.p2 > 11 then .refused swWrongP1P2
      else if cmd.p2 > 0 then .publicKeyChunk (cmd.p2 - 1)
      else if cmd.data = [] then .refused swWrongDataLength
      else .publicKey cmd.data (cmd.p1 ≠ 0) := by
  rw [requestOf, if_neg (by simp [hcla]), if_neg (by rw [hins]; decide),
    if_neg (by rw [hins]; decide), if_pos hins]

/-- A `SIGN_TX` P1 = 0 reaches its handler or is refused for want of data. -/
theorem request_of_asksFirst {e : Event} (h : asksFirst e = true) :
    (∃ cdata, Event.request e = some (.first cdata)) ∨
      Event.request e = some (.refused swWrongDataLength) := by
  cases e with
  | apdu cmd o =>
    cases cmd with
    | none => cases h
    | some cmd =>
      simp only [asksFirst, Bool.and_eq_true, beq_iff_eq] at h
      obtain ⟨⟨hcla, hins⟩, hp1⟩ := h
      have hreq : requestOf cmd = if cmd.data = [] ∧ cmd.p2 = 0 then .refused swWrongDataLength
          else .first cmd.data := by
        rw [requestOf_signTx hcla hins, signRequest, if_pos hp1]
      simp only [Event.request, hreq]
      split
      · exact .inr rfl
      · exact .inl ⟨_, rfl⟩
  | answer confirm o => cases h
  | toggle sw => cases h
  | restart => cases h

theorem asksFirst_of_other {e : Event} {q : Request} (h : Event.request e = some q)
    (hfirst : q.isFirst = false) (hrefused : q ≠ .refused swWrongDataLength) :
    asksFirst e = false := by
  cases hf : asksFirst e with
  | false => rfl
  | true =>
    rcases request_of_asksFirst hf with ⟨cdata, hq⟩ | hq
    · rw [h] at hq
      cases hq
      cases hfirst
    · rw [h] at hq
      exact absurd (Option.some.inj hq) hrefused

/-- A request comes in while no review is on screen. -/
theorem serial_request {hist : History} {s : State} {e : Event} {q : Request}
    (hserial : Serial hist s e) (h : Event.request e = some q) : s.screen.isReview = false := by
  obtain ⟨cmd, o, rfl⟩ := apdu_of_request h
  exact hserial

/-- The outcomes of the calls made for an APDU or an answer. -/
def Event.outcome : Event → Option Outcome
  | .apdu _ o => some o
  | .answer _ o => some o
  | _ => none

theorem outcome_of_request {e : Event} {q : Request} (h : Event.request e = some q) :
    ∃ o, Event.outcome e = some o := by
  obtain ⟨cmd, o, rfl⟩ := apdu_of_request h
  exact ⟨o, rfl⟩

theorem step_request {sdk : Sdk} {s : State} {e : Event} {q : Request} {o : Outcome}
    (h : Event.request e = some q) (ho : Event.outcome e = some o) :
    step sdk s e = serve sdk o s q := by
  obtain ⟨cmd, o', rfl⟩ := apdu_of_request h
  cases ho
  cases cmd with
  | none =>
    cases h
    rfl
  | some cmd =>
    cases h
    exact apduDispatcher_eq sdk o cmd s

/-! ## Screens on the way to a signature -/

/-- A screen that leads to a signature. -/
def leadsToSignature : Screen → Prop
  | .confirm _ => True
  | .transaction _ _ => True
  | _ => False

theorem not_leadsToSignature {screen : Screen} (h : screen.isReview = false) :
    ¬leadsToSignature screen := by
  cases screen with
  | confirm pair => cases h
  | transaction pairs blind => cases h
  | _ => exact id

/-! ## Paths and chunks -/

/-- The path data of a request can be read and names a canonical path. -/
def pathAccepted (sdk : Sdk) (cdata : List UInt8) : Bool :=
  match sdk.bufferReadU8 ⟨cdata, 0⟩ with
  | none => false
  | some (bip32PathLen, buffer) =>
    let (read, bip32Path, _) :=
      sdk.bufferReadBip32Path buffer GlobalCtx.zero.bip32Path bip32PathLen.toNat
    read && isValidZondBip32Path bip32Path bip32PathLen

/-- A canonical path has five words. -/
theorem isValidZondBip32Path_len {p : Path} {n : UInt8} (h : isValidZondBip32Path p n = true) :
    n = 5 := by
  unfold isValidZondBip32Path at h
  split at h
  · simp only [Bool.and_eq_true, beq_iff_eq] at h
    exact h.1.1.1.1.1
  · cases h

/-- The context of a new session. -/
def openedCtx (bip32Path : Path) (bip32PathLen : UInt8) : GlobalCtx :=
  { GlobalCtx.zero with
    reqType := .confirmTransaction
    state := .none
    bip32Path := bip32Path
    bip32PathLen := bip32PathLen }

def opened (bip32Path : Path) (bip32PathLen : UInt8) (s : State) : State :=
  { s with ctx := openedCtx bip32Path bip32PathLen, nvm := { s.nvm with sig := .zero _ } }

theorem signTxFirst_cases (sdk : Sdk) (cdata : List UInt8) (s : State) :
    ∃ p n, (signTxFirst sdk cdata s).1 = opened p n s ∧
      ((pathAccepted sdk cdata = true ∧ isValidZondBip32Path p n = true ∧
          (signTxFirst sdk cdata s).2 = [.sendSw swOk]) ∨
        (pathAccepted sdk cdata = false ∧
          (signTxFirst sdk cdata s).2 = [.sendSw swWrongDataLength])) := by
  unfold signTxFirst pathAccepted
  cases sdk.bufferReadU8 ⟨cdata, 0⟩ with
  | none => exact ⟨_, _, rfl, .inr ⟨rfl, rfl⟩⟩
  | some r =>
    obtain ⟨n, buffer⟩ := r
    rcases hr : sdk.bufferReadBip32Path buffer GlobalCtx.zero.bip32Path n.toNat with ⟨read, p, rest⟩
    simp only [hr]
    cases read with
    | false => exact ⟨p, n, rfl, .inr ⟨rfl, rfl⟩⟩
    | true =>
      simp only [Bool.not_true, Bool.false_eq_true, if_false, Bool.true_and]
      cases hv : isValidZondBip32Path p n with
      | false => exact ⟨p, n, rfl, .inr ⟨rfl, rfl⟩⟩
      | true => exact ⟨p, n, rfl, .inl ⟨rfl, hv, rfl⟩⟩

/-- A chunk passes the tests on state and length. -/
def ChunkFits (ctx : GlobalCtx) (cdata : List UInt8) : Prop :=
  ctx.reqType = .confirmTransaction ∧ ctx.state = .none ∧
    ctx.txInfo.rawTx.bytes.length + cdata.length ≤ maxTransactionLen

instance (ctx : GlobalCtx) (cdata : List UInt8) : Decidable (ChunkFits ctx cdata) :=
  inferInstanceAs (Decidable (ctx.reqType = .confirmTransaction ∧ ctx.state = .none ∧
    ctx.txInfo.rawTx.bytes.length + cdata.length ≤ maxTransactionLen))

/-- The step takes in a chunk. -/
def TakesChunk (en : Entry) : Prop :=
  ∃ cdata, chunkOf en.event = some cdata ∧ ChunkFits en.pre.ctx cdata

theorem appendChunk_cases (sdk : Sdk) (cdata : List UInt8) (ctx : GlobalCtx) :
    (ChunkFits ctx cdata ∧ ∃ rawTx, appendChunk sdk cdata ctx = .ok rawTx ∧
        rawTx.bytes = ctx.txInfo.rawTx.bytes ++ cdata) ∨
      (¬ChunkFits ctx cdata ∧ ∃ sw, sw ≠ swOk ∧ appendChunk sdk cdata ctx = .error sw) := by
  unfold appendChunk
  by_cases hty : ctx.reqType = .confirmTransaction
  swap
  · exact .inr ⟨fun h => hty h.1, swBadState, by decide, if_pos hty⟩
  by_cases hst : ctx.state = .none
  swap
  · refine .inr ⟨fun h => hst h.2.1, swBadState, by decide, ?_⟩
    rw [if_neg (by simp [hty]), if_pos hst]
  rw [if_neg (by simp [hty]), if_neg (by simp [hst])]
  by_cases hlen : ctx.txInfo.rawTx.bytes.length + cdata.length > maxTransactionLen
  · exact .inr ⟨fun h => by have := h.2.2; omega, swWrongTxLength, by decide, dif_pos hlen⟩
  · have hmove := sdk.bufferMove_fresh cdata
    rw [dif_neg hlen]
    cases hm : sdk.bufferMove ⟨cdata, 0⟩ cdata.length with
    | none => simp [hm] at hmove
    | some r =>
      obtain ⟨moved, rest⟩ := r
      simp only [hm, Option.map_some, Option.some.injEq] at hmove
      exact .inl ⟨⟨hty, hst, by omega⟩, _, rfl, by simp [hmove]⟩

/-- A last chunk that is taken in is parsed. -/
theorem step_last_eq {sdk : Sdk} {s : State} {e : Event} {o : Outcome} {cdata : List UInt8}
    (hq : Event.request e = some (.last cdata)) (ho : Event.outcome e = some o)
    (hfit : ChunkFits s.ctx cdata) :
    ∃ rawTx : RawTx, rawTx.bytes = s.ctx.txInfo.rawTx.bytes ++ cdata ∧
      step sdk s e = signTxParse sdk o ((s.setRawTx rawTx).setState .parsed) := by
  rw [step_request hq ho, serve, signTxLast]
  rcases appendChunk_cases sdk cdata s.ctx with ⟨-, rawTx, happ, hbytes⟩ | ⟨hno, -⟩
  · rw [happ]
    exact ⟨rawTx, hbytes, rfl⟩
  · exact absurd hfit hno

/-! ## The requests of a host -/

/-- A `SIGN_TX` whose calls all succeed. -/
def signTx (p1 p2 : UInt8) (data : List UInt8) (h : data.length ≤ 255) : Event :=
  .apdu (some ⟨cla, insSignTx, p1, p2, data, h⟩) (.good (.zero _))

/-- An approval whose calls all succeed. -/
def approve : Event := .answer true (.good (.zero _))

/-- The history of given events, the latest first, on a fresh device, and the
state it ends in. -/
def runOf (sdk : Sdk) (events : List Event) : History × State :=
  Lib.Machine.exec (step sdk) (startUp .zero) events

/-- A device whose digests are all zero. -/
def testSdk : Sdk := referenceSdk fun _ => .zero _

/-- The data of a `SIGN_TX` P1 = 0: five words, `44'/238'/0'/0/0`. -/
def canonicalPath : List UInt8 :=
  [5, 0x80, 0, 0, 0x2C, 0x80, 0, 0, 0xEE, 0x80, 0, 0, 0, 0, 0, 0, 0, 0, 0, 0, 0]

/-! Data that fits an APDU. -/

theorem noData_fits : ([] : List UInt8).length ≤ 255 := by decide

theorem zeroByte_fits : ([0x00] : List UInt8).length ≤ 255 := by decide

theorem canonicalPath_fits : canonicalPath.length ≤ 255 := by decide

theorem validCreation_fits : DecodeGrammar.validCreation.length ≤ 255 := by decide

example : pathAccepted (referenceSdk fun _ => .zero _) canonicalPath = true := by decide

end LedgerZond.Requests
