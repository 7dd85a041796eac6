import LedgerZond.Lib.Server
import LedgerZond.Dialogue
import LedgerZond.Chunking

/-! # The client of the tests

`application_client/boilerplate_command_sender.py` and what the tests build on
it, as programs that send commands; and the application as the server they
send them to. The transport is not part of the sources: it raises an exception
for a status word other than `SW_OK` and cannot frame more than 255 bytes. -/
namespace LedgerZond.HostClient
open LedgerZond.Types LedgerZond.Platform LedgerZond.AppState LedgerZond.App LedgerZond.Requests
open LedgerZond.Steps LedgerZond.Chunking Lib.Client Lib.Server

/-! ## The commands -/

/-- `RAPDU`. -/
structure Rapdu where
  status : UInt16
  data : List UInt8
deriving DecidableEq

abbrev Client := Prog Command Rapdu

/-- `backend.exchange`, and an `exchange_async` together with the response that
is read behind it. -/
def exchange (ins p1 p2 : UInt8) (data : List UInt8) : Client (List UInt8) :=
  if h : data.length ≤ 255 then
    .ask ⟨cla, ins, p1, p2, data, h⟩ fun rapdu =>
      if rapdu.status = swOk then .done rapdu.data else .raise
  else .raise

/-- `get_public_key`, with `pack_derivation_path` already applied to the path. -/
def getPublicKey (packedPath : List UInt8) : Client (List UInt8) :=
  exchange insGetPublicKey 0 0 packedPath

/-- `get_public_key_with_confirmation`. -/
def getPublicKeyWithConfirmation (packedPath : List UInt8) : Client (List UInt8) :=
  exchange insGetPublicKey 1 0 packedPath

/-- `sign_tx`: `messages[:-1]` in a loop, then `messages[-1]`, which an empty
transaction does not have. -/
def signTx (packedPath transaction : List UInt8) : Client (List UInt8) := do
  let _ ← exchange insSignTx 0 0 packedPath
  let messages := splitMessage transaction maxApduLen
  messages.dropLast.foldlM (fun _ msg => do let _ ← exchange insSignTx 1 0 msg) ()
  match messages.getLast? with
  | none => .raise
  | some msg => exchange insSignTx 2 0 msg

/-! ## What the tests collect -/

def pkLen : Nat := 2592
def sigLen : Nat := 4627

/-- One round of the loops that collect a key or a signature. -/
def collect (ins p1 : UInt8) (collected : List UInt8) (p2 : Nat) : Client (List UInt8) := do
  let data ← exchange ins p1 (UInt8.ofNat p2) []
  return collected ++ data

/-- `get_public_key_chunks`. -/
def getPublicKeyChunks : Client (List UInt8) := do
  let pk ← (List.range' 1 11).foldlM (collect insGetPublicKey 0) []
  return pk.take pkLen

/-- `get_signature_chunks`. -/
def getSignatureChunks (firstChunk : List UInt8) : Client (List UInt8) := do
  let sig ← (List.range' 1 17).foldlM (collect insSignTx 2) firstChunk
  return sig.take sigLen

/-- What `test_e2e_device_sign` writes to its output file. -/
structure E2eOut where
  address : List UInt8
  publicKey : List UInt8
  signature : List UInt8

/-- The address a response holds: `b"Q"` and 64 bytes. -/
def checkAddress (data : List UInt8) : Client (List UInt8) := do
  Prog.assert (data.take 1 = [0x51] ∧ data.length = 65)
  return data.drop 1

/-- `test_e2e_device_sign`. -/
def e2eDeviceSign (packedPath preimage : List UInt8) : Client E2eOut := do
  let address ← getPublicKey packedPath >>= checkAddress
  let pk ← getPublicKeyChunks
  Prog.assert (pk.length = pkLen)
  let first ← signTx packedPath preimage
  let sig ← getSignatureChunks first
  Prog.assert (sig.length = sigLen)
  return ⟨address, pk, sig⟩

/-- `test_get_public_key_confirm_accepted`. -/
def confirmAddress (packedPath : List UInt8) : Client (List UInt8) :=
  getPublicKeyWithConfirmation packedPath >>= checkAddress

/-! ## The application as a server -/

/-- The response among what a step lets out. -/
def replyOf : List Effect → Option Rapdu
  | [] => none
  | .sendSw sw :: _ => some ⟨sw, []⟩
  | .sendResponse _ data :: _ => some ⟨swOk, data⟩
  | _ :: out => replyOf out

/-- What does not come from the host: the user, the settings, the power. -/
def isLocal : Event → Bool
  | .apdu _ _ => false
  | _ => true

/-- The application, where `may` restricts what the user does and how calls
turn out. No command is dispatched while a review is on screen. -/
def device (sdk : Sdk) (may : Event → Prop) : Interface State Event (List Effect) Command Rapdu where
  step := step sdk
  isOwn e := isLocal e = true ∧ may e
  takes s cmd e := s.screen.isReview = false ∧ ∃ o, e = .apdu (some cmd) o ∧ may e
  reply := replyOf

abbrev Point := Lib.Server.Point State Event (List Effect)

/-- What the client meets on a device. -/
abbrev Meets (sdk : Sdk) (may : Event → Prop) : Point → Command → Rapdu → Point → Prop :=
  Serves (device sdk may)

variable {sdk : Sdk} {may : Event → Prop} {b b' start : Point} {s : State} {e : Event}

/-- The user and the calls are free. -/
def Anything (_ : Event) : Prop := True

theorem serial_of_isLocal (hist : History) (s : State) (h : isLocal e = true) : Serial hist s e := by
  cases e with
  | apdu cmd o => cases h
  | _ => trivial

/-! ## A device at rest -/

/-- A run that has gone on from `start`. -/
structure Along (sdk : Sdk) (start b : Point) : Prop where
  run : Run sdk Serial b.1 b.2
  since : start.1 <:+ b.1

/-- No review is on screen. -/
structure AtRest (sdk : Sdk) (start b : Point) : Prop extends Along sdk start b where
  idle : b.2.screen.isReview = false

/-- What is left as it is while nobody asks for anything. -/
structure Untouched (s s' : State) : Prop where
  idle : s'.screen.isReview = false
  ctx : s'.ctx = s.ctx ∨ s'.ctx = .zero
  pk : s'.nvm.pk = s.nvm.pk
  sig : s'.nvm.sig = s.nvm.sig

/-- Off the reviews, an event that is not an APDU asks for nothing. -/
theorem local_untouched (h : s.screen.isReview = false) (he : isLocal e = true) :
    Untouched s (step sdk s e).1 := by
  cases e with
  | apdu cmd o => cases he
  | answer confirm o =>
    simp only [step, onAnswer]
    cases hs : s.screen with
    | home => exact ⟨h, .inl rfl, rfl, rfl⟩
    | blindSigningError => exact ⟨rfl, .inl rfl, rfl, rfl⟩
    | _ =>
      rw [hs] at h
      cases h
  | toggle sw => cases sw <;> exact ⟨h, .inl rfl, rfl, rfl⟩
  | restart => exact ⟨rfl, .inr rfl, rfl, rfl⟩

/-- And sends nothing. -/
theorem local_silent (h : s.screen.isReview = false) (he : isLocal e = true) :
    (step sdk s e).2 = [] := by
  cases e with
  | apdu cmd o => cases he
  | answer confirm o =>
    simp only [step, onAnswer]
    cases hs : s.screen with
    | home => rfl
    | blindSigningError => rfl
    | _ =>
      rw [hs] at h
      cases h
  | toggle sw => rfl
  | restart => rfl

theorem Along.next (h : Along sdk start b) (he : Serial b.1 b.2 e) :
    Along sdk start (b.next (step sdk) e) :=
  ⟨.next e h.run he, h.since.trans (List.suffix_cons _ _)⟩

theorem Along.own (h : Along sdk start b) (he : isLocal e = true) :
    Along sdk start (b.next (step sdk) e) := h.next (serial_of_isLocal b.1 b.2 he)

theorem AtRest.own (h : AtRest sdk start b) (he : isLocal e = true) :
    AtRest sdk start (b.next (step sdk) e) :=
  ⟨h.toAlong.own he, (local_untouched h.idle he).idle⟩

/-! ## What a command does -/

/-- What an exchange asks for, once it is let in. -/
structure Sent (ins p1 p2 : UInt8) (data : List UInt8) (o : Outcome) (e : Event) : Prop where
  fits : data.length ≤ 255
  event : e = .apdu (some ⟨cla, ins, p1, p2, data, fits⟩) o

section Sent
variable {ins p1 p2 : UInt8} {data : List UInt8} {o : Outcome}

theorem Sent.outcome (h : Sent ins p1 p2 data o e) : Event.outcome e = some o := by
  rw [h.event]
  rfl

theorem Sent.serial (h : Sent ins p1 p2 data o e) (hist : History)
    (hidle : s.screen.isReview = false) : Serial hist s e := by
  rw [h.event]
  exact hidle

theorem Sent.publicKey (h : Sent insGetPublicKey p1 0 data o e) (hp1 : ¬p1 > 1) :
    Event.request e =
      some (if data = [] then .refused swWrongDataLength else .publicKey data (p1 ≠ 0)) := by
  have hp : ¬(p1 > 1 ∨ (0 : UInt8) > 11) := fun hor => hor.elim hp1 (by decide)
  have hp2 : ¬(0 : UInt8) > 0 := by decide
  rw [h.event, Event.request, requestOf_publicKey rfl rfl, if_neg hp, if_neg hp2]

theorem Sent.publicKeyChunk {i : Nat} (h : Sent insGetPublicKey 0 (UInt8.ofNat (i + 1)) data o e)
    (hi : i < 11) : Event.request e = some (.publicKeyChunk (UInt8.ofNat i)) := by
  have hp2 : (UInt8.ofNat (i + 1)).toNat = i + 1 := by
    rw [UInt8.toNat_ofNat']
    omega
  have hp : ¬((0 : UInt8) > 1 ∨ UInt8.ofNat (i + 1) > 11) := by
    rintro (hgt | hgt)
    · exact absurd hgt (by decide)
    · rw [gt_iff_lt, UInt8.lt_iff_toNat_lt, hp2] at hgt
      exact absurd hgt (Nat.not_lt.mpr hi)
  have hpos : UInt8.ofNat (i + 1) > 0 := by
    rw [gt_iff_lt, UInt8.lt_iff_toNat_lt, hp2]
    exact Nat.succ_pos i
  have hindex : UInt8.ofNat (i + 1) - 1 = UInt8.ofNat i := by simp [UInt8.ofNat_add]
  rw [h.event, Event.request, requestOf_publicKey rfl rfl, if_neg hp, if_pos hpos]
  exact congrArg (some ∘ Request.publicKeyChunk) hindex

theorem Sent.signTx (h : Sent insSignTx p1 p2 data o e) :
    Event.request e = some (if data = [] ∧ p2 = 0 then .refused swWrongDataLength
      else signRequest data p1 p2) := by
  rw [h.event, Event.request, requestOf_signTx rfl rfl]

theorem Sent.signature {i : Nat} (h : Sent insSignTx 2 (UInt8.ofNat (i + 1)) data o e)
    (hi : i < 17) : Event.request e = some (.signature (UInt8.ofNat (i + 1))) := by
  have hp2 : (UInt8.ofNat (i + 1)).toNat = i + 1 := by
    rw [UInt8.toNat_ofNat']
    omega
  have hpos : UInt8.ofNat (i + 1) > 0 := by
    rw [gt_iff_lt, UInt8.lt_iff_toNat_lt, hp2]
    exact Nat.succ_pos i
  have hlt : UInt8.ofNat (i + 1) < 18 := by
    rw [UInt8.lt_iff_toNat_lt, hp2]
    exact Nat.succ_lt_succ hi
  have hne : UInt8.ofNat (i + 1) ≠ 0 := by
    intro hzero
    rw [hzero] at hp2
    cases hp2
  rw [h.signTx, if_neg fun hboth => hne hboth.2, signRequest, if_neg (by decide),
    if_neg (by decide), if_neg fun hboth => hne hboth.2, if_pos ⟨rfl, hpos, hlt⟩]

end Sent

/-- **The rule of an exchange** that every allowed reply to is right. -/
theorem safe_exchange {ins p1 p2 : UInt8} {data : List UInt8} {I : Point → Prop}
    {Q : List UInt8 → Point → Prop}
    (hown : ∀ b e, I b → isLocal e = true → may e → I (b.next (step sdk) e))
    (htake : ∀ b e o reply b', I b → b.2.screen.isReview = false → Sent ins p1 p2 data o e → may e →
      Awaits (device sdk may) (step sdk b.2 e).2 (b.next (step sdk) e) ⟨swOk, reply⟩ b' →
      Q reply b')
    (hb : I b) : Safe (Meets sdk may) (exchange ins p1 p2 data) Q b := by
  unfold exchange
  split
  · rename_i hfits
    refine safe_ask (I := I) (fun b e hi he => hown b e hi he.1 he.2) ?_ hb
    rintro b e ⟨status, reply⟩ b' hi ⟨hidle, o, rfl, hmay⟩ hawaits
    simp only
    split
    · rename_i hstatus
      cases hstatus
      exact htake b _ o reply b' hi hidle ⟨hfits, rfl⟩ hmay hawaits
    · trivial
  · trivial

end LedgerZond.HostClient
