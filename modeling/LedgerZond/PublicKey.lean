import LedgerZond.Displays

/-! # What `GET_PUBLIC_KEY` can do

The path is read, the key and the address are derived, and the address is
sent or shown, each of which can fail. `KeyAsked` lists the ways this goes,
with the whole state they leave and all they let out. -/
namespace LedgerZond.PublicKey
open LedgerZond.CTypes LedgerZond.Types LedgerZond.Platform LedgerZond.AppState
open LedgerZond.Address LedgerZond.Review LedgerZond.App LedgerZond.Requests LedgerZond.Displays

/-- The path a request names, if it can be read and is canonical. -/
def acceptedPath (sdk : Sdk) (cdata : List UInt8) : Option (Path × UInt8) :=
  match sdk.bufferReadU8 ⟨cdata, 0⟩ with
  | none => none
  | some (bip32PathLen, buffer) =>
    let (read, bip32Path, _) :=
      sdk.bufferReadBip32Path buffer GlobalCtx.zero.bip32Path bip32PathLen.toNat
    if read && isValidZondBip32Path bip32Path bip32PathLen then some (bip32Path, bip32PathLen)
    else none

theorem reads_of_acceptedPath {sdk : Sdk} {cdata : List UInt8} {p : Path} {n : UInt8}
    (h : acceptedPath sdk cdata = some (p, n)) :
    ∃ buffer rest, sdk.bufferReadU8 ⟨cdata, 0⟩ = some (n, buffer) ∧
      sdk.bufferReadBip32Path buffer GlobalCtx.zero.bip32Path n.toNat = (true, p, rest) ∧
      isValidZondBip32Path p n = true := by
  unfold acceptedPath at h
  cases hu : sdk.bufferReadU8 ⟨cdata, 0⟩ with
  | none =>
    rw [hu] at h
    cases h
  | some r =>
    obtain ⟨n', buffer⟩ := r
    rcases hr : sdk.bufferReadBip32Path buffer GlobalCtx.zero.bip32Path n'.toNat with ⟨read, p', rest⟩
    simp only [hu, hr] at h
    split at h
    · rename_i hboth
      cases h
      rw [Bool.and_eq_true] at hboth
      exact ⟨buffer, rest, rfl, by rw [hr, hboth.1], hboth.2⟩
    · cases h

/-- Every call of `address_from_bip32_path` succeeds. -/
def KeyOk (o : Outcome) : Prop :=
  o.address.derive = cxOk ∧ o.address.keygen = cxOk ∧ o.address.hash = .ok

instance (o : Outcome) : Decidable (KeyOk o) := inferInstanceAs (Decidable (_ ∧ _))

/-- The context `handler_get_public_key` sets up. -/
def addressCtx (bip32Path : Path) (bip32PathLen : UInt8) : GlobalCtx :=
  { GlobalCtx.zero with bip32Path := bip32Path, bip32PathLen := bip32PathLen }

/-- The request with its key and its address derived. -/
def derivedKey (sdk : Sdk) (bip32Path : Path) (bip32PathLen : UInt8) (s : State) : State :=
  let pk := publicKey sdk bip32Path bip32PathLen
  { s with
    ctx := { addressCtx bip32Path bip32PathLen with address := addressOf sdk pk }
    nvm := { s.nvm with pk := pk } }

/-- What `handler_get_public_key` can do. -/
inductive KeyAsked (sdk : Sdk) (o : Outcome) (cdata : List UInt8) (display : Bool) (s : State) :
    Result → Prop
  | refused (p : Path) (n : UInt8) : acceptedPath sdk cdata = none →
      KeyAsked sdk o cdata display s
        ({ s with ctx := addressCtx p n, nvm := { s.nvm with pk := .zero _ } },
          [.sendSw swWrongDataLength])
  | failed (p : Path) (n : UInt8) (pk : PublicKey) (address : Bytes addressSize) (error : CxErr) :
      acceptedPath sdk cdata = some (p, n) → ¬KeyOk o →
      KeyAsked sdk o cdata display s
        ({ s with ctx := { addressCtx p n with address := address }, nvm := { s.nvm with pk := pk } },
          [.derive p n, .sendSw error.toUInt16])
  | answered (p : Path) (n : UInt8) : acceptedPath sdk cdata = some (p, n) → KeyOk o →
      display = false →
      KeyAsked sdk o cdata display s (derivedKey sdk p n s,
        [.derive p n, .sendResponse .address
          (zondAddressPrefix :: (addressOf sdk (publicKey sdk p n)).toList)])
  | unshown (p : Path) (n : UInt8) : acceptedPath sdk cdata = some (p, n) → KeyOk o →
      display = true →
      KeyAsked sdk o cdata display s (derivedKey sdk p n s,
        [.derive p n, .sendSw swDisplayAddressFail])
  | shown (p : Path) (n : UInt8) (text : List Char) : acceptedPath sdk cdata = some (p, n) →
      KeyOk o → display = true →
      KeyAsked sdk o cdata display s ({ derivedKey sdk p n s with screen := .address text },
        [.derive p n, .draw (.address text)])

theorem handlerGetPublicKey_asked (sdk : Sdk) (o : Outcome) (cdata : List UInt8) (display : Bool)
    (s : State) : KeyAsked sdk o cdata display s (handlerGetPublicKey sdk o cdata display s) := by
  unfold handlerGetPublicKey
  cases hu : sdk.bufferReadU8 ⟨cdata, 0⟩ with
  | none => exact .refused _ _ (by simp [acceptedPath, hu])
  | some r =>
    obtain ⟨n, buffer⟩ := r
    rcases hr : sdk.bufferReadBip32Path buffer GlobalCtx.zero.bip32Path n.toNat with ⟨read, p, rest⟩
    have hpath : acceptedPath sdk cdata =
        if read && isValidZondBip32Path p n then some (p, n) else none := by
      simp only [acceptedPath, hu, hr]
    simp only [hr]
    cases read with
    | false => exact .refused p n (by rw [hpath]; rfl)
    | true =>
      simp only [Bool.not_true, Bool.false_eq_true, if_false]
      cases hv : isValidZondBip32Path p n with
      | false => exact .refused p n (by rw [hpath, hv]; rfl)
      | true =>
        rw [hv] at hpath
        have hsome : acceptedPath sdk cdata = some (p, n) := hpath
        simp only [Bool.not_true, Bool.false_eq_true, if_false]
        rcases addressFromBip32Path_cases sdk o.address p n (.zero _) GlobalCtx.zero.address with
          ⟨pk, address, herr, heq, hno⟩ | ⟨hok, heq⟩
        · rw [← Prod.mk.eta (p := addressFromBip32Path sdk o.address _ _ _ _), heq]
          simp only [if_pos herr]
          exact .failed p n pk address _ hsome hno
        · rw [heq]
          simp only [ne_eq, not_true_eq_false, if_false]
          cases display with
          | false => exact .answered p n hsome hok rfl
          | true =>
            simp only [if_true, uiDisplayAddress]
            rw [if_neg (by simp)]
            cases formatChecksummedAddress sdk o.fromChecksum
              (addressOf sdk (publicKey sdk p n)) uiBufferSize with
            | none => exact .unshown p n hsome hok rfl
            | some text => exact .shown p n text hsome hok rfl

variable {sdk : Sdk} {s : State} {e : Event} {o : Outcome} {cdata : List UInt8} {display : Bool}

theorem step_publicKey (hq : Event.request e = some (.publicKey cdata display))
    (ho : Event.outcome e = some o) : KeyAsked sdk o cdata display s (step sdk s e) := by
  rw [step_request hq ho]
  exact handlerGetPublicKey_asked sdk o cdata display s

end LedgerZond.PublicKey
