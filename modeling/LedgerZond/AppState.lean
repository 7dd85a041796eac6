import LedgerZond.Platform

/-! # The state of the application and what it lets out

The globals of the sources: `G_context`, `N_storage`, the counters of
`ui/ui_confirm_parameter_selector.c` and what is on screen. The static text
buffers have no place in it: each is written from its start before a screen
shows it, so a screen carries its texts. -/
namespace LedgerZond.AppState
open LedgerZond.CTypes LedgerZond.Types LedgerZond.Platform

/-- `e_confirmation_type`. -/
inductive ConfirmationType where
  | parameterConfirmation
  | selectorConfirmation
deriving DecidableEq, Repr

/-- A tag and its value, `nbgl_contentTagValue_t`. -/
abbrev Pair := String × List Char

/-- What is on screen. `home` also stands for the settings and for the status
page that leads back to it. -/
inductive Screen where
  | home
  /-- `ui_error_blind_signing`. -/
  | blindSigningError
  /-- `buildScreen`: the review of a selector or of a parameter. -/
  | confirm (pair : Pair)
  /-- `ui_display_transaction_bs_choice`: the review of a transaction. -/
  | transaction (pairs : List Pair) (isBlindSigned : Bool)
  /-- `ui_display_address`: the review of an address. -/
  | address (text : List Char)
deriving DecidableEq

/-- A screen that waits for the user's answer to a request. -/
def Screen.isReview : Screen → Bool
  | .home => false
  | .blindSigningError => false
  | .confirm _ => true
  | .transaction _ _ => true
  | .address _ => true

/-- No address is on screen where no review is. -/
theorem Screen.ne_address {screen : Screen} (h : screen.isReview = false) (text : List Char) :
    screen ≠ .address text := by
  rintro rfl
  cases h

structure State where
  ctx : GlobalCtx
  nvm : InternalStorage
  currentScreen : ConfirmationType
  paramIndex : UInt8
  paramCount : UInt8
  screen : Screen
deriving DecidableEq

/-- What the bytes of a response are, and where they are read from. -/
inductive Source where
  | version
  | appName
  | address
  | publicKey (reads : List Nat)
  /-- Bytes of `N_storage.sig`, with the context they are sent in. -/
  | signature (reads : List Nat) (reqType : RequestType) (state : SessionState)
deriving DecidableEq

/-- What leaves the application, and its uses of a key. -/
inductive Effect where
  /-- `io_send_sw`. -/
  | sendSw (sw : UInt16)
  /-- `io_send_response_pointer`, which is always called with `SW_OK`. -/
  | sendResponse (source : Source) (data : List UInt8)
  /-- `os_derive_bip32_no_throw`. -/
  | derive (bip32Path : Path) (bip32PathLen : UInt8)
  /-- `MLDSA_sign`. -/
  | sign (msg : Bytes 32) (ctx : List UInt8) (sk : SecretKey)
  /-- `MLDSA_verify`, and whether it returned `CX_OK`. -/
  | verify (sig : Signature) (msg : Bytes 32) (ctx : List UInt8) (pk : PublicKey) (accepted : Bool)
  /-- A screen is put on the display. -/
  | draw (screen : Screen)
deriving DecidableEq

/-- What a function leaves and what it lets out. -/
abbrev Result := State × List Effect

def ioSendSw (sw : UInt16) (s : State) : Result := (s, [.sendSw sw])

@[simp] theorem ioSendSw_snd (sw : UInt16) (s : State) : (ioSendSw sw s).2 = [.sendSw sw] := rfl

def ioSendResponsePointer (source : Source) (data : List UInt8) (s : State) : Result :=
  (s, [.sendResponse source data])

/-- `nbgl_useCase…`: the screen replaces what was there. -/
def nbglUseCase (screen : Screen) (s : State) : Result :=
  ({ s with screen := screen }, [.draw screen])

/-- The result of `f` behind effects that came before. -/
def Result.after (before : List Effect) (r : Result) : Result := (r.1, before ++ r.2)

def State.setState (s : State) (st : SessionState) : State :=
  { s with ctx := { s.ctx with state := st } }

def State.setRawTx (s : State) (rawTx : RawTx) : State :=
  { s with ctx := { s.ctx with txInfo := { s.ctx.txInfo with rawTx := rawTx } } }

/-- `explicit_bzero(&G_context, sizeof(G_context))`. -/
def State.bzero (s : State) : State := { s with ctx := .zero }

end LedgerZond.AppState
