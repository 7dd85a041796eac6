import LedgerZond.HostProgress
import LedgerZond.AddressText

/-! # The address a client confirms

`GET_PUBLIC_KEY` P1 = 1 is replied to only once the user has answered the
screen it puts up. If the client ends with an address, the user has seen the
whole of it, as the text the device shows for it, and has approved it. -/
namespace LedgerZond.HostAddress
open LedgerZond.CTypes LedgerZond.Types LedgerZond.Platform LedgerZond.AppState LedgerZond.Address
open LedgerZond.Review LedgerZond.App LedgerZond.Requests LedgerZond.Displays LedgerZond.PublicKey
open LedgerZond.Steps LedgerZond.QrlTx LedgerZond.AddressText LedgerZond.Dialogue LedgerZond.HostClient
open LedgerZond.HostSession LedgerZond.HostProgress Lib.Client Lib.Server

variable {sdk : Sdk} {may : Event → Prop} {b b' start : Point} {s : State} {e : Event}
  {p : Path} {n : UInt8} {o : Outcome} {packedPath data : List UInt8}

/-! ## What is put on screen -/

/-- The address of a path, and the text the device shows for it. -/
structure AddressShown (sdk : Sdk) (p : Path) (n : UInt8) (address : Bytes addressSize)
    (text : List Char) : Prop where
  ofPath : address = addressOf sdk (publicKey sdk p n)
  text : formatChecksummedAddress sdk true address uiBufferSize = some text

/-- An address on screen, with the context it is approved from. -/
def ShowsCtx (sdk : Sdk) (p : Path) (n : UInt8) (s : State) : Prop :=
  ∀ text, s.screen = .address text → AddressShown sdk p n s.ctx.address text

theorem handlerGetPublicKey_display (hpath : acceptedPath sdk data = some (p, n)) (hok : KeyOk o)
    (s : State) : handlerGetPublicKey sdk o data true s =
      Result.after [.derive p n] (uiDisplayAddress sdk o (derivedKey sdk p n s)) := by
  obtain ⟨buffer, rest, hu, hr, hvalid⟩ := reads_of_acceptedPath hpath
  rcases addressFromBip32Path_cases sdk o.address p n (.zero _) GlobalCtx.zero.address with
    ⟨pk, address, -, -, hno⟩ | ⟨-, heq⟩
  · exact absurd hok hno
  rw [handlerGetPublicKey, hu]
  simp only [hr, hvalid, heq, Bool.not_true, Bool.false_eq_true, if_false, if_true, ne_eq,
    not_true_eq_false]
  rfl

theorem uiDisplayAddress_shows (hscr : s.screen.isReview = false) :
    ShowsCtx sdk p n (uiDisplayAddress sdk o (derivedKey sdk p n s)).1 := by
  have hnot : ∀ text, (derivedKey sdk p n s).screen ≠ .address text := by
    intro text htext
    rw [show s.screen = .address text from htext] at hscr
    cases hscr
  unfold uiDisplayAddress
  split
  · exact fun text htext => absurd htext (hnot text)
  rcases formatChecksummedAddress_cases sdk o.fromChecksum (derivedKey sdk p n s).ctx.address
    uiBufferSize_le with ⟨hnone, -⟩ | ⟨text, htext, hok⟩
  · rw [hnone]
    exact fun text htext => absurd htext (hnot text)
  · rw [htext]
    rintro text' htext'
    cases htext'
    rw [hok] at htext
    exact ⟨rfl, htext⟩

/-! ## The dialogue -/

/-- The address on `screen` was drawn. -/
def Drawn (screen : Screen) (_ : History) (d : Entry) : Prop := Effect.draw screen ∈ d.out

/-- An address is on screen, and the reply to come. -/
structure Confirming (sdk : Sdk) (start : Point) (p : Path) (n : UInt8) (b : Point) : Prop
    extends Along sdk start b where
  only : b.2.screen.isReview = true → ∃ text, b.2.screen = .address text
  shows : ShowsCtx sdk p n b.2
  drawn : ∀ text, b.2.screen = .address text → Since (Drawn b.2.screen) start.1 b.1

theorem confirming_of_idle (h : Along sdk start b) (hidle : b.2.screen.isReview = false) :
    Confirming sdk start p n b := by
  have hnot : ∀ text, b.2.screen ≠ .address text := by
    intro text htext
    rw [htext] at hidle
    cases hidle
  exact ⟨h, fun hrev => (Bool.false_ne_true (hidle.symm.trans hrev)).elim,
    fun text htext => absurd htext (hnot text), fun text htext => absurd htext (hnot text)⟩

/-- In the step `en` the user approves the address of the path, on a screen that
shows the text of it. -/
structure Confirms (sdk : Sdk) (start : Point) (p : Path) (n : UInt8) (hist : History)
    (en : Entry) : Prop where
  approved : ∃ o, en.event = .answer true o
  shown : ∃ text, en.pre.screen = .address text ∧
    AddressShown sdk p n (addressOf sdk (publicKey sdk p n)) text ∧
    Since (Drawn en.pre.screen) start.1 hist

/-- Either the reply is still to come, or it holds no address, or it is the one
that was approved. -/
def Awaiting (sdk : Sdk) (start : Point) (p : Path) (n : UInt8) (out : List Effect) (b : Point) :
    Prop :=
  (replyOf out = none ∧ Confirming sdk start p n b) ∨
    (∃ sw, replyOf out = some ⟨sw, []⟩) ∨
    replyOf out = some ⟨swOk, zondAddressPrefix :: (addressOf sdk (publicKey sdk p n)).toList⟩ ∧
      Since (Confirms sdk start p n) start.1 b.1

/-- What is replied to the request at once. -/
theorem asked_awaiting (hq : Event.request e = some (.publicKey data true))
    (ho : Event.outcome e = some o) (hidle : b.2.screen.isReview = false) (h : Along sdk start b)
    (hnext : Along sdk start (b.next (step sdk) e)) :
    (∃ sw, replyOf (step sdk b.2 e).2 = some ⟨sw, []⟩) ∨ ∃ p n,
      acceptedPath sdk data = some (p, n) ∧
      Awaiting sdk start p n (step sdk b.2 e).2 (b.next (step sdk) e) := by
  have hasked := @step_publicKey sdk b.2 e o data true hq ho
  generalize hr : step sdk b.2 e = r at hasked
  have heq := next_eq hr
  cases hasked with
  | refused p n _ => exact .inl ⟨_, rfl⟩
  | failed p n pk address error _ _ => exact .inl ⟨_, rfl⟩
  | answered p n _ _ hdisplay => cases hdisplay
  | unshown p n _ _ _ => exact .inl ⟨_, rfl⟩
  | shown p n text hpath hok _ =>
    have hshows : ShowsCtx sdk p n (step sdk b.2 e).1 := by
      rw [step_request hq ho, serve, handlerGetPublicKey_display hpath hok]
      exact uiDisplayAddress_shows hidle
    refine .inr ⟨p, n, hpath, .inl ⟨rfl, hnext, ?_, hshows, ?_⟩⟩
    · intro _
      rw [heq]
      exact ⟨text, rfl⟩
    · intro text' _
      rw [heq]
      exact since_head h.since (by simp [Drawn])

/-- The user's part in it. -/
theorem Confirming.awaiting (h : Confirming sdk start p n b) (he : isLocal e = true) :
    Awaiting sdk start p n (step sdk b.2 e).2 (b.next (step sdk) e) := by
  have hnext := h.toAlong.own he
  cases hscr : b.2.screen with
  | address text =>
    obtain ⟨haddress, htext⟩ := h.shows text hscr
    cases e with
    | apdu cmd o => cases he
    | answer confirm o =>
      cases confirm with
      | false => exact .inr (.inl ⟨swDeny, by rw [step, onAnswer, hscr]; rfl⟩)
      | true =>
        refine .inr (.inr ⟨?_, since_head h.since ⟨⟨o, rfl⟩, text, hscr, ⟨rfl, ?_⟩, ?_⟩⟩)
        · rw [step, onAnswer, hscr, ← haddress]
          rfl
        · rw [← haddress]
          exact htext
        · exact h.drawn text hscr
    | toggle sw =>
      exact .inl ⟨rfl, hnext, h.only, h.shows, fun text hscr => (h.drawn text hscr).cons _⟩
    | restart => exact .inl ⟨rfl, confirming_of_idle hnext rfl⟩
  | _ =>
    have hidle : b.2.screen.isReview = false := by
      cases hrev : b.2.screen.isReview with
      | false => rfl
      | true =>
        obtain ⟨text, htext⟩ := h.only hrev
        cases hscr.symm.trans htext
    refine .inl ⟨?_, confirming_of_idle hnext (local_untouched hidle he).idle⟩
    rw [local_silent hidle he]
    rfl

/-! ## The test -/

theorem safe_confirmAddress (h : Along sdk start b) :
    Safe (Meets sdk may) (confirmAddress packedPath) (fun address b' => ∃ p n,
      acceptedPath sdk packedPath = some (p, n) ∧
      address = (addressOf sdk (publicKey sdk p n)).toList ∧
      Since (Confirms sdk start p n) start.1 b'.1) b := by
  have hasked : Safe (Meets sdk may) (getPublicKeyWithConfirmation packedPath)
      (fun data b' => data = [] ∨ ∃ p n, acceptedPath sdk packedPath = some (p, n) ∧
        data = zondAddressPrefix :: (addressOf sdk (publicKey sdk p n)).toList ∧
        Since (Confirms sdk start p n) start.1 b'.1) b := by
    refine safe_exchange (I := Along sdk start) (fun b e h he _ => h.own he) ?_ h
    intro b e o reply b' h hidle hsent _ hawaits
    have hreq := hsent.publicKey (by decide)
    have hnext : Along sdk start (b.next (step sdk) e) := h.next (hsent.serial b.1 hidle)
    by_cases hdata : packedPath = []
    · rw [if_pos hdata] at hreq
      have hreply : replyOf (step sdk b.2 e).2 = some ⟨swWrongDataLength, []⟩ := by
        rw [step_request hreq hsent.outcome]
        rfl
      cases (hawaits.now hreply).1
    rw [if_neg hdata] at hreq
    rcases asked_awaiting hreq hsent.outcome hidle h hnext with ⟨sw, hreply⟩ | ⟨p, n, hpath, hfirst⟩
    · cases (hawaits.now hreply).1
      exact .inl rfl
    obtain ⟨out, hend, hreply⟩ := hawaits.invariant (J := Awaiting sdk start p n)
      (fun out b e hj hnone he => by
        rcases hj with ⟨-, hconf⟩ | ⟨sw, hsome⟩ | ⟨hsome, -⟩
        · exact hconf.awaiting he.1
        · cases hnone.symm.trans hsome
        · cases hnone.symm.trans hsome) hfirst
    have hreply : replyOf out = some ⟨swOk, reply⟩ := hreply
    rcases hend with ⟨hnone, -⟩ | ⟨sw, hsome⟩ | ⟨hsome, hsince⟩
    · cases hnone.symm.trans hreply
    · cases hsome.symm.trans hreply
      exact .inl rfl
    · cases hsome.symm.trans hreply
      exact .inr ⟨p, n, hpath, rfl, hsince⟩
  refine safe_bind.mpr (hasked.mono ?_)
  intro data b' hdata
  refine safe_bind.mpr (safe_assert ?_)
  rintro ⟨-, hlen⟩
  rcases hdata with rfl | ⟨p, n, hpath, rfl, hsince⟩
  · cases hlen
  · exact ⟨p, n, hpath, rfl, hsince⟩

/-! ## A willing user -/

/-- The reply is to come, or it is the address. -/
def Comes (sdk : Sdk) (start : Point) (address : Bytes addressSize) (out : List Effect)
    (b : Point) : Prop :=
  (replyOf out = none ∧ Along sdk start b ∧ b.2.ctx.address = address ∧
      ∃ text, b.2.screen = .address text) ∨
    replyOf out = some ⟨swOk, zondAddressPrefix :: address.toList⟩

theorem asked_comes (hq : Event.request e = some (.publicKey data true))
    (ho : Event.outcome e = some o) (hok : CallsOk o) (hpath : acceptedPath sdk data = some (p, n))
    (hnext : Along sdk start (b.next (step sdk) e)) :
    Comes sdk start (addressOf sdk (publicKey sdk p n)) (step sdk b.2 e).2
      (b.next (step sdk) e) := by
  have hstep : step sdk b.2 e =
      Result.after [.derive p n] (uiDisplayAddress sdk o (derivedKey sdk p n b.2)) := by
    rw [step_request hq ho, serve, handlerGetPublicKey_display hpath hok.keyOk]
  rw [uiDisplayAddress, if_neg (fun h => h.elim (· rfl) (· rfl))] at hstep
  rcases formatChecksummedAddress_cases sdk o.fromChecksum (derivedKey sdk p n b.2).ctx.address
    uiBufferSize_le with ⟨-, hno⟩ | ⟨text, htext, -⟩
  · exact absurd (hno.symm.trans hok.display.2.2.2.1) Bool.false_ne_true
  rw [htext] at hstep
  refine .inl ⟨by rw [hstep]; rfl, hnext, ?_, text, ?_⟩
  · exact congrArg (fun r => r.1.ctx.address) hstep
  · exact congrArg (fun r => r.1.screen) hstep

/-- An approval brings the reply. -/
theorem address_approved {text : List Char} (hscr : s.screen = .address text) (o : Outcome) :
    step sdk s (.answer true o) =
      ({ s with ctx := { s.ctx with state := .approved }, screen := .home },
        [.sendResponse .address (zondAddressPrefix :: s.ctx.address.toList)]) := by
  rw [step, onAnswer, hscr]
  rfl

theorem Comes.own {address : Bytes addressSize} {out : List Effect}
    (h : Comes sdk start address out b) (hnone : replyOf out = none) (he : isLocal e = true)
    (hw : Willing e) : Comes sdk start address (step sdk b.2 e).2 (b.next (step sdk) e) := by
  rcases h with ⟨-, halong, haddress, text, hscr⟩ | hsome
  swap
  · cases hnone.symm.trans hsome
  cases e with
  | apdu cmd o => cases he
  | answer confirm o =>
    obtain ⟨rfl, -⟩ := hw
    refine .inr ?_
    rw [address_approved hscr, haddress]
    rfl
  | toggle sw => exact .inl ⟨rfl, halong.own rfl, haddress, text, hscr⟩
  | restart => exact hw.elim

theorem Comes.succeeds {address : Bytes addressSize} {out : List Effect}
    (h : Comes sdk start address out b) :
    Succeeds sdk (fun data _ => data = zondAddressPrefix :: address.toList) out b := by
  constructor
  · refine exists_awaits (m := device sdk Willing) (J := Comes sdk start address)
      answersLeft ?_ h
    rintro out b (⟨-, halong, haddress, text, hscr⟩ | hsome) hnone
    · have hstep := @address_approved sdk _ _ hscr (.good (.zero mldsa87SigBytes))
      refine ⟨.answer true (.good (.zero _)), ⟨rfl, rfl, good_callsOk _⟩, .inr ?_, ?_⟩
      · show replyOf (step sdk b.2 _).2 = _
        rw [hstep, haddress]
        rfl
      · show answersLeft (step sdk b.2 _).1 < answersLeft b.2
        rw [hstep]
        exact answersLeft_pos (by rw [hscr]; rfl)
    · cases hnone.symm.trans hsome
  · intro r b' hawaits
    obtain ⟨last, hlast, hreply⟩ := hawaits.invariant (J := Comes sdk start address)
      (fun out b e hj hnone he => by exact hj.own hnone he.1 he.2) h
    have hreply : replyOf last = some r := hreply
    rcases hlast with ⟨hnone, -⟩ | hsome
    · cases hnone.symm.trans hreply
    · cases hsome.symm.trans hreply
      exact ⟨rfl, rfl⟩

theorem completes_confirmAddress (hpath : acceptedPath sdk packedPath = some (p, n))
    (hne : packedPath ≠ []) (hfits : packedPath.length ≤ 255) (h : AtRest sdk start b) :
    Completes (Meets sdk Willing) (confirmAddress packedPath) (fun _ _ => True) b := by
  have hasked : Completes (Meets sdk Willing) (getPublicKeyWithConfirmation packedPath)
      (fun data _ => data = zondAddressPrefix :: (addressOf sdk (publicKey sdk p n)).toList) b := by
    refine completes_exchange hfits (fun b e h he _ => h.own he) (fun b h => h.idle) ?_ h
    intro b e o h hsent hok
    have hreq := hsent.publicKey (by decide)
    rw [if_neg hne] at hreq
    exact (asked_comes hreq hsent.outcome hok hpath
      (h.toAlong.next (hsent.serial b.1 h.idle))).succeeds
  have hlen : (addressOf sdk (publicKey sdk p n)).toList.length = 64 :=
    (addressOf sdk (publicKey sdk p n)).size_eq
  refine completes_bind (hasked.mono ?_)
  rintro data b' rfl
  refine completes_bind (completes_assert ⟨rfl, ?_⟩ trivial)
  rw [List.length_cons, hlen]

/-! ## The address that is confirmed -/

/-- **A confirmed address** is that of the path, and the user has approved it
since, on a screen whose text spells just its bytes. -/
theorem confirmAddress_returns {address : List UInt8} (h : Run sdk Serial b.1 b.2)
    (hret : Returns (Meets sdk Anything) (confirmAddress packedPath) b address b') :
    ∃ p n, acceptedPath sdk packedPath = some (p, n) ∧
      address = (addressOf sdk (publicKey sdk p n)).toList ∧
      Since (fun hist en => Confirms sdk b p n hist en ∧
        ∃ body, en.pre.screen = .address ('Q' :: body) ∧ pairs body = address) b.1 b'.1 := by
  obtain ⟨p, n, hpath, rfl, hsince⟩ :=
    safe_iff.mp (safe_confirmAddress ⟨h, List.suffix_rfl⟩) address b' hret
  refine ⟨p, n, hpath, rfl, hsince.mono ?_⟩
  intro hist en hconfirms
  obtain ⟨text, hscr, hshown, -⟩ := hconfirms.shown
  obtain ⟨body, rfl, hbody⟩ := formatChecksummedAddress_reads hshown.text
  exact ⟨hconfirms, body, hscr, hbody⟩

/-- On a fresh device the test returns. -/
theorem freshAddress_returns : ∃ (address : List UInt8) (b' : HostClient.Point) (p : Path) (n : UInt8),
    acceptedPath testSdk canonicalPath = some (p, n) ∧
      address = (addressOf testSdk (publicKey testSdk p n)).toList ∧
      Since (fun hist en => Confirms testSdk ([], startUp .zero) p n hist en ∧
        ∃ body, en.pre.screen = .address ('Q' :: body) ∧ pairs body = address) [] b'.1 := by
  obtain ⟨⟨p, n⟩, hpath⟩ := Option.isSome_iff_exists.mp canonicalPath_accepted
  have hrest : AtRest testSdk ([], startUp .zero) ([], startUp .zero) :=
    ⟨⟨.start ⟨.zero, rfl⟩, List.suffix_rfl⟩, rfl⟩
  obtain ⟨address, b', hret, -⟩ := (completes_confirmAddress hpath (by decide) canonicalPath_fits
    hrest).exists_returns
  exact ⟨address, b', confirmAddress_returns (b := ([], startUp .zero)) (.start ⟨.zero, rfl⟩)
    (hret.mono fun _ _ _ _ => meets_anything)⟩

end LedgerZond.HostAddress
