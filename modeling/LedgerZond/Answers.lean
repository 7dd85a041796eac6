import LedgerZond.Steps

/-! # Every request is answered once

A step sends one response for an APDU, or puts a review on screen and sends
none; each answer of the user to a review leads to another review or sends
the one response that is still due. The one exception is the end of a walk: a
review that cannot be displayed is answered, and the page it was called from
stays on screen to be answered again. Elsewhere the responses sent and the
review on screen add up to the APDUs received. -/
namespace LedgerZond.Answers
open LedgerZond.CTypes LedgerZond.Types LedgerZond.Platform LedgerZond.AppState
open LedgerZond.App LedgerZond.Requests LedgerZond.Displays LedgerZond.PublicKey LedgerZond.Steps

variable {sdk : Sdk} {hist : History} {s : State} {e : Event} {r : Result} {o : Outcome}

/-! ## Counting -/

/-- `io_send_sw` and `io_send_response_pointer`. -/
def Effect.isResponse : Effect → Bool
  | .sendSw _ => true
  | .sendResponse _ _ => true
  | _ => false

/-- The responses among what a step lets out. -/
def responses (out : List Effect) : Nat := out.countP Effect.isResponse

/-- The review on screen, if there is one. -/
def pending (s : State) : Nat := if s.screen.isReview then 1 else 0

def requests : Event → Nat
  | .apdu _ _ => 1
  | _ => 0

def restarts : Event → Bool
  | .restart => true
  | _ => false

/-- The APDUs received since the application was started. -/
def received : History → Nat
  | [] => 0
  | en :: hist => if restarts en.event then 0 else received hist + requests en.event

/-- The responses sent since the application was started. -/
def sent : History → Nat
  | [] => 0
  | en :: hist => if restarts en.event then 0 else sent hist + responses en.out

/-- The step sends what it adds to the requests, apart from the review that
was on screen before and the one it puts there. -/
def AnswersOnce (en : Entry) : Prop :=
  restarts en.event = false →
    responses en.out + pending en.post = pending en.pre + requests en.event

theorem requests_of_request {q : Request} (h : Event.request e = some q) : requests e = 1 := by
  obtain ⟨cmd, o, rfl⟩ := apdu_of_request h
  rfl

theorem pending_home (h : s.screen.isReview = false) : pending s = 0 := by simp [pending, h]

theorem pending_review (h : s.screen.isReview = true) : pending s = 1 := by simp [pending, h]

/-! ## Where a walk stalls -/

/-- The last page of a walk is confirmed, and the review behind it is refused
or one of its calls fails. -/
def stalls (s : State) (e : Event) : Bool :=
  match e, s.screen with
  | .answer true o, .confirm _ =>
    !decide (nextIndex s < s.paramCount) && !decide (IsParsed s.ctx ∧ DisplayOk o)
  | _, _ => false

theorem stalls_confirm {pair : Pair} (hs : s.screen = .confirm pair) :
    stalls s (.answer true o) = true ↔
      ¬nextIndex s < s.paramCount ∧ ¬(IsParsed s.ctx ∧ DisplayOk o) := by
  simp only [stalls, hs, Bool.and_eq_true, Bool.not_eq_true', decide_eq_false_iff_not]

/-- Nothing stalls while every call of the review succeeds. -/
theorem stalls_of_ok (hparsed : IsParsed s.ctx) (hok : DisplayOk o) (confirm : Bool) :
    stalls s (.answer confirm o) = false := by
  unfold stalls
  split
  · rename_i he _
    cases he
    have hgood : IsParsed s.ctx ∧ DisplayOk o := ⟨hparsed, hok⟩
    rw [decide_eq_true hgood, Bool.not_true, Bool.and_false]
  · rfl

theorem stalls_request {q : Request} (hq : Event.request e = some q) : stalls s e = false := by
  obtain ⟨cmd, o, rfl⟩ := apdu_of_request hq
  rfl

/-- Only a walk stalls. -/
theorem stalls_screen (hscr : ∀ pair, s.screen ≠ .confirm pair) : stalls s e = false := by
  unfold stalls
  split
  · rename_i pair hs
    exact absurd hs (hscr pair)
  · rfl

/-! ## What a step sends -/

/-- A display that comes up sends nothing. -/
theorem Displayed.comesUp {blind : Bool} (h : Displayed sdk o blind s r)
    (hok : IsParsed s.ctx ∧ DisplayOk o) : responses r.2 = 0 ∧ pending r.1 = 1 := by
  cases h with
  | badState hno => exact absurd hok.1 hno
  | failed pk address _ hno => exact absurd hok.2 hno
  | shown pairs _ _ _ => exact ⟨rfl, rfl⟩

/-- One that does not is answered, and the screen stays. -/
theorem Displayed.stays {blind : Bool} (h : Displayed sdk o blind s r)
    (hno : ¬(IsParsed s.ctx ∧ DisplayOk o)) : responses r.2 = 1 ∧ r.1.screen = s.screen := by
  cases h with
  | badState _ => exact ⟨rfl, rfl⟩
  | failed pk address _ _ => exact ⟨rfl, rfl⟩
  | shown pairs hp hok _ => exact absurd ⟨hp, hok⟩ hno

theorem Displayed.answersOnce {blind : Bool} (h : Displayed sdk o blind s r)
    (hscr : s.screen.isReview = false) : responses r.2 + pending r.1 = 1 := by
  by_cases hok : IsParsed s.ctx ∧ DisplayOk o
  · obtain ⟨hnone, hone⟩ := Displayed.comesUp h hok
    rw [hnone, hone]
  · obtain ⟨hone, hstays⟩ := Displayed.stays h hok
    rw [hone, pending_home (hstays ▸ hscr)]

/-- The end of a walk, which is answered and stays if it stalls. -/
theorem Displayed.endsWalk {blind : Bool} (h : Displayed sdk o blind s r)
    (hscr : s.screen.isReview = true) :
    responses r.2 + pending r.1 = 1 + (!decide (IsParsed s.ctx ∧ DisplayOk o)).toNat := by
  by_cases hok : IsParsed s.ctx ∧ DisplayOk o
  · obtain ⟨hnone, hone⟩ := Displayed.comesUp h hok
    rw [hnone, hone, decide_eq_true hok]
    rfl
  · obtain ⟨hone, hstays⟩ := Displayed.stays h hok
    rw [hone, pending_review (hstays ▸ hscr), decide_eq_false hok]
    rfl

theorem Settled.answersOnce (h : Settled sdk o s r) (hscr : s.screen.isReview = false) :
    responses r.2 + pending r.1 = 1 := by
  cases h with
  | answered txInfo sw _ => exact congrArg (1 + ·) (pending_home hscr)
  | refused txInfo _ => rfl
  | selector txInfo pair count _ => rfl
  | displayed txInfo _ hd => exact Displayed.answersOnce hd hscr

theorem KeyAsked.answersOnce {cdata : List UInt8} {display : Bool}
    (h : KeyAsked sdk o cdata display s r) (hscr : s.screen.isReview = false) :
    responses r.2 + pending r.1 = 1 := by
  cases h with
  | refused p n _ => exact congrArg (1 + ·) (pending_home hscr)
  | failed p n pk address error _ _ => exact congrArg (1 + ·) (pending_home hscr)
  | answered p n _ _ _ => exact congrArg (1 + ·) (pending_home hscr)
  | unshown p n _ _ _ => exact congrArg (1 + ·) (pending_home hscr)
  | shown p n text _ _ _ => rfl

/-- A signature that does not come about sends nothing of its own. -/
theorem SignUses.responses {effects : List Effect} (h : SignUses sdk o.sign s effects) :
    responses effects = 0 := by
  refine List.countP_eq_zero.mpr ?_
  intro eff heff
  rcases h eff heff with rfl | ⟨-, rfl⟩ | ⟨sig, rfl⟩ <;> simp [Effect.isResponse]

/-- One step, other than a `GET_PUBLIC_KEY` and a restart. -/
theorem Did.answers (h : Did sdk s e r) (hserial : Serial hist s e)
    (hkey : ∀ cdata display, Event.request e ≠ some (.publicKey cdata display))
    (hrestart : restarts e = false) :
    responses r.2 + pending r.1 = pending s + requests e + (stalls s e).toNat := by
  -- a request is served while no review is on screen
  have hof : ∀ {q : Request}, Event.request e = some q → responses r.2 + pending r.1 = 1 →
      responses r.2 + pending r.1 = pending s + requests e + (stalls s e).toNat := by
    intro q hq hone
    rw [hone, pending_home (serial_request hserial hq), requests_of_request hq, stalls_request hq]
    rfl
  -- an answer to a review settles the one response that review still owes
  have hanswer : s.screen.isReview = true → requests e = 0 → stalls s e = false →
      responses r.2 + pending r.1 = 1 →
      responses r.2 + pending r.1 = pending s + requests e + (stalls s e).toNat := by
    intro hscr hnone hgoes hone
    rw [hone, pending_review hscr, hnone, hgoes]
    rfl
  cases h with
  | fixed eff hq _ hplain hderive _ =>
    refine hof hq ?_
    have hresponse : Effect.isResponse eff = true := by
      cases eff with
      | derive p n => exact absurd rfl (hderive p n)
      | sendSw sw => rfl
      | sendResponse source data => rfl
      | _ => cases hplain
    simp [responses, hresponse, pending_home (serial_request hserial hq)]
  | refusedChunk sw hq _ _ =>
    obtain ⟨q, hreq⟩ : ∃ q, Event.request e = some q := hq.elim (⟨_, ·⟩) (⟨_, ·⟩)
    exact hof hreq (congrArg (1 + ·) (pending_home (serial_request hserial hreq)))
  | appended rawTx hq _ _ =>
    exact hof hq (congrArg (1 + ·) (pending_home (serial_request hserial hq)))
  | parsed o rawTx hq _ _ _ hp =>
    have hscr : s.screen.isReview = false := serial_request hserial hq
    exact hof hq (Settled.answersOnce hp.settled hscr)
  | opened p n sw hq _ =>
    exact hof hq (congrArg (1 + ·) (pending_home (serial_request hserial hq)))
  | noSignature hq _ =>
    exact hof hq (congrArg (1 + ·) (pending_home (serial_request hserial hq)))
  | @chunkSent _ p2 hq _ _ _ =>
    have hscr : (afterChunk p2 s).screen = s.screen := by
      unfold afterChunk
      split <;> rfl
    refine hof hq (congrArg (1 + ·) (pending_home ?_))
    rw [hscr]
    exact serial_request hserial hq
  | keyServed hq _ => exact absurd hq (hkey _ _)
  | denied o hscr => exact hanswer hscr rfl rfl rfl
  | walked o next hs hlt =>
    refine hanswer (by rw [hs]; rfl) rfl ?_ rfl
    rw [← Bool.not_eq_true, stalls_confirm hs]
    exact fun hlast => hlast.1 hlt
  | walkEnded o hs hlast hd =>
    have hscr : s.screen.isReview = true := by rw [hs]; rfl
    have hends := @Displayed.endsWalk sdk (confirmed s) r o true hd hscr
    have hstalls : stalls s (.answer true o) = !decide (IsParsed s.ctx ∧ DisplayOk o) := by
      simp only [stalls, hs, decide_eq_false hlast, Bool.not_false, Bool.true_and]
    rw [pending_review hscr, hends, hstalls]
    rfl
  | signed o hs _ =>
    exact hanswer (by rw [hs]; rfl) rfl (stalls_screen (by simp [hs])) rfl
  | unsigned o sig effects hs _ huse =>
    have hnone : effects.countP Effect.isResponse = 0 := SignUses.responses huse
    refine hanswer (by rw [hs]; rfl) rfl (stalls_screen (by simp [hs])) ?_
    rw [responses, List.countP_append, hnone]
    rfl
  | addressApproved o hs =>
    exact hanswer (by rw [hs]; rfl) rfl (stalls_screen (by simp [hs])) rfl
  | dismissed confirm o hscr =>
    have hgoes : stalls s (.answer confirm o) = false :=
      stalls_screen fun pair hs => by simp [hs, Screen.isReview] at hscr
    rw [pending_home hscr, hgoes]
    rfl
  | toggled sw => exact Nat.zero_add _
  | restarted => cases hrestart

/-- **One step** sends one response for a request, now or behind the review it
puts on screen, and one more where a walk stalls. -/
theorem step_answers (sdk : Sdk) {s : State} {e : Event} (hserial : Serial hist s e)
    (hrestart : restarts e = false) :
    responses (step sdk s e).2 + pending (step sdk s e).1 =
      pending s + requests e + (stalls s e).toNat := by
  by_cases hkey : ∃ cdata display, Event.request e = some (.publicKey cdata display)
  · obtain ⟨cdata, display, hq⟩ := hkey
    obtain ⟨o, ho⟩ := outcome_of_request hq
    have hscr := serial_request hserial hq
    have hasked : KeyAsked sdk o cdata display s (step sdk s e) := step_publicKey hq ho
    rw [KeyAsked.answersOnce hasked hscr, pending_home hscr, requests_of_request hq,
      stalls_request hq]
    rfl
  · exact Did.answers (step_did sdk s e) hserial
      (fun cdata display hq => hkey ⟨cdata, display, hq⟩) hrestart

/-- A step sends what it owes, exactly when it does not stall a walk. -/
theorem step_answersOnce_iff (sdk : Sdk) {s : State} {e : Event} (hserial : Serial hist s e) :
    AnswersOnce (entry sdk s e) ↔ stalls s e = false := by
  cases hrestart : restarts e with
  | true =>
    have hgoes : stalls s e = false := by
      cases e with
      | restart => rfl
      | _ => cases hrestart
    exact iff_of_true (fun hno => absurd (hrestart.symm.trans hno) (by simp)) hgoes
  | false =>
    have hanswers := step_answers sdk hserial hrestart
    constructor
    · intro honce
      have hone : responses (step sdk s e).2 + pending (step sdk s e).1 = pending s + requests e :=
        honce hrestart
      cases hstalls : stalls s e with
      | false => rfl
      | true =>
        rw [hstalls, Bool.toNat_true] at hanswers
        omega
    · intro hgoes _
      rw [hgoes] at hanswers
      exact hanswers

/-! ## Runs -/

/-- The responses sent are the requests received, but for the one whose review
is on screen. -/
def Balanced (hist : History) (s : State) : Prop := sent hist + pending s = received hist

/-- Steps that each send what they owe add up. -/
theorem balanced_of_answersOnce (h : Run sdk Serial hist s)
    (hall : Throughout (fun _ en => AnswersOnce en) hist) : Balanced hist s := by
  refine h.invariant_of_throughout ?_ ?_ hall
  · intro s hstart
    obtain ⟨nvm, rfl⟩ := hstart
    rfl
  · intro hist s e _ hbalanced _ hstep
    unfold Balanced at hbalanced ⊢
    cases hrestart : restarts e with
    | true =>
      cases e with
      | restart => rfl
      | _ => cases hrestart
    | false =>
      have hone : responses (step sdk s e).2 + pending (step sdk s e).1 = pending s + requests e :=
        hstep hrestart
      have hsent : sent (entry sdk s e :: hist) = sent hist + responses (step sdk s e).2 := by
        rw [sent, show restarts (entry sdk s e).event = false from hrestart]
        rfl
      have hreceived : received (entry sdk s e :: hist) = received hist + requests e := by
        rw [received, show restarts (entry sdk s e).event = false from hrestart]
        rfl
      show sent (entry sdk s e :: hist) + pending (step sdk s e).1 =
        received (entry sdk s e :: hist)
      omega

/-- **Every request is answered once**: the counts balance and every step sends
what it owes, no more and no less, exactly when no walk stalls. -/
theorem run_answersOnce_iff (h : Run sdk Serial hist s) :
    Balanced hist s ∧ Throughout (fun _ en => AnswersOnce en) hist ↔
      Throughout (fun _ en => stalls en.pre en.event = false) hist := by
  have hiff : Throughout (fun _ en => AnswersOnce en) hist ↔
      Throughout (fun _ en => stalls en.pre en.event = false) hist := by
    refine h.throughout_iff ?_
    intro en hist s hrun _
    obtain ⟨-, hserial, hen, -⟩ := hrun.last
    rw [hen]
    exact step_answersOnce_iff sdk hserial
  rw [← hiff]
  exact and_iff_right_of_imp (balanced_of_answersOnce h)

/-! ## A call without parameters -/

/-- A call of a contract with the selector `a9059cbb` alone. -/
def selectorCall : List UInt8 :=
  [0x02, 0xf8, 0x53, 1, 0x80, 0x80, 0x80, 0x80, 0xb8, 0x40] ++ List.replicate 64 0x11 ++
    [0x80, 0x84, 0xa9, 0x05, 0x9c, 0xbb, 0xc0, 0x83, 1, 0, 0, 0x80]

theorem selectorCall_fits : selectorCall.length ≤ 255 := by decide

/-- The digest of the call. -/
def selectorDigests (input : List UInt8) : Bytes 32 :=
  if input = selectorCall then
    ⟨[0x25, 0xc3, 0x16, 0xb1, 0x60, 0x4a, 0x4e, 0x57, 0xa6, 0xd7, 0x86, 0x99, 0xe6, 0x2b, 0xfa,
      0x80, 0x7f, 0x30, 0x3c, 0x32, 0xef, 0x48, 0x77, 0x69, 0x76, 0xa4, 0xaf, 0x4f, 0x46, 0x2f,
      0x98, 0x64], rfl⟩
  else .zero _

def selectorSdk : Sdk := referenceSdk selectorDigests

/-- The selector of the call is on screen, the latest event first. -/
def atSelector : List Event :=
  [signTx 2 0 selectorCall selectorCall_fits, signTx 0 0 canonicalPath canonicalPath_fits,
    .toggle .debugSmartContract, .toggle .blindSigning]

/-- The address cannot be hashed. -/
def unhashed : Outcome := { Outcome.good (.zero _) with address := ⟨cxOk, cxOk, .failed none⟩ }

/-- The selector and the review behind it are confirmed. -/
def walkedThrough : List Event := approve :: approve :: atSelector

/-- Every call succeeds, and the counts balance. -/
theorem walkedThrough_answersOnce :
    Balanced (runOf selectorSdk walkedThrough).1 (runOf selectorSdk walkedThrough).2 ∧
      Throughout (fun _ en => AnswersOnce en) (runOf selectorSdk walkedThrough).1 := by
  have hrun : Run selectorSdk Serial (runOf selectorSdk walkedThrough).1
      (runOf selectorSdk walkedThrough).2 :=
    Lib.Machine.Run.exec ⟨.zero, rfl⟩ walkedThrough (by decide)
  refine (run_answersOnce_iff hrun).mpr ⟨?_, ?_, ?_, ?_, ?_, ?_, trivial⟩ <;> decide

/-- The selector is confirmed while the address cannot be hashed, and then
rejected. -/
def stalledWalk : List Event :=
  .answer false (.good (.zero _)) :: .answer true unhashed :: atSelector

/-- Two requests, and three responses. -/
theorem stalledWalk_not_balanced :
    Run selectorSdk Serial (runOf selectorSdk stalledWalk).1 (runOf selectorSdk stalledWalk).2 ∧
      sent (runOf selectorSdk stalledWalk).1 = 3 ∧ received (runOf selectorSdk stalledWalk).1 = 2 ∧
      ¬Balanced (runOf selectorSdk stalledWalk).1 (runOf selectorSdk stalledWalk).2 :=
  ⟨Lib.Machine.Run.exec ⟨.zero, rfl⟩ stalledWalk (by decide), by decide, by decide,
    by unfold Balanced; decide⟩

end LedgerZond.Answers
