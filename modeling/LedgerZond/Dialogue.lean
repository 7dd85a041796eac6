import LedgerZond.ParameterWalk
import LedgerZond.Approval

/-! # Every review ends

A review is a dialogue: each answer of the user leads to another screen of it
or out of it. How many answers are left at the most is a number each of them
lowers, whatever APDUs came in between; and the review pays the one response it
owes. Only where a walk stalls is an answer answered and the page left as it
was, to be answered again or rejected. -/
namespace LedgerZond.Dialogue
open LedgerZond.CTypes LedgerZond.Types LedgerZond.Platform LedgerZond.AppState LedgerZond.Review
open LedgerZond.App LedgerZond.Requests LedgerZond.Displays LedgerZond.Steps LedgerZond.Answers
open LedgerZond.Parameters LedgerZond.ParameterWalk Lib.Machine
open LedgerZond.Approval (AnyOrder)

variable {sdk : Sdk} {hist : History} {s : State} {e : Event} {r : Result} {o : Outcome}

/-! ## The parameters of a walk -/

/-- A walk has sixteen parameters at the most. -/
def InWalk (s : State) : Prop := s.paramCount.toNat ≤ abiMaxParams

theorem displayed_paramCount {blind : Bool} (hd : Displayed sdk o blind s r) :
    r.1.paramCount = s.paramCount := by
  cases hd <;> rfl

/-- A walk that begins has the count of the call data that was parsed. -/
theorem inWalk_beginWalk {calldata : List UInt8}
    (hparse : abiCalldataParse calldata = (true, s.ctx.txInfo.calldata)) :
    InWalk (beginWalk sdk s).1 := by
  rcases abiCalldataParse_cases calldata with ⟨hfalse, -⟩ | ⟨k, out, -, hout, hcount, -⟩
  · rw [hparse] at hfalse
    cases hfalse
  · cases hparse.symm.trans hout
    show s.ctx.txInfo.calldata.paramCount.toNat ≤ abiMaxParams
    rw [hcount]
    exact Nat.min_le_right _ _

/-- **One step** keeps the walk inside its parameters. -/
theorem InWalk.step (h : InWalk s) (e : Event) : InWalk (step sdk s e).1 := by
  have hdid := step_did sdk s e
  generalize hr : App.step sdk s e = r at hdid
  cases hdid with
  | fixed eff _ _ _ _ _ => exact h
  | refusedChunk sw _ _ _ => exact h
  | appended rawTx _ _ _ => exact h
  | parsed o rawTx hq ho hfit _ hp =>
    have hset := hp.settled
    cases hset with
    | answered txInfo sw _ => exact h
    | refused txInfo _ => exact h
    | selector txInfo pair count _ =>
      obtain ⟨cmd, o', rfl⟩ := apdu_of_request hq
      have hdraw : Effect.draw (.confirm pair) ∈ (App.step sdk s (.apdu cmd o')).2 := by
        rw [hr]
        exact List.mem_singleton_self _
      obtain ⟨s', calldata, hbegin, hparse, -⟩ := step_beginsWalk hdraw
      rw [← hr, hbegin]
      exact inWalk_beginWalk hparse
    | displayed txInfo _ hd =>
      rw [InWalk, displayed_paramCount hd]
      exact h
  | opened p n sw _ _ => exact h
  | noSignature _ _ => exact h
  | chunkSent _ _ _ _ =>
    unfold afterChunk
    split <;> exact h
  | keyServed _ hk =>
    cases hk with
    | answered ctx pk effects _ _ => exact h
    | shown ctx pk text _ => exact h
  | denied o _ => exact h
  | walked o next _ _ => exact h
  | walkEnded o _ _ hd =>
    rw [InWalk, displayed_paramCount hd]
    exact h
  | signed o _ _ => exact h
  | unsigned o sig effects _ _ _ => exact h
  | addressApproved o _ => exact h
  | dismissed confirm o _ => exact h
  | toggled sw => exact h
  | restarted => exact Nat.zero_le _

theorem inWalk_of_run {ok : History → State → Event → Prop} (h : Run sdk ok hist s) :
    InWalk s := by
  induction h with
  | start hstart =>
    obtain ⟨nvm, rfl⟩ := hstart
    exact Nat.zero_le _
  | next e _ _ hin => exact hin.step e

/-! ## The answers that are left -/

/-- How many answers, at the most, the review on screen still takes: a page of
a walk those to the parameters behind it, its own and that to the review. -/
def answersLeft (s : State) : Nat :=
  match s.screen with
  | .home => 0
  | .blindSigningError => 0
  | .transaction _ _ => 1
  | .address _ => 1
  | .confirm _ => s.paramCount.toNat - (nextIndex s).toNat + 2

theorem answersLeft_pos (h : s.screen.isReview = true) : 0 < answersLeft s := by
  unfold answersLeft
  cases hscr : s.screen with
  | home => rw [hscr] at h; cases h
  | blindSigningError => rw [hscr] at h; cases h
  | confirm pair => exact Nat.succ_pos _
  | transaction pairs blind => exact Nat.one_pos
  | address text => exact Nat.one_pos

theorem answersLeft_home (h : s.screen = .home) : answersLeft s = 0 := by
  rw [answersLeft, h]

theorem answersLeft_confirm {pair : Pair} (h : s.screen = .confirm pair) :
    answersLeft s = s.paramCount.toNat - (nextIndex s).toNat + 2 := by
  rw [answersLeft, h]

/-- The page behind a confirmed one has one answer less to go. -/
theorem nextIndex_confirmed {next : Pair} (h : InWalk s) (hlt : nextIndex s < s.paramCount) :
    (nextIndex { confirmed s with screen := .confirm next }).toNat = (nextIndex s).toNat + 1 := by
  have hcount : s.paramCount.toNat ≤ 16 := h
  rw [UInt8.lt_iff_toNat_lt] at hlt
  show (nextIndex s + 1).toNat = (nextIndex s).toNat + 1
  rw [UInt8.toNat_add]
  exact Nat.mod_eq_of_lt (by change (nextIndex s).toNat + 1 < 256; omega)

/-- **An answer** leaves fewer answers to give, unless it stalls the walk. -/
theorem answer_lowers (h : InWalk s) {confirm : Bool}
    (hgoes : stalls s (.answer confirm o) = false) :
    answersLeft (step sdk s (.answer confirm o)).1 ≤ answersLeft s - 1 := by
  have hdid := step_did sdk s (.answer confirm o)
  have hhome : ∀ {t : State}, t.screen = .home → answersLeft t ≤ answersLeft s - 1 := by
    intro t ht
    rw [answersLeft_home ht]
    exact Nat.zero_le _
  generalize App.step sdk s (.answer confirm o) = r at hdid
  cases hdid with
  | fixed eff hq _ _ _ _ => cases hq
  | refusedChunk sw hq _ _ => rcases hq with hq | hq <;> cases hq
  | appended rawTx hq _ _ => cases hq
  | parsed o rawTx hq _ _ _ _ => cases hq
  | opened p n sw hq _ => cases hq
  | noSignature hq _ => cases hq
  | chunkSent hq _ _ _ => cases hq
  | keyServed hq _ => cases hq
  | walked o next hs hlt =>
    have hnext := @nextIndex_confirmed s next h hlt
    rw [answersLeft_confirm hs, answersLeft_confirm (s := { confirmed s with screen := _ }) rfl,
      hnext]
    rw [UInt8.lt_iff_toNat_lt] at hlt
    show s.paramCount.toNat - ((nextIndex s).toNat + 1) + 2 ≤ _
    omega
  | walkEnded o hs hlast hd =>
    have hok : IsParsed s.ctx ∧ DisplayOk o := by
      by_contra hno
      rw [(stalls_confirm hs).mpr ⟨hlast, hno⟩] at hgoes
      cases hgoes
    rw [answersLeft_confirm hs]
    cases hd with
    | badState hno => exact absurd hok.1 hno
    | failed pk address _ hno => exact absurd hok.2 hno
    | shown pairs _ _ _ => exact Nat.succ_le_succ (Nat.zero_le _)
  | _ => exact hhome rfl

/-! ## Every review -/

/-- How many of the answers stall a walk. -/
def stalled (sdk : Sdk) (s : State) (answers : List Answer) : Nat :=
  ((exec (step sdk) s (eventsOf answers)).1.map fun en => (stalls en.pre en.event).toNat).sum

/-- What a review owes its user and the host, whatever the answers. -/
structure Ends (sdk : Sdk) (s : State) (answers : List Answer) : Prop where
  /-- One response in all, on the way out, and one for each time a walk stalls. -/
  answered : responses (letOut sdk s answers) + pending (afterAnswers sdk s answers) =
    pending s + stalled sdk s answers
  ends : stalled sdk s answers = 0 → answersLeft s ≤ answers.length →
    (afterAnswers sdk s answers).screen.isReview = false
  rejects : (∃ a ∈ answers, a.1 = false) → (afterAnswers sdk s answers).screen.isReview = false

theorem isAnswer_eventsOf {answers : List Answer} :
    ∀ e ∈ eventsOf answers, ∃ confirm o, e = .answer confirm o := by
  intro e he
  obtain ⟨a, -, rfl⟩ := List.mem_map.mp (List.mem_reverse.mp he)
  exact ⟨a.1, a.2, rfl⟩

theorem responses_letOut (sdk : Sdk) (s : State) (answers : List Answer) :
    responses (letOut sdk s answers) =
      ((exec (step sdk) s (eventsOf answers)).1.map fun en => responses en.out).sum := by
  unfold letOut responses outputs
  rw [List.countP_flatten, List.map_reverse, List.sum_reverse, List.map_map]
  rfl

/-- Answers none of which stalls a walk. -/
theorem InWalk.answersLeft_after (h : InWalk s) {answers : List Answer}
    (hnone : stalled sdk s answers = 0) :
    answersLeft (afterAnswers sdk s answers) ≤ answersLeft s - answers.length := by
  have hlen : (eventsOf answers).length = answers.length := by simp [eventsOf]
  rw [← hlen]
  refine (exec_rank (fun s e hs _ => hs.step e) ?_ h (@isAnswer_eventsOf answers) hnone).2
  rintro s e hs ⟨confirm, o, rfl⟩ hgoes
  refine answer_lowers hs ?_
  cases hstalls : stalls s (.answer confirm o) with
  | false => rfl
  | true =>
    have hone : (stalls s (.answer confirm o)).toNat = 0 := hgoes
    rw [hstalls] at hone
    cases hone

theorem reject_home (sdk : Sdk) (o : Outcome) (s : State) :
    (onAnswer sdk o false s).1.screen = .home := by
  unfold onAnswer
  cases hscr : s.screen with
  | home => exact hscr
  | _ => rfl

/-- A rejection ends what is on screen, whatever is answered behind it. -/
theorem rejected_home {answers : List Answer} (hno : ∃ a ∈ answers, a.1 = false) :
    (afterAnswers sdk s answers).screen = .home := by
  induction answers generalizing s with
  | nil => simp at hno
  | cons a answers ih =>
    obtain ⟨confirm, o⟩ := a
    rw [afterAnswers_cons]
    cases confirm with
    | false =>
      have hhome := reject_home sdk o s
      rw [(home_idle hhome answers).2]
      exact hhome
    | true => exact ih (by simpa using hno)

theorem InWalk.ends (h : InWalk s) (answers : List Answer) : Ends sdk s answers := by
  constructor
  · rw [responses_letOut]
    refine exec_account ?_ (@isAnswer_eventsOf answers)
    rintro s e ⟨confirm, o, rfl⟩
    have hserial : Serial [] s (.answer confirm o) := trivial
    exact step_answers sdk hserial rfl
  · intro hnone hlen
    have hleft := h.answersLeft_after hnone
    cases hscr : (afterAnswers sdk s answers).screen.isReview with
    | false => rfl
    | true =>
      have hpos := answersLeft_pos hscr
      omega
  · intro hno
    rw [rejected_home hno]
    rfl

end LedgerZond.Dialogue
