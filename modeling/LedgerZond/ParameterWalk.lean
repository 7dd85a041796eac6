import LedgerZond.Answers
import LedgerZond.Parameters

/-! # The walk through the parameters of a call

`reviewChoice` goes from the selector to the parameters and from the last of
them to the review of the transaction. All its answers lead through the same
screens in the same order, and a rejection ends the walk and the session. A
review that fails to come up leaves the last page on screen, to be confirmed
again; the index of its parameter goes on all the same, and has one byte. -/
namespace LedgerZond.ParameterWalk
open LedgerZond.CTypes LedgerZond.Types LedgerZond.Platform LedgerZond.AppState LedgerZond.Review
open LedgerZond.App LedgerZond.Requests LedgerZond.Displays LedgerZond.Steps LedgerZond.Answers
open LedgerZond.Parameters Lib.Machine

/-! ## Answers in order -/

/-- An answer of the user, and how the calls made for it turn out. -/
abbrev Answer := Bool × Outcome

/-- The events of answers, the latest first. -/
def eventsOf (answers : List Answer) : List Event :=
  (answers.map fun a => Event.answer a.1 a.2).reverse

/-- The state behind answers to what is on screen in `s`. -/
def afterAnswers (sdk : Sdk) (s : State) (answers : List Answer) : State :=
  (exec (step sdk) s (eventsOf answers)).2

/-- What the answers let out, in order. -/
def letOut (sdk : Sdk) (s : State) (answers : List Answer) : List Effect :=
  (outputs (step sdk) s (eventsOf answers)).reverse.flatten

/-- The answers before the first rejection. -/
def confirms (answers : List Answer) : List Answer := answers.takeWhile (·.1)

/-- How many answers confirm before one rejects. -/
def confirmations (answers : List Answer) : Nat := (confirms answers).length

/-! ## The walk -/

/-- `ui_contract_call_init` and `ui_confirm_selector`. -/
def beginWalk (sdk : Sdk) (s : State) : Result :=
  uiConfirmSelector sdk (uiContractCallInit s.ctx.txInfo.calldata.paramCount s)

/-- The screens of a walk: the selector, then each parameter. -/
def walkScreen (sdk : Sdk) (calldata : AbiCalldata) : Nat → Screen
  | 0 => .confirm ("Selector", selectorText calldata.selector)
  | i + 1 => .confirm ("Parameter",
      cString (parameterBuffer sdk (calldata.params.toList.getD i (.zero _)).toList))

def walkScreens (sdk : Sdk) (calldata : AbiCalldata) : List Screen :=
  (List.range (calldata.paramCount.toNat + 1)).map (walkScreen sdk calldata)

/-- The reviews of a selector or a parameter among what is let out. -/
def confirmScreens (effects : List Effect) : List Screen :=
  effects.filterMap fun eff =>
    match eff with
    | .draw (.confirm pair) => some (.confirm pair)
    | _ => none

/-- All that a walk and the answers behind it let out. -/
def shown (sdk : Sdk) (s : State) (answers : List Answer) : List Effect :=
  (beginWalk sdk s).2 ++ letOut sdk (beginWalk sdk s).1 answers

/-- The confirmations of the last page: each of them calls for the review of
the transaction. -/
def lastPage (s : State) (answers : List Answer) : List Answer :=
  (confirms answers).drop s.ctx.txInfo.calldata.paramCount.toNat

/-- How many of the calls for the review fail before one comes up. -/
def failedCalls (calls : List Answer) : Nat :=
  (calls.takeWhile fun a => !decide (DisplayOk a.2)).length

/-- What a walk from state `s` owes its user, whatever the answers. -/
structure Walks (sdk : Sdk) (s : State) (answers : List Answer) : Prop where
  /-- No parameter is read from behind the sixteen there are. -/
  inside : s.ctx.txInfo.calldata.paramCount.toNat ≤ abiMaxParams
  screens : confirmScreens (shown sdk s answers) =
    (walkScreens sdk s.ctx.txInfo.calldata).take (confirmations answers + 1)
  /-- Behind the last confirmation the review of the transaction is called for. -/
  reviewed : ∀ o, s.ctx.txInfo.calldata.paramCount.toNat < confirmations answers →
    answers[s.ctx.txInfo.calldata.paramCount.toNat]? = some (true, o) →
    ∃ last, last.ctx = s.ctx ∧ last.nvm = s.nvm ∧
      step sdk (afterAnswers sdk (beginWalk sdk s).1
          (answers.take s.ctx.txInfo.calldata.paramCount.toNat)) (.answer true o) =
        uiDisplayBlindSignedTransaction sdk o last
  /-- Nothing else leads there. -/
  called : Effect.derive s.ctx.bip32Path s.ctx.bip32PathLen ∈ shown sdk s answers ↔
    s.ctx.txInfo.calldata.paramCount.toNat < confirmations answers
  /-- It is drawn exactly where its calls succeed, and with the warning. -/
  final : ∀ pairs blind, Effect.draw (.transaction pairs blind) ∈ shown sdk s answers →
    blind = true
  reached : (∃ pairs, Effect.draw (.transaction pairs true) ∈ shown sdk s answers) ↔
    ∃ a ∈ lastPage s answers, DisplayOk a.2
  /-- A rejection of what is on screen, on the way or behind it, is answered
  once, and no signature is made or sent after it before a new session. Before
  it, only the failed calls for the review were answered. -/
  rejected : confirmations answers < answers.length →
    (∀ a ∈ (lastPage s answers).dropLast, ¬DisplayOk a.2) →
    (shown sdk s answers).filter Effect.isResponse =
        List.replicate (failedCalls (lastPage s answers)) (.sendSw swDisplayAddressFail) ++
          [.sendSw swDeny] ∧
      (afterAnswers sdk (beginWalk sdk s).1 answers).ctx = .zero ∧
      ∀ later, (∀ e ∈ later, opens e = false) →
        ∀ out ∈ outputs (step sdk) (afterAnswers sdk (beginWalk sdk s).1 answers) later,
          ∀ eff ∈ out, Effect.signs eff = false

/-- The last of a call's parameters is confirmed again and again while the
review behind it fails, until the byte of the index is used up, and then once
more. -/
def Restarts (s : State) (answers : List Answer) : Prop :=
  0 < s.ctx.txInfo.calldata.paramCount ∧ 256 < confirmations answers ∧
    ∀ a ∈ (lastPage s answers).take (256 - s.ctx.txInfo.calldata.paramCount.toNat),
      ¬DisplayOk a.2

variable {sdk : Sdk} {s : State} {o : Outcome}

/-! ## Answers one by one -/

theorem eventsOf_append (earlier later : List Answer) :
    eventsOf (earlier ++ later) = eventsOf later ++ eventsOf earlier := by
  rw [eventsOf, List.map_append, List.reverse_append]
  rfl

theorem afterAnswers_append (sdk : Sdk) (s : State) (earlier later : List Answer) :
    afterAnswers sdk s (earlier ++ later) =
      afterAnswers sdk (afterAnswers sdk s earlier) later := by
  rw [afterAnswers, eventsOf_append, exec_append]
  rfl

theorem letOut_append (sdk : Sdk) (s : State) (earlier later : List Answer) :
    letOut sdk s (earlier ++ later) =
      letOut sdk s earlier ++ letOut sdk (afterAnswers sdk s earlier) later := by
  rw [letOut, eventsOf_append, outputs_append, List.reverse_append, List.flatten_append]
  rfl

theorem afterAnswers_cons (sdk : Sdk) (s : State) (a : Answer) (answers : List Answer) :
    afterAnswers sdk s (a :: answers) = afterAnswers sdk (onAnswer sdk a.2 a.1 s).1 answers :=
  afterAnswers_append sdk s [a] answers

theorem letOut_cons (sdk : Sdk) (s : State) (a : Answer) (answers : List Answer) :
    letOut sdk s (a :: answers) =
      (onAnswer sdk a.2 a.1 s).2 ++ letOut sdk (onAnswer sdk a.2 a.1 s).1 answers := by
  have hone : letOut sdk s [a] = (onAnswer sdk a.2 a.1 s).2 := List.append_nil _
  rw [← hone]
  exact letOut_append sdk s [a] answers

/-- On the home screen an answer does nothing. -/
theorem home_idle (hs : s.screen = .home) (answers : List Answer) :
    letOut sdk s answers = [] ∧ afterAnswers sdk s answers = s := by
  induction answers with
  | nil => exact ⟨rfl, rfl⟩
  | cons a answers ih =>
    have hone : onAnswer sdk a.2 a.1 s = (s, []) := by
      unfold onAnswer
      rw [hs]
    rw [letOut_cons, afterAnswers_cons, hone, ih.1, ih.2]
    exact ⟨rfl, rfl⟩

/-! ## The states of a walk -/

/-- The state in which screen `i` of the walk is shown. -/
def walkState (sdk : Sdk) (s : State) (i : Nat) : State :=
  { s with
    currentScreen := if i = 0 then .selectorConfirmation else .parameterConfirmation
    paramIndex := UInt8.ofNat (i - 1)
    paramCount := s.ctx.txInfo.calldata.paramCount
    screen := walkScreen sdk s.ctx.txInfo.calldata i }

theorem beginWalk_eq (sdk : Sdk) (s : State) : beginWalk sdk s =
    (walkState sdk s 0, [.draw (walkScreen sdk s.ctx.txInfo.calldata 0)]) := rfl

theorem ofNat_lt_iff {i : Nat} {n : UInt8} (h : i ≤ n.toNat) : UInt8.ofNat i < n ↔ i < n.toNat := by
  have hn := n.toNat_lt
  rw [UInt8.lt_iff_toNat_lt, UInt8.toNat_ofNat', Nat.mod_eq_of_lt (by omega)]

theorem nextIndex_walkState (sdk : Sdk) (s : State) (i : Nat) :
    nextIndex (walkState sdk s i) = UInt8.ofNat i := by
  cases i with
  | zero => rfl
  | succ i =>
    rw [UInt8.ofNat_add]
    rfl

theorem isReview_walkState (sdk : Sdk) (s : State) (i : Nat) :
    (walkState sdk s i).screen.isReview = true := by
  cases i <;> rfl

theorem confirmed_walkState (sdk : Sdk) (s : State) (i : Nat) :
    confirmed (walkState sdk s i) = { s with
      currentScreen := .parameterConfirmation
      paramIndex := UInt8.ofNat i
      paramCount := s.ctx.txInfo.calldata.paramCount
      screen := walkScreen sdk s.ctx.txInfo.calldata i } := by
  rw [confirmed, nextIndex_walkState]
  rfl

theorem buildScreen_confirmed {i : Nat} (hi : i < s.ctx.txInfo.calldata.paramCount.toNat) :
    buildScreen sdk .parameterConfirmation (confirmed (walkState sdk s i)) =
      (walkState sdk s (i + 1), [.draw (walkScreen sdk s.ctx.txInfo.calldata (i + 1))]) := by
  have hn := s.ctx.txInfo.calldata.paramCount.toNat_lt
  have hindex : (UInt8.ofNat i).toNat = i := by
    rw [UInt8.toNat_ofNat']
    exact Nat.mod_eq_of_lt (by omega)
  have hpos : s.ctx.txInfo.calldata.paramCount > 0 :=
    (ofNat_lt_iff (Nat.zero_le _)).mpr (Nat.zero_lt_of_lt hi)
  simp only [confirmed_walkState, buildScreen, nbglUseCase, if_pos hpos, hindex]
  rfl

/-- The answer to a selector or a parameter. -/
theorem onAnswer_confirm (sdk : Sdk) (o : Outcome) {pair : Pair} (hs : s.screen = .confirm pair) :
    onAnswer sdk o true s =
      if nextIndex s < s.paramCount then buildScreen sdk .parameterConfirmation (confirmed s)
      else uiDisplayBlindSignedTransaction sdk o (confirmed s) := by
  rw [← reviewChoice_confirm]
  unfold onAnswer
  rw [hs]

theorem screen_walkState (sdk : Sdk) (s : State) (i : Nat) :
    ∃ pair, (walkState sdk s i).screen = .confirm pair := by
  cases i <;> exact ⟨_, rfl⟩

/-- **A confirmation** shows the next screen. -/
theorem confirm_next {i : Nat} (hi : i < s.ctx.txInfo.calldata.paramCount.toNat) :
    onAnswer sdk o true (walkState sdk s i) =
      (walkState sdk s (i + 1), [.draw (walkScreen sdk s.ctx.txInfo.calldata (i + 1))]) := by
  obtain ⟨pair, hs⟩ := screen_walkState sdk s i
  have hlt : nextIndex (walkState sdk s i) < s.ctx.txInfo.calldata.paramCount := by
    rw [nextIndex_walkState]
    exact (ofNat_lt_iff (le_of_lt hi)).mpr hi
  rw [onAnswer_confirm sdk o hs]
  exact (if_pos hlt).trans (buildScreen_confirmed hi)

/-- **A rejection** clears the context, and no answer behind it does anything. -/
theorem reject_ends (hs : s.screen.isReview = true) (o : Outcome) (rest : List Answer) :
    letOut sdk s ((false, o) :: rest) = [.sendSw swDeny] ∧
      afterAnswers sdk s ((false, o) :: rest) = { s with ctx := .zero, screen := .home } := by
  have hone : onAnswer sdk o false s = ({ s with ctx := .zero, screen := .home },
      [.sendSw swDeny]) := by
    unfold onAnswer
    cases hscr : s.screen with
    | home => rw [hscr] at hs; cases hs
    | blindSigningError => rw [hscr] at hs; cases hs
    | confirm pair => rfl
    | transaction pairs blind => rfl
    | address text => rfl
  obtain ⟨hquiet, hstay⟩ := @home_idle sdk { s with ctx := .zero, screen := .home } rfl rest
  rw [letOut_cons, afterAnswers_cons, hone, hquiet, hstay]
  exact ⟨rfl, rfl⟩

/-! ## The walk as a whole -/

/-- Confirmations, from screen `i` on, show the screens behind it. -/
theorem confirms_walk {answers : List Answer} (hall : ∀ a ∈ answers, a.1 = true) {i : Nat}
    (hi : i + answers.length ≤ s.ctx.txInfo.calldata.paramCount.toNat) :
    afterAnswers sdk (walkState sdk s i) answers = walkState sdk s (i + answers.length) ∧
      letOut sdk (walkState sdk s i) answers =
        (List.range' (i + 1) answers.length).map fun j =>
          .draw (walkScreen sdk s.ctx.txInfo.calldata j) := by
  induction answers generalizing i with
  | nil => exact ⟨rfl, rfl⟩
  | cons a answers ih =>
    rw [List.length_cons] at hi
    have hone : onAnswer sdk a.2 a.1 (walkState sdk s i) =
        (walkState sdk s (i + 1), [.draw (walkScreen sdk s.ctx.txInfo.calldata (i + 1))]) := by
      rw [hall a List.mem_cons_self]
      exact confirm_next (by omega)
    obtain ⟨hafter, hout⟩ := ih (fun b hb => hall b (List.mem_cons_of_mem _ hb))
      (i := i + 1) (by omega)
    rw [afterAnswers_cons, letOut_cons, hone, hafter, hout]
    constructor
    · rw [List.length_cons, Nat.add_assoc, Nat.add_comm 1]
    · rw [List.length_cons, List.range'_succ]
      rfl

/-- Where no selector and no parameter is on screen, and no address. -/
def Left (s : State) : Prop := s.screen = .home ∨ ∃ pairs blind, s.screen = .transaction pairs blind

/-- Behind the walk, an answer draws nothing and leads home. -/
theorem Left.answer (hs : Left s) (a : Answer) :
    (onAnswer sdk a.2 a.1 s).1.screen = .home ∧
      ∀ screen, Effect.draw screen ∉ (onAnswer sdk a.2 a.1 s).2 := by
  obtain ⟨confirm, o⟩ := a
  unfold onAnswer
  rcases hs with hs | ⟨pairs, blind, hs⟩
  · rw [hs]
    exact ⟨hs, fun screen => List.not_mem_nil⟩
  rw [hs]
  cases confirm with
  | false => exact ⟨rfl, fun screen hdraw => by cases List.mem_singleton.mp hdraw⟩
  | true =>
    rcases transactionChoice_cases sdk o s with ⟨-, hout⟩ | ⟨-, sig, effects, huse, hout⟩
    · simp only [hout]
      exact ⟨rfl, fun screen => by simp [signedEffects]⟩
    · simp only [hout]
      refine ⟨trivial, fun screen hdraw => ?_⟩
      rcases List.mem_append.mp hdraw with hdraw | hdraw
      · rcases huse _ hdraw with h | ⟨-, h⟩ | ⟨_, h⟩ <;> cases h
      · cases List.mem_singleton.mp hdraw

/-- Behind the walk, no answer draws anything. -/
theorem left_undrawn (hs : Left s) (answers : List Answer) :
    ∀ screen, Effect.draw screen ∉ letOut sdk s answers := by
  intro screen hdraw
  cases answers with
  | nil => cases hdraw
  | cons a answers =>
    obtain ⟨hhome, hundrawn⟩ := @Left.answer sdk s hs a
    rw [letOut_cons, (home_idle hhome answers).1, List.append_nil] at hdraw
    exact hundrawn screen hdraw

/-- The first `n` screens of a walk, drawn. -/
def drawn (sdk : Sdk) (s : State) (n : Nat) : List Effect :=
  (List.range n).map fun i => .draw (walkScreen sdk s.ctx.txInfo.calldata i)

theorem confirmScreens_append (earlier later : List Effect) :
    confirmScreens (earlier ++ later) = confirmScreens earlier ++ confirmScreens later :=
  List.filterMap_append

theorem confirmScreens_drawn (sdk : Sdk) (s : State) (n : Nat) : confirmScreens (drawn sdk s n) =
    (List.range n).map (walkScreen sdk s.ctx.txInfo.calldata) := by
  rw [confirmScreens, drawn, List.filterMap_map, ← List.filterMap_eq_map]
  refine List.filterMap_congr fun i _ => ?_
  cases i <;> rfl

/-- Nothing but selectors and parameters is drawn on the way. -/
theorem mem_drawn {n : Nat} {eff : Effect} (h : eff ∈ drawn sdk s n) :
    ∃ pair, eff = .draw (.confirm pair) := by
  obtain ⟨i, -, rfl⟩ := List.mem_map.mp h
  cases i <;> exact ⟨_, rfl⟩

/-- What is shown behind confirmations alone. -/
theorem shown_confirmed {answers : List Answer} (hall : ∀ a ∈ answers, a.1 = true)
    (hlen : answers.length ≤ s.ctx.txInfo.calldata.paramCount.toNat) :
    shown sdk s answers = drawn sdk s (answers.length + 1) ∧
      afterAnswers sdk (beginWalk sdk s).1 answers = walkState sdk s answers.length := by
  obtain ⟨hafter, hout⟩ := @confirms_walk sdk s answers hall 0 (by omega)
  rw [Nat.zero_add] at hafter
  rw [shown, beginWalk_eq]
  refine ⟨?_, hafter⟩
  rw [hout, drawn, List.range_eq_range', List.range'_succ]
  rfl

theorem shown_append (earlier later : List Answer) : shown sdk s (earlier ++ later) =
    shown sdk s earlier ++ letOut sdk (afterAnswers sdk (beginWalk sdk s).1 earlier) later := by
  rw [shown, letOut_append, ← List.append_assoc]
  rfl

/-- **A walk that is not gone through**: it goes on, or a rejection ended it. -/
theorem shown_short {answers : List Answer}
    (hc : confirmations answers ≤ s.ctx.txInfo.calldata.paramCount.toNat) :
    ∃ tail, shown sdk s answers = drawn sdk s (confirmations answers + 1) ++ tail ∧
      (tail = [] ∧ answers.length = confirmations answers ∨
        tail = [.sendSw swDeny] ∧ (afterAnswers sdk (beginWalk sdk s).1 answers).ctx = .zero ∧
          (afterAnswers sdk (beginWalk sdk s).1 answers).screen = .home) := by
  have hall : ∀ a ∈ answers.takeWhile (·.1), a.1 = true := fun a ha => List.mem_takeWhile_imp ha
  obtain ⟨hshown, hafter⟩ := @shown_confirmed sdk s _ hall hc
  have hsplit := List.takeWhile_append_dropWhile (p := (·.1)) (l := answers)
  cases hrest : answers.dropWhile (·.1) with
  | nil =>
    rw [hrest, List.append_nil] at hsplit
    refine ⟨[], ?_, .inl ⟨rfl, ?_⟩⟩
    · rw [hsplit] at hshown
      rw [List.append_nil, confirmations, confirms, hsplit, hshown]
    · rw [confirmations, confirms, hsplit]
  | cons a rest =>
    obtain ⟨confirm, o⟩ := a
    have hfalse : confirm = false := by
      have hhead := List.head_dropWhile_not (fun a : Answer => a.1) (l := answers)
        (by rw [hrest]; exact List.cons_ne_nil _ _)
      simpa only [hrest, List.head_cons] using hhead
    rw [hrest, hfalse] at hsplit
    obtain ⟨hout, hend⟩ :=
      reject_ends (isReview_walkState sdk s (confirmations answers)) o rest
    have hend' : afterAnswers sdk (beginWalk sdk s).1 answers =
        { walkState sdk s (confirmations answers) with ctx := .zero, screen := .home } := by
      conv_lhs => rw [← hsplit, afterAnswers_append, hafter]
      exact hend
    refine ⟨[.sendSw swDeny], ?_, .inr ⟨rfl, by rw [hend'], by rw [hend']⟩⟩
    conv_lhs => rw [← hsplit, shown_append, hafter, hshown]
    exact congrArg _ hout

/-- The answers behind confirmed ones. -/
theorem confirms_append {earlier later : List Answer} (hall : ∀ a ∈ earlier, a.1 = true) :
    confirms (earlier ++ later) = earlier ++ confirms later :=
  List.takeWhile_append_of_pos hall

theorem confirms_cons (o : Outcome) (rest : List Answer) :
    confirms ((true, o) :: rest) = (true, o) :: confirms rest := rfl

/-- The confirmations from the one that calls for the review first. -/
theorem confirms_split {answers : List Answer} {i : Nat} (hi : i ≤ confirmations answers) :
    (∀ a ∈ answers.take i, a.1 = true) ∧ (answers.take i).length = i ∧
      confirms (answers.drop i) = (confirms answers).drop i := by
  have hprefix := List.takeWhile_prefix (l := answers) fun a : Answer => a.1
  have hfront : answers.take i = (confirms answers).take i := by
    obtain ⟨rest, hrest⟩ := hprefix
    conv_lhs => rw [← hrest]
    exact List.take_append_of_le_length hi
  have hlen : (answers.take i).length = i :=
    List.length_take_of_le (hi.trans hprefix.length_le)
  have hall : ∀ a ∈ answers.take i, a.1 = true := by
    intro a ha
    rw [hfront] at ha
    exact List.mem_takeWhile_imp (List.mem_of_mem_take ha)
  refine ⟨hall, hlen, ?_⟩
  have hconfirms : confirms answers = answers.take i ++ confirms (answers.drop i) := by
    conv_lhs => rw [← List.take_append_drop i answers]
    exact confirms_append hall
  rw [hconfirms, List.drop_left' hlen]

/-! ## The last page -/

/-- The last of `n` parameters, or the selector of a call without any, is on
screen, and its confirmation goes on to `i`. -/
structure AtLast (n : UInt8) (i : Nat) (t : State) : Prop where
  parsed : IsParsed t.ctx
  page : ∃ pair, t.screen = .confirm pair
  next : nextIndex t = UInt8.ofNat i
  count : t.paramCount = n

theorem atLast_walkState (hp : IsParsed s.ctx) : AtLast s.ctx.txInfo.calldata.paramCount
    s.ctx.txInfo.calldata.paramCount.toNat
    (walkState sdk s s.ctx.txInfo.calldata.paramCount.toNat) :=
  ⟨hp, screen_walkState sdk s _, nextIndex_walkState sdk s _, rfl⟩

/-- Behind the last parameter there is none, while the index has not gone round. -/
theorem not_ofNat_lt {n : UInt8} {i : Nat} (hle : n.toNat ≤ i) (hi : 0 < n → i < 256) :
    ¬UInt8.ofNat i < n := by
  intro hlt
  have hpos : 0 < n := by
    rw [UInt8.lt_iff_toNat_lt] at hlt ⊢
    exact Nat.lt_of_le_of_lt (Nat.zero_le _) hlt
  rw [UInt8.lt_iff_toNat_lt, UInt8.toNat_ofNat', Nat.mod_eq_of_lt (hi hpos)] at hlt
  omega

section Last
variable {n : UInt8} {i : Nat} {t : State} {rest : List Answer}

/-- **The last confirmation** calls for the review of the transaction. -/
theorem AtLast.calls (h : AtLast n i t) (hend : ¬UInt8.ofNat i < n) (o : Outcome) :
    onAnswer sdk o true t = uiDisplayBlindSignedTransaction sdk o (confirmed t) := by
  obtain ⟨pair, hs⟩ := h.page
  have hlast : ¬nextIndex t < t.paramCount := by rwa [h.next, h.count]
  rw [onAnswer_confirm sdk o hs, if_neg hlast]

/-- A review that fails leaves the page, with the next index. -/
theorem AtLast.failed (h : AtLast n i t) (pk : PublicKey) (address : Bytes addressSize) :
    AtLast n (i + 1) (withKey pk address (confirmed t)) := by
  refine ⟨h.parsed, h.page, ?_, h.count⟩
  rw [UInt8.ofNat_add, ← h.next]
  rfl

/-- What one confirmation of the last page comes to. -/
theorem AtLast.answered (h : AtLast n i t) (hend : ¬UInt8.ofNat i < n) (o : Outcome) :
    (¬DisplayOk o ∧ ∃ t', AtLast n (i + 1) t' ∧ onAnswer sdk o true t =
        (t', [.derive t.ctx.bip32Path t.ctx.bip32PathLen, .sendSw swDisplayAddressFail])) ∨
      (DisplayOk o ∧ ∃ t' pairs, t'.screen = .transaction pairs true ∧ onAnswer sdk o true t =
        (t', [.derive t.ctx.bip32Path t.ctx.bip32PathLen, .draw (.transaction pairs true)])) := by
  rw [h.calls hend]
  have hd : Displayed sdk o true (confirmed t)
      (uiDisplayBlindSignedTransaction sdk o (confirmed t)) :=
    uiDisplayTransactionBsChoice_displayed sdk o true (confirmed t)
  generalize uiDisplayBlindSignedTransaction sdk o (confirmed t) = r at hd
  cases hd with
  | badState hno => exact absurd h.parsed hno
  | failed pk address _ hno => exact .inl ⟨hno, _, h.failed pk address, rfl⟩
  | shown pairs _ hok _ => exact .inr ⟨hok, _, pairs, rfl, rfl⟩

/-- What the answers to the last page let out (`tail`), and the state they
lead to. -/
structure EndsWalk (answers : List Answer) (tail : List Effect) (final : State) : Prop where
  unconfirmed : confirmScreens tail = []
  review : ∀ pairs blind, Effect.draw (.transaction pairs blind) ∈ tail → blind = true
  reviewed : (∃ pairs, Effect.draw (.transaction pairs true) ∈ tail) ↔
    ∃ a ∈ confirms answers, DisplayOk a.2
  rejected : confirmations answers < answers.length →
    (∀ a ∈ (confirms answers).dropLast, ¬DisplayOk a.2) →
    tail.filter Effect.isResponse =
        List.replicate (failedCalls (confirms answers)) (.sendSw swDisplayAddressFail) ++
          [.sendSw swDeny] ∧
      final.ctx = .zero ∧ final.screen = .home

/-- A failed call, before whatever the answers behind it come to. -/
theorem EndsWalk.behindFailure {tail : List Effect} {final : State} (h : EndsWalk rest tail final)
    (hno : ¬DisplayOk o) (p : Path) (len : UInt8) :
    EndsWalk ((true, o) :: rest)
      ([.derive p len, .sendSw swDisplayAddressFail] ++ tail) final := by
  have hdraw : ∀ screen, Effect.draw screen ∈
      ([.derive p len, .sendSw swDisplayAddressFail] : List Effect) ++ tail ↔
        Effect.draw screen ∈ tail := by
    intro screen
    simp
  constructor
  · rw [confirmScreens_append, h.unconfirmed]
    rfl
  · exact fun pairs blind hmem => h.review pairs blind ((hdraw _).mp hmem)
  · simp only [hdraw, confirms_cons, List.exists_mem_cons_iff]
    rw [h.reviewed, or_iff_right hno]
  · intro hlt hbefore
    rw [confirms_cons] at hbefore ⊢
    have hfailed : failedCalls ((true, o) :: confirms rest) = failedCalls (confirms rest) + 1 := by
      rw [failedCalls, List.takeWhile_cons_of_pos (by simp [hno])]
      rfl
    obtain ⟨hanswer, hend⟩ := h.rejected (Nat.lt_of_succ_lt_succ hlt) fun a ha => by
      refine hbefore a ?_
      cases hrest : confirms rest with
      | nil => rw [hrest] at ha; cases ha
      | cons b later =>
        rw [hrest] at ha
        exact List.mem_cons_of_mem _ ha
    rw [List.filter_append, hanswer, hfailed, List.replicate_succ]
    exact ⟨rfl, hend⟩

/-- A rejection of the last page. -/
theorem AtLast.rejected (h : AtLast n i t) (o : Outcome) :
    EndsWalk ((false, o) :: rest) (letOut sdk t ((false, o) :: rest))
      (afterAnswers sdk t ((false, o) :: rest)) := by
  obtain ⟨pair, hs⟩ := h.page
  obtain ⟨hout, hend⟩ := @reject_ends sdk t (by rw [hs]; rfl) o rest
  rw [hout, hend]
  refine ⟨rfl, fun pairs blind hdraw => by simp at hdraw, ?_, fun _ _ => ⟨rfl, rfl, rfl⟩⟩
  exact iff_of_false (by simp) (by simp [confirms])

/-- A review that comes up, and the answers to it. -/
theorem endsWalk_shown {pairs : List Pair} {p : Path} {len : UInt8} (hok : DisplayOk o)
    (ht : t.screen = .transaction pairs true) :
    EndsWalk ((true, o) :: rest)
      ([.derive p len, .draw (.transaction pairs true)] ++ letOut sdk t rest)
      (afterAnswers sdk t rest) := by
  have hundrawn := @left_undrawn sdk t (.inr ⟨pairs, true, ht⟩) rest
  have hnone : confirmScreens (letOut sdk t rest) = [] := by
    refine List.filterMap_eq_nil_iff.mpr fun eff heff => ?_
    cases eff with
    | draw screen => exact absurd heff (hundrawn screen)
    | _ => rfl
  constructor
  · rw [confirmScreens_append, hnone]
    rfl
  · intro pairs' blind hdraw
    have hmem := (List.mem_append.mp hdraw).resolve_right (hundrawn _)
    simp only [List.mem_cons, reduceCtorEq, Effect.draw.injEq, Screen.transaction.injEq,
      List.not_mem_nil, or_false, false_or] at hmem
    exact hmem.2
  · rw [confirms_cons]
    exact iff_of_true ⟨pairs, by simp⟩ ⟨_, List.mem_cons_self, hok⟩
  · intro hlt hbefore
    rw [confirms_cons] at hbefore ⊢
    -- the review came up at once, so the confirmation behind it would be an approval
    have hlast : confirms rest = [] := by
      cases hrest : confirms rest with
      | nil => rfl
      | cons a later =>
        rw [hrest, List.dropLast_cons_cons] at hbefore
        exact absurd hok (hbefore _ List.mem_cons_self)
    have hfailed : failedCalls ((true, o) :: confirms rest) = 0 := by
      rw [failedCalls, List.takeWhile_cons_of_neg (by simp [hok])]
      rfl
    rw [confirmations, confirms_cons, hlast] at hlt
    cases rest with
    | nil => simp at hlt
    | cons a rest =>
      obtain ⟨confirm, o'⟩ := a
      cases confirm with
      | true => cases hlast
      | false =>
        obtain ⟨hout, hend⟩ := @reject_ends sdk t (by rw [ht]; rfl) o' rest
        rw [hout, hend, hfailed]
        exact ⟨rfl, rfl, rfl⟩

/-- **The last page**, until the review behind it comes up. -/
theorem AtLast.endsWalk (h : AtLast n i t) (hle : n.toNat ≤ i) (hi : 0 < n → i ≤ 256)
    (hsafe : ¬(0 < n ∧ 256 < i + confirmations rest ∧
      ∀ a ∈ (confirms rest).take (256 - i), ¬DisplayOk a.2)) :
    EndsWalk rest (letOut sdk t rest) (afterAnswers sdk t rest) := by
  induction rest generalizing i t with
  | nil =>
    refine ⟨rfl, fun pairs blind hdraw => absurd hdraw List.not_mem_nil, ?_,
      fun hlt => absurd hlt (Nat.lt_irrefl 0)⟩
    exact iff_of_false (fun ⟨pairs, hdraw⟩ => absurd hdraw List.not_mem_nil) (by simp [confirms])
  | cons a rest ih =>
    obtain ⟨confirm, o⟩ := a
    cases confirm with
    | false => exact h.rejected o
    | true =>
      rw [confirmations, confirms_cons, List.length_cons] at hsafe
      -- the index has not gone round: this confirmation would be the one that restarts the walk
      have hround : 0 < n → i < 256 := by
        intro hpos
        refine lt_of_le_of_ne (hi hpos) ?_
        rintro rfl
        exact hsafe ⟨hpos, by omega, by simp⟩
      rw [letOut_cons, afterAnswers_cons]
      rcases @AtLast.answered sdk n i t h (not_ofNat_lt hle hround) o with
        ⟨hno, t', hlast, hout⟩ | ⟨hok, t', pairs, ht, hout⟩
      · have hrest := ih hlast (by omega) (fun hpos => hround hpos) (by
          rintro ⟨hpos, hlt, hall⟩
          refine hsafe ⟨hpos, by rw [confirmations] at hlt; omega, ?_⟩
          have hfirst : 256 - i = 256 - (i + 1) + 1 := by
            have := hround hpos
            omega
          rw [hfirst, List.take_succ_cons]
          exact List.forall_mem_cons.mpr ⟨hno, hall⟩)
        rw [hout]
        exact hrest.behindFailure hno _ _
      · rw [hout]
        exact endsWalk_shown hok ht

/-- **The index goes round**, and the first parameter is shown again. -/
theorem AtLast.restarts (h : AtLast n i t) (hpos : 0 < n) (hle : n.toNat ≤ i) (hi : i ≤ 256)
    (hround : 256 < i + confirmations rest)
    (hall : ∀ a ∈ (confirms rest).take (256 - i), ¬DisplayOk a.2) :
    confirmScreens (letOut sdk t rest) ≠ [] := by
  induction rest generalizing i t with
  | nil => exact absurd hround (by rw [confirmations, confirms]; simp; omega)
  | cons a rest ih =>
    obtain ⟨confirm, o⟩ := a
    cases confirm with
    | false => exact absurd hround (by rw [confirmations, confirms]; simp; omega)
    | true =>
      rw [confirms_cons] at hall
      rw [confirmations, confirms_cons, List.length_cons] at hround
      rw [letOut_cons]
      rcases Nat.lt_or_eq_of_le hi with hlt | rfl
      · have hfirst : 256 - i = 256 - (i + 1) + 1 := by omega
        rw [hfirst, List.take_succ_cons] at hall
        obtain ⟨hno, hrest⟩ := List.forall_mem_cons.mp hall
        rcases @AtLast.answered sdk n i t h (not_ofNat_lt hle fun _ => hlt) o with
          ⟨-, t', hlast, hout⟩ | ⟨hok, -⟩
        · rw [hout, confirmScreens_append]
          have hshown := ih hlast (by omega) hlt (by rw [confirmations]; omega) hrest
          exact fun hnil => hshown (List.append_eq_nil_iff.mp hnil).2
        · exact absurd hok hno
      · obtain ⟨pair, hs⟩ := h.page
        have hnext : nextIndex t < t.paramCount := by
          rw [h.next, h.count]
          exact hpos
        rw [onAnswer_confirm sdk o hs, if_pos hnext]
        simp [buildScreen, nbglUseCase, confirmScreens]

end Last

/-- What is shown behind the confirmations that lead to the last page. -/
theorem shown_last {answers : List Answer}
    (hc : s.ctx.txInfo.calldata.paramCount.toNat ≤ confirmations answers) :
    shown sdk s answers = drawn sdk s (s.ctx.txInfo.calldata.paramCount.toNat + 1) ++
        letOut sdk (walkState sdk s s.ctx.txInfo.calldata.paramCount.toNat)
          (answers.drop s.ctx.txInfo.calldata.paramCount.toNat) ∧
      afterAnswers sdk (beginWalk sdk s).1 answers =
        afterAnswers sdk (walkState sdk s s.ctx.txInfo.calldata.paramCount.toNat)
          (answers.drop s.ctx.txInfo.calldata.paramCount.toNat) ∧
      afterAnswers sdk (beginWalk sdk s).1
          (answers.take s.ctx.txInfo.calldata.paramCount.toNat) =
        walkState sdk s s.ctx.txInfo.calldata.paramCount.toNat := by
  obtain ⟨hall, hlen, -⟩ := confirms_split hc
  obtain ⟨hshown, hafter⟩ := @shown_confirmed sdk s _ hall (le_of_eq hlen)
  rw [hlen] at hshown hafter
  refine ⟨?_, ?_, hafter⟩
  · conv_lhs => rw [← List.take_append_drop s.ctx.txInfo.calldata.paramCount.toNat answers,
      shown_append, hafter, hshown]
  · conv_lhs => rw [← List.take_append_drop s.ctx.txInfo.calldata.paramCount.toNat answers,
      afterAnswers_append, hafter]

/-- The last page derives a key, for the review of the transaction. -/
theorem derive_mem_last {answers : List Answer} (hp : IsParsed s.ctx)
    (hc : s.ctx.txInfo.calldata.paramCount.toNat < confirmations answers) :
    Effect.derive s.ctx.bip32Path s.ctx.bip32PathLen ∈
      letOut sdk (walkState sdk s s.ctx.txInfo.calldata.paramCount.toNat)
        (answers.drop s.ctx.txInfo.calldata.paramCount.toNat) := by
  obtain ⟨-, -, hconfirms⟩ := confirms_split (le_of_lt hc)
  have hn := s.ctx.txInfo.calldata.paramCount.toNat_lt
  have hend : ¬UInt8.ofNat s.ctx.txInfo.calldata.paramCount.toNat <
      s.ctx.txInfo.calldata.paramCount := not_ofNat_lt le_rfl fun _ => hn
  cases hrest : answers.drop s.ctx.txInfo.calldata.paramCount.toNat with
  | nil =>
    rw [hrest] at hconfirms
    exact absurd (List.drop_eq_nil_iff.mp hconfirms.symm) (Nat.not_le.mpr hc)
  | cons a rest =>
    obtain ⟨confirm, o⟩ := a
    cases confirm with
    | false =>
      rw [hrest] at hconfirms
      exact absurd (List.drop_eq_nil_iff.mp hconfirms.symm) (Nat.not_le.mpr hc)
    | true =>
      rw [letOut_cons]
      refine List.mem_append_left _ ?_
      rcases (@atLast_walkState sdk s hp).answered hend o with
        ⟨-, t', -, hout⟩ | ⟨-, t', pairs, -, hout⟩
      · rw [hout]
        exact List.mem_cons_self
      · rw [hout]
        exact List.mem_cons_self

/-! ## Behind a rejection -/

/-- No transaction is held, and none is on screen. -/
def Closed (s : State) : Prop := ¬leadsToSignature s.screen ∧ s.ctx.reqType ≠ .confirmTransaction

theorem closed_of_zero (hctx : s.ctx = .zero) (hs : s.screen = .home) : Closed s := by
  refine ⟨by rw [hs]; exact id, ?_⟩
  rw [hctx]
  exact fun hreq => by cases hreq

/-- Only a new session leads on from there. -/
theorem Closed.step {e : Event} {r : Result} (h : Closed s) (hopens : opens e = false)
    (hdid : Did sdk s e r) : Closed r.1 := by
  obtain ⟨hscr, hreq⟩ := h
  cases hdid with
  | fixed eff _ _ _ _ _ => exact ⟨hscr, hreq⟩
  | refusedChunk sw _ _ _ => exact ⟨hscr, hreq⟩
  | appended rawTx _ hfit _ => exact absurd hfit.1 hreq
  | parsed o rawTx _ _ hfit _ _ => exact absurd hfit.1 hreq
  | opened p n sw hq _ =>
    rw [opens_of_request hq] at hopens
    cases hopens
  | noSignature _ _ => exact ⟨hscr, hreq⟩
  | chunkSent _ _ _ hsend => exact absurd hsend.1 hreq
  | keyServed _ hk =>
    cases hk with
    | answered ctx pk effects haddr _ => exact ⟨hscr, by simp [haddr.1]⟩
    | shown ctx pk text haddr => exact ⟨id, by simp [haddr.1]⟩
  | denied o _ => exact closed_of_zero rfl rfl
  | walked o next hs _ => exact absurd (hs ▸ trivial) hscr
  | walkEnded o hs _ _ => exact absurd (hs ▸ trivial) hscr
  | signed o hs _ => exact absurd (hs ▸ trivial) hscr
  | unsigned o sig effects hs _ _ => exact absurd (hs ▸ trivial) hscr
  | addressApproved o _ => exact ⟨id, hreq⟩
  | dismissed confirm o _ => exact ⟨id, hreq⟩
  | toggled sw => exact ⟨hscr, hreq⟩
  | restarted => exact closed_of_zero rfl rfl

/-- No signature is made or sent from there. -/
theorem Closed.unsigned {e : Event} {r : Result} (h : Closed s) (hdid : Did sdk s e r) :
    ∀ eff ∈ r.2, Effect.signs eff = false := by
  intro eff heff
  by_contra hsigns
  cases hdid.signing heff (by simpa using hsigns) with
  | chunkSent _ _ _ hsend => exact h.2 hsend.1
  | signed o hs _ => exact h.1 (hs ▸ trivial)
  | unsigned o s' effects hs _ => exact h.1 (hs ▸ trivial)

theorem closed_later {later : List Event} (hs : Closed s) (hlater : ∀ e ∈ later, opens e = false) :
    Closed (exec (step sdk) s later).2 ∧
      ∀ out ∈ outputs (step sdk) s later, ∀ eff ∈ out, Effect.signs eff = false := by
  induction later with
  | nil => exact ⟨hs, by simp [outputs, exec]⟩
  | cons e later ih =>
    obtain ⟨hclosed, hunsigned⟩ := ih fun e' he' => hlater e' (List.mem_cons_of_mem _ he')
    have hdid := step_did sdk (exec (step sdk) s later).2 e
    refine ⟨hclosed.step (hlater e List.mem_cons_self) hdid, ?_⟩
    intro out hout
    rcases List.mem_cons.mp hout with rfl | hout
    · exact hclosed.unsigned hdid
    · exact hunsigned out hout

/-! ## Where walks begin -/

/-- A call that is to be shown parameter by parameter, and can be. -/
theorem signTxReview_beginWalk (hdebug : DebugsCall s) (hparse : (parsedCalldata s).1 = true) :
    signTxReview sdk o s = beginWalk sdk (withCalldata (parsedCalldata s).2 s) := by
  have hgate : ¬(s.ctx.txInfo.txData.dataLen ≠ 0 ∧ s.nvm.enableBlindSigning = 0) :=
    fun h => hdebug.2.2.2 h.2
  rw [signTxReview, if_neg hgate, if_pos (show _ ∧ _ ∧ _ ∧ _ from hdebug)]
  unfold parsedCalldata at hparse ⊢
  generalize abiCalldataParse (s.ctx.txInfo.txData.data.toList.take
    s.ctx.txInfo.txData.dataLen.toNat) = parsed at hparse ⊢
  obtain ⟨ok, calldata⟩ := parsed
  cases hparse
  rfl

/-- No other review puts a selector on screen. -/
theorem signTxReview_confirms {pair : Pair}
    (hdraw : Effect.draw (.confirm pair) ∈ (signTxReview sdk o s).2) :
    DebugsCall s ∧ (parsedCalldata s).1 = true := by
  have hreviewed := signTxReview_reviewed sdk o s
  generalize signTxReview sdk o s = r at hreviewed hdraw
  cases hreviewed with
  | refused _ _ => simp at hdraw
  | selector pair' count hdebug hparse => exact ⟨hdebug, hparse⟩
  | fallback _ _ hd => cases hd <;> simp at hdraw
  | blind _ _ hd => cases hd <;> simp at hdraw
  | clear _ hd => cases hd <;> simp at hdraw

/-- **A walk begins** wherever an APDU puts a selector on screen, with the call
data of a transaction that was decoded. -/
theorem step_beginsWalk {cmd : Option Command} {pair : Pair}
    (hdraw : Effect.draw (.confirm pair) ∈ (step sdk s (.apdu cmd o)).2) :
    ∃ s' calldata, step sdk s (.apdu cmd o) = beginWalk sdk s' ∧
      abiCalldataParse calldata = (true, s'.ctx.txInfo.calldata) ∧ IsParsed s'.ctx := by
  have hdid := step_did sdk s (.apdu cmd o)
  generalize hr : step sdk s (.apdu cmd o) = r at hdid hdraw
  cases hdid with
  | fixed eff _ _ hplain _ _ =>
    cases List.mem_singleton.mp hdraw
    cases hplain
  | refusedChunk sw _ _ _ => cases List.mem_singleton.mp hdraw
  | appended rawTx _ _ _ => cases List.mem_singleton.mp hdraw
  | opened p n sw _ _ => cases List.mem_singleton.mp hdraw
  | noSignature _ _ => cases List.mem_singleton.mp hdraw
  | chunkSent _ _ _ _ => cases List.mem_singleton.mp hdraw
  | keyServed _ hk =>
    cases hk with
    | answered ctx pk effects _ hplain => cases hplain _ hdraw
    | shown ctx pk text _ => simp at hdraw
  | parsed o' rawTx hq ho hfit _ _ =>
    obtain ⟨rawTx, -, heq⟩ := step_last_eq hq ho hfit
    rw [hr] at heq
    rcases signTxParse_cases sdk o' ((s.setRawTx rawTx).setState .parsed) with
      ⟨-, mHash, hres⟩ | ⟨-, tx, -, hres⟩ | ⟨-, tx, -, hres⟩
    · rw [heq, hres] at hdraw
      cases List.mem_singleton.mp hdraw
    · rw [heq, hres] at hdraw
      cases List.mem_singleton.mp hdraw
    · rw [heq, hres] at hdraw ⊢
      obtain ⟨hdebug, hparse⟩ := signTxReview_confirms hdraw
      exact ⟨_, _, signTxReview_beginWalk hdebug hparse, Prod.ext hparse rfl, hfit.1, rfl⟩

/-! ## Every walk -/

theorem responses_drawn (sdk : Sdk) (s : State) (n : Nat) :
    (drawn sdk s n).filter Effect.isResponse = [] := by
  refine List.filter_eq_nil_iff.mpr fun eff heff => ?_
  obtain ⟨pair, rfl⟩ := mem_drawn heff
  simp [Effect.isResponse]

theorem take_walkScreens (sdk : Sdk) (calldata : AbiCalldata) (n : Nat) :
    (walkScreens sdk calldata).take n =
      (List.range (min n (calldata.paramCount.toNat + 1))).map (walkScreen sdk calldata) := by
  rw [walkScreens, ← List.map_take, List.take_range]

/-- A walk that goes on, or that a rejection ended. -/
theorem walks_short {answers : List Answer}
    (hinside : s.ctx.txInfo.calldata.paramCount.toNat ≤ abiMaxParams)
    (hc : confirmations answers ≤ s.ctx.txInfo.calldata.paramCount.toNat) :
    Walks sdk s answers := by
  obtain ⟨tail, hshown, hend⟩ := @shown_short sdk s answers hc
  have hnot : ¬s.ctx.txInfo.calldata.paramCount.toNat < confirmations answers := by omega
  have hnone : lastPage s answers = [] := List.drop_eq_nil_of_le hc
  -- neither a derivation nor the review of a transaction is among what is shown
  have hmem : ∀ eff ∈ shown sdk s answers,
      (∃ pair, eff = .draw (.confirm pair)) ∨ eff = .sendSw swDeny := by
    intro eff heff
    rw [hshown] at heff
    rcases List.mem_append.mp heff with heff | heff
    · exact .inl (mem_drawn heff)
    · rcases hend with ⟨rfl, -⟩ | ⟨rfl, -⟩
      · cases heff
      · exact .inr (List.mem_singleton.mp heff)
  have hreview : ∀ pairs blind, Effect.draw (.transaction pairs blind) ∉ shown sdk s answers := by
    intro pairs blind hdraw
    rcases hmem _ hdraw with ⟨pair, h⟩ | h <;> cases h
  constructor
  · exact hinside
  · have hquiet : confirmScreens tail = [] := by
      rcases hend with ⟨rfl, -⟩ | ⟨rfl, -⟩ <;> rfl
    rw [hshown, confirmScreens_append, confirmScreens_drawn, hquiet, List.append_nil,
      take_walkScreens, Nat.min_eq_left (by omega)]
  · exact fun o hlt => absurd hlt hnot
  · refine iff_of_false (fun hderive => ?_) hnot
    rcases hmem _ hderive with ⟨pair, h⟩ | h <;> cases h
  · exact fun pairs blind hdraw => absurd hdraw (hreview pairs blind)
  · rw [hnone]
    exact iff_of_false (fun ⟨pairs, hdraw⟩ => hreview pairs true hdraw) (by simp)
  · intro hlt _
    rcases hend with ⟨-, hlen⟩ | ⟨rfl, hctx, hscr⟩
    · omega
    refine ⟨?_, hctx, fun later hlater => (closed_later (closed_of_zero hctx hscr) hlater).2⟩
    rw [hshown, List.filter_append, responses_drawn, hnone]
    rfl

/-- A walk that is gone through. -/
theorem walks_through {answers : List Answer} (hp : IsParsed s.ctx)
    (hinside : s.ctx.txInfo.calldata.paramCount.toNat ≤ abiMaxParams)
    (hc : s.ctx.txInfo.calldata.paramCount.toNat < confirmations answers)
    (hsafe : ¬Restarts s answers) : Walks sdk s answers := by
  obtain ⟨hshown, hafter, hbefore⟩ := @shown_last sdk s answers (le_of_lt hc)
  obtain ⟨-, -, hconfirms⟩ := confirms_split (le_of_lt hc)
  have hlast : lastPage s answers =
      confirms (answers.drop s.ctx.txInfo.calldata.paramCount.toNat) := hconfirms.symm
  have hcount : confirmations (answers.drop s.ctx.txInfo.calldata.paramCount.toNat) =
      confirmations answers - s.ctx.txInfo.calldata.paramCount.toNat := by
    rw [confirmations, hconfirms, List.length_drop, confirmations]
  have hin : s.ctx.txInfo.calldata.paramCount.toNat ≤ 16 := hinside
  have htail : EndsWalk _ _ _ := @AtLast.endsWalk sdk _ _ _
    (answers.drop s.ctx.txInfo.calldata.paramCount.toNat) (@atLast_walkState sdk s hp) le_rfl
    (fun _ => by omega) (by
      rintro ⟨hpos, hround, hall⟩
      rw [hcount] at hround
      exact hsafe ⟨hpos, by omega, hlast ▸ hall⟩)
  rw [← hafter] at htail
  have hreview : ∀ {pairs blind}, Effect.draw (.transaction pairs blind) ∈ shown sdk s answers ↔
      Effect.draw (.transaction pairs blind) ∈
        letOut sdk (walkState sdk s s.ctx.txInfo.calldata.paramCount.toNat)
          (answers.drop s.ctx.txInfo.calldata.paramCount.toNat) := by
    intro pairs blind
    rw [hshown, List.mem_append]
    refine or_iff_right fun hmem => ?_
    obtain ⟨pair, h⟩ := mem_drawn hmem
    cases h
  constructor
  · exact hinside
  · rw [hshown, confirmScreens_append, confirmScreens_drawn, htail.unconfirmed, List.append_nil,
      take_walkScreens, Nat.min_eq_right (by omega)]
  · intro o _ _
    refine ⟨confirmed (walkState sdk s s.ctx.txInfo.calldata.paramCount.toNat), rfl, rfl, ?_⟩
    rw [hbefore]
    exact (@atLast_walkState sdk s hp).calls (not_ofNat_lt le_rfl fun _ => by omega) o
  · rw [hshown]
    exact iff_of_true (List.mem_append_right _ (derive_mem_last hp hc)) hc
  · exact fun pairs blind hdraw => htail.review pairs blind (hreview.mp hdraw)
  · simp only [hreview, hlast]
    exact htail.reviewed
  · intro hlt hall
    rw [hlast] at hall ⊢
    obtain ⟨hanswer, hctx, hscr⟩ := htail.rejected (by rw [hcount, List.length_drop]; omega) hall
    refine ⟨?_, hctx, fun later hlater => (closed_later (closed_of_zero hctx hscr) hlater).2⟩
    rw [hshown, List.filter_append, responses_drawn, hanswer]
    rfl

/-- A walk that restarts shows more screens than it has. -/
theorem restarts_not_walks {answers : List Answer} (hp : IsParsed s.ctx)
    (hrestarts : Restarts s answers) : ¬Walks sdk s answers := by
  intro hwalks
  obtain ⟨hpos, hround, hall⟩ := hrestarts
  have hin : s.ctx.txInfo.calldata.paramCount.toNat ≤ 16 := hwalks.inside
  have hc : s.ctx.txInfo.calldata.paramCount.toNat ≤ confirmations answers := by omega
  obtain ⟨-, -, hconfirms⟩ := confirms_split hc
  have hagain := @AtLast.restarts sdk _ _ _
    (answers.drop s.ctx.txInfo.calldata.paramCount.toNat) (@atLast_walkState sdk s hp) hpos le_rfl
    (by omega)
    (by rw [confirmations, hconfirms, List.length_drop]; rw [confirmations] at hround; omega)
    (by rw [hconfirms]; exact hall)
  have hscreens := hwalks.screens
  rw [(@shown_last sdk s answers hc).1, confirmScreens_append, confirmScreens_drawn,
    take_walkScreens, Nat.min_eq_right (by omega)] at hscreens
  exact hagain (List.append_right_eq_self.mp hscreens)

/-- **A walk** through accepted call data shows the selector and each parameter
once and in order, and only confirming all of them leads to the review, exactly
when its index does not go round. -/
theorem walk_walks_iff {calldata : List UInt8}
    (hparse : abiCalldataParse calldata = (true, s.ctx.txInfo.calldata)) (hp : IsParsed s.ctx)
    (answers : List Answer) : Walks sdk s answers ↔ ¬Restarts s answers := by
  have hinside : s.ctx.txInfo.calldata.paramCount.toNat ≤ abiMaxParams := by
    rcases abiCalldataParse_cases calldata with ⟨hfalse, -⟩ | ⟨k, out, -, hout, hcount, -⟩
    · rw [hparse] at hfalse
      cases hfalse
    · cases hparse.symm.trans hout
      rw [hcount]
      exact Nat.min_le_right _ _
  constructor
  · exact fun hwalks hrestarts => restarts_not_walks hp hrestarts hwalks
  · intro hsafe
    rcases Nat.lt_or_ge s.ctx.txInfo.calldata.paramCount.toNat (confirmations answers) with hc | hc
    · exact walks_through hp hinside hc hsafe
    · exact walks_short hinside hc

/-- A decoded call of one parameter, about to be shown. -/
def oneParameter : State :=
  withCalldata (abiCalldataParse (List.replicate 68 1)).2
    { startUp .zero with
      ctx := { GlobalCtx.zero with reqType := .confirmTransaction, state := .parsed } }

/-- The review fails once, comes up, and is rejected. -/
theorem oneParameter_walks : Walks testSdk oneParameter
    [(true, .good (.zero _)), (true, unhashed), (true, .good (.zero _)),
      (false, .good (.zero _))] := by
  refine (@walk_walks_iff testSdk oneParameter (List.replicate 68 1) (Prod.ext (by decide) rfl)
    ⟨rfl, rfl⟩ _).mpr fun hrestarts => ?_
  exact absurd hrestarts.2.1 (by decide)

theorem oneParameter_restarts : Restarts oneParameter (List.replicate 257 (true, unhashed)) := by
  have hall : confirms (List.replicate 257 (true, unhashed)) =
      List.replicate 257 (true, unhashed) :=
    List.takeWhile_eq_self_iff.mpr fun a ha => by rw [List.eq_of_mem_replicate ha]
  refine ⟨by decide, ?_, ?_⟩
  · rw [confirmations, hall, List.length_replicate]
    decide
  · intro a ha
    rw [lastPage, hall] at ha
    rw [List.eq_of_mem_replicate (List.mem_of_mem_drop (List.mem_of_mem_take ha))]
    decide

/-- The selector is confirmed once, and the parameter until it is shown again. -/
theorem oneParameter_not_walks :
    ¬Walks testSdk oneParameter (List.replicate 257 (true, unhashed)) :=
  restarts_not_walks ⟨rfl, rfl⟩ oneParameter_restarts

end LedgerZond.ParameterWalk
