import LedgerZond.OptIn
import LedgerZond.Approval
import Mathlib.Logic.Function.Iterate
import Mathlib.Algebra.Group.Nat.Even

/-! # The settings

`N_storage` holds four settings beside the key and the signature, and the
settings page shows them from an array of its own, `switches`. No request and
no answer to a review touches either: in every run, in any order, both are
what the user's switches made of the settings the device was started with. -/
namespace LedgerZond.Settings
open LedgerZond.CTypes LedgerZond.Types LedgerZond.Platform LedgerZond.AppState LedgerZond.App
open LedgerZond.Requests LedgerZond.Displays LedgerZond.Steps LedgerZond.SignedBytes
open LedgerZond.BlindSigning LedgerZond.OptIn LedgerZond.Approval

/-! ## The settings and the settings page -/

/-- The setting of `N_storage` behind a switch. -/
def settingOf (sw : Switch) (nvm : InternalStorage) : UInt8 :=
  match sw with
  | .blindSigning => nvm.enableBlindSigning
  | .nonce => nvm.displayNonce
  | .txHash => nvm.displayTxHash
  | .debugSmartContract => nvm.enableDebugSmartContract

/-- `initState` of each of the `switches`. -/
abbrev Switches := Switch → UInt8

/-- The first lines of `ui_menu_main` for each switch. -/
def uiMenuMain (nvm : InternalStorage) : Switches := fun sw => settingOf sw nvm

/-- What `controls_callback` leaves in `switches`. -/
def controlsSwitches (sw : Switch) (nvm : InternalStorage) (switches : Switches) : Switches :=
  Function.update switches sw (notByte (settingOf sw nvm))

/-- `switches` behind a step: a start and the end of a screen lead to
`ui_menu_main`. -/
def switchesAfter (en : Entry) (switches : Switches) : Switches :=
  match en.event with
  | .toggle sw => controlsSwitches sw en.pre.nvm switches
  | .restart => uiMenuMain en.post.nvm
  | .answer _ _ => if en.post.screen = .home then uiMenuMain en.post.nvm else switches
  | .apdu _ _ => switches

/-- The state a run that has come to `s` was started in. -/
def startOf : History → State → State
  | [], s => s
  | en :: hist, _ => startOf hist en.pre

/-- `switches` behind a run. -/
def switchesOf : History → State → Switches
  | [], s => uiMenuMain s.nvm
  | en :: hist, _ => switchesAfter en (switchesOf hist en.pre)

/-- How often the user has flipped a switch. -/
def flips (sw : Switch) : History → Nat
  | [] => 0
  | en :: hist => if en.event = .toggle sw then flips sw hist + 1 else flips sw hist

variable {sdk : Sdk} {hist : History} {s : State} {e : Event} {r : Result} {o : Outcome}
  {sw : Switch}

/-! ## What a step leaves alone -/

theorem settingOf_controlsCallback (sw sw' : Switch) (nvm : InternalStorage) :
    settingOf sw (controlsCallback sw' nvm) =
      if sw' = sw then notByte (settingOf sw nvm) else settingOf sw nvm := by
  cases sw <;> cases sw' <;> rfl

/-- The settings are the same. -/
def SameSettings (nvm nvm' : InternalStorage) : Prop := ∀ sw, settingOf sw nvm = settingOf sw nvm'

/-- Other keys and signatures are no other settings. -/
theorem sameSettings_withKeys (nvm : InternalStorage) (pk : PublicKey) (sig : Signature)
    (sending : UInt8) :
    SameSettings { nvm with pk := pk, sig := sig, isSendingSignature := sending } nvm := by
  intro sw
  cases sw <;> rfl

theorem Displayed.sameSettings {blind : Bool} (h : Displayed sdk o blind s r) :
    SameSettings r.1.nvm s.nvm := by
  cases h with
  | badState _ => exact fun _ => rfl
  | failed pk address _ _ => exact sameSettings_withKeys s.nvm pk _ _
  | shown pairs _ _ _ => exact sameSettings_withKeys s.nvm _ _ _

theorem Settled.sameSettings (h : Settled sdk o s r) : SameSettings r.1.nvm s.nvm := by
  cases h with
  | answered txInfo sw _ => exact fun _ => rfl
  | refused txInfo _ => exact fun _ => rfl
  | selector txInfo pair count _ => exact fun _ => rfl
  | displayed txInfo _ hd =>
    have hsame := Displayed.sameSettings hd
    exact hsame

/-- **Only a switch changes a setting.** -/
theorem step_sameSettings (hdid : Did sdk s e r) (he : ∀ sw, e ≠ .toggle sw) :
    SameSettings r.1.nvm s.nvm := by
  cases hdid with
  | toggled sw => exact absurd rfl (he sw)
  | parsed o rawTx _ _ _ _ hp =>
    have hsame := Settled.sameSettings hp.settled
    exact hsame
  | opened p n sw _ _ => exact sameSettings_withKeys s.nvm _ _ _
  | chunkSent _ _ _ _ =>
    unfold afterChunk
    split
    · exact sameSettings_withKeys s.nvm _ _ _
    · exact fun _ => rfl
  | keyServed _ hk =>
    cases hk with
    | answered ctx pk effects _ _ => exact sameSettings_withKeys s.nvm _ _ _
    | shown ctx pk text _ => exact sameSettings_withKeys s.nvm _ _ _
  | walkEnded o _ _ hd =>
    have hsame := Displayed.sameSettings hd
    exact hsame
  | signed o _ _ => exact sameSettings_withKeys s.nvm _ _ _
  | unsigned o sig effects _ _ _ => exact sameSettings_withKeys s.nvm _ _ _
  | _ => exact fun _ => rfl

/-! ## Runs -/

/-- The settings are those of the start, flipped as often as the user did, and
the settings page shows them. -/
structure Faithful (hist : History) (s : State) : Prop where
  stored : ∀ sw, settingOf sw s.nvm =
    notByte^[flips sw hist] (settingOf sw (startOf hist s).nvm)
  shown : ∀ sw, switchesOf hist s sw = settingOf sw s.nvm

theorem flips_other (h : ∀ sw, e ≠ .toggle sw) (sw : Switch) :
    flips sw (entry sdk s e :: hist) = flips sw hist :=
  if_neg (h sw)

theorem flips_toggle (sw : Switch) :
    flips sw (entry sdk s (.toggle sw) :: hist) = flips sw hist + 1 := if_pos rfl

theorem flips_toggle_ne {sw' : Switch} (h : sw' ≠ sw) :
    flips sw (entry sdk s (.toggle sw') :: hist) = flips sw hist :=
  if_neg fun heq => h (Event.toggle.inj heq)

/-- An event that is no switch keeps both. -/
theorem Faithful.other (hinv : Faithful hist s) (he : ∀ sw, e ≠ .toggle sw) :
    Faithful (entry sdk s e :: hist) (step sdk s e).1 := by
  have hsame := step_sameSettings (step_did sdk s e) he
  refine ⟨?_, ?_⟩
  · intro sw
    rw [hsame sw, hinv.stored sw, flips_other he]
    rfl
  · intro sw
    have hshown : switchesOf hist s sw = settingOf sw (step sdk s e).1.nvm :=
      (hinv.shown sw).trans (hsame sw).symm
    show switchesAfter (entry sdk s e) (switchesOf hist s) sw = _
    cases e with
    | apdu cmd o => exact hshown
    | answer confirm o =>
      show (if (step sdk s (.answer confirm o)).1.screen = .home then
        uiMenuMain (step sdk s (.answer confirm o)).1.nvm else switchesOf hist s) sw = _
      split
      · rfl
      · exact hshown
    | toggle sw => exact absurd rfl (he sw)
    | restart => rfl

theorem Faithful.toggle (hinv : Faithful hist s) (sw' : Switch) :
    Faithful (entry sdk s (.toggle sw') :: hist) (step sdk s (.toggle sw')).1 := by
  refine ⟨?_, ?_⟩
  · intro sw
    show settingOf sw (controlsCallback sw' s.nvm) = _
    rw [settingOf_controlsCallback]
    by_cases hsw : sw' = sw
    · subst hsw
      rw [if_pos rfl, hinv.stored sw', flips_toggle, Function.iterate_succ_apply']
      rfl
    · rw [if_neg hsw, hinv.stored sw, flips_toggle_ne hsw]
      rfl
  · intro sw
    show Function.update (switchesOf hist s) sw' (notByte (settingOf sw' s.nvm)) sw =
      settingOf sw (controlsCallback sw' s.nvm)
    rw [settingOf_controlsCallback]
    by_cases hsw : sw' = sw
    · subst hsw
      rw [Function.update_self, if_pos rfl]
    · rw [Function.update_of_ne (Ne.symm hsw), if_neg hsw, hinv.shown sw]

theorem faithful_of_run {ok : History → State → Event → Prop} (h : Run sdk ok hist s) :
    Faithful hist s := by
  refine h.invariant (fun _ _ => ⟨fun _ => rfl, fun _ => rfl⟩) ?_
  intro hist s e _ hinv _
  by_cases he : ∃ sw, e = .toggle sw
  · obtain ⟨sw, rfl⟩ := he
    exact hinv.toggle sw
  · exact hinv.other fun sw heq => he ⟨sw, heq⟩

/-- **The settings are the user's**: in every run, in any order, also across
restarts and whatever is requested and approved. -/
theorem run_settings (h : Run sdk AnyOrder hist s) : Faithful hist s := faithful_of_run h

/-! ## The opt-in, from the start -/

theorem iterate_notByte (n : Nat) : notByte^[n] 0 = if Even n then 0 else 1 := by
  induction n with
  | zero => rfl
  | succ n ih =>
    rw [Function.iterate_succ_apply', ih]
    by_cases hn : Even n
    · rw [if_pos hn, if_neg fun h => Nat.even_add_one.mp h hn]
      rfl
    · rw [if_neg hn, if_pos (Nat.even_add_one.mpr hn)]
      rfl

theorem mem_of_session {d : Entry} (h : d ∈ session hist) : d ∈ hist := by
  induction hist with
  | nil => cases h
  | cons en hist ih =>
    rw [session] at h
    split at h
    · cases h
    · rcases List.mem_cons.mp h with rfl | h
      · exact List.mem_cons_self
      · exact List.mem_cons_of_mem _ (ih h)

/-- A run and the run before one of its steps have the same start. -/
theorem startOf_earlier (later : History) (d : Entry) (earlier : History) (s : State) :
    startOf (later ++ d :: earlier) s = startOf earlier d.pre := by
  induction later generalizing s with
  | nil => rfl
  | cons x later ih => exact ih x.pre

/-- A last chunk of the transaction came in with blind signing on, behind an
odd number of flips of its switch. -/
def FlippedFor (hist : History) (en : Entry) : Prop :=
  ∃ later d earlier, hist = later ++ d :: earlier ∧ OptsIn d ∧
    d.post.ctx.txInfo = en.pre.ctx.txInfo ∧ Odd (flips .blindSigning earlier)

/-- **A device started with blind signing off signs no data of its own
accord**: each transaction with data that it signs came in behind an odd
number of flips of the switch. -/
theorem run_flippedFor (h : Run sdk Serial hist s) : Throughout (fun hist en =>
    (startOf hist en.pre).nvm.enableBlindSigning = 0 → ∀ msg c sk,
      Effect.sign msg c sk ∈ en.out → en.pre.ctx.txInfo.txData.dataLen ≠ 0 →
      FlippedFor hist en) hist := by
  refine h.throughout_of_step ?_
  intro hist s e hrun hserial hoff msg c sk hsign hdata
  obtain ⟨⟨o, pairs, blind, -, hscr, -⟩, -⟩ := (step_did sdk s e).sign_mem hsign
  have hlead : leadsToSignature s.screen := by
    rw [hscr]
    trivial
  obtain ⟨d, hd, hopt, htx⟩ := consented_of_run hrun hlead hdata
  obtain ⟨later, earlier, rfl⟩ := List.append_of_mem (mem_of_session hd)
  have hstored := (faithful_of_run hrun.earlier).stored .blindSigning
  rw [← startOf_earlier later d earlier s] at hstored
  refine ⟨later, d, earlier, rfl, hopt, htx, ?_⟩
  by_contra hodd
  rw [Nat.not_odd_iff_even] at hodd
  have hzero : (startOf (later ++ d :: earlier) s).nvm.enableBlindSigning = 0 := hoff
  rw [settingOf, settingOf, hzero, iterate_notByte, if_pos hodd] at hstored
  exact hopt.2 hstored

theorem refusedThenSigned_settings :
    Faithful (runOf callSdk refusedThenSigned).1 (runOf callSdk refusedThenSigned).2 :=
  run_settings (Lib.Machine.Run.exec ⟨.zero, rfl⟩ refusedThenSigned
    ⟨trivial, trivial, trivial, trivial, trivial, trivial, trivial⟩)

theorem refusedThenSigned_flipped : Throughout (fun hist en =>
    (startOf hist en.pre).nvm.enableBlindSigning = 0 → ∀ msg c sk,
      Effect.sign msg c sk ∈ en.out → en.pre.ctx.txInfo.txData.dataLen ≠ 0 →
      FlippedFor hist en) (runOf callSdk refusedThenSigned).1 :=
  run_flippedFor (Lib.Machine.Run.exec ⟨.zero, rfl⟩ refusedThenSigned (by decide))

end LedgerZond.Settings
