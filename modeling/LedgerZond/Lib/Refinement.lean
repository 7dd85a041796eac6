import LedgerZond.Lib.Machine
import Mathlib.Data.List.Forall2
import Mathlib.Algebra.Order.BigOperators.Group.List
import Mathlib.Algebra.Order.Group.Nat

/-! # Machines that refine a specification

A specification says which acts lead from which phase to which. A machine
refines it when its states stand for phases and each of its steps shows an act
that leads from the one phase to the other; its runs are then traces of the
specification, and what the specification pays for, the machine pays for. -/
namespace Lib.Refinement
open Lib.Machine

variable {φ α σ ε ω : Type}

/-- The acts that lead from a first phase to a phase, the latest first. -/
inductive Trace (first : φ → Prop) (next : φ → α → φ → Prop) : List α → φ → Prop
  | start {p : φ} : first p → Trace first next [] p
  | next {acts : List α} {a : α} {p p' : φ} : Trace first next acts p → next p a p' →
      Trace first next (a :: acts) p'

variable {first : φ → Prop} {next : φ → α → φ → Prop} {acts : List α} {p : φ}

/-- An act of a trace leads on from the phase the acts before it led to. -/
theorem Trace.split {later earlier : List α} {a : α}
    (h : Trace first next (later ++ a :: earlier) p) :
    ∃ q q', Trace first next earlier q ∧ next q a q' := by
  induction later generalizing p with
  | nil =>
    cases h with
    | next hbefore hstep => exact ⟨_, _, hbefore, hstep⟩
  | cons b later ih =>
    cases h with
    | next hbefore _ => exact ih hbefore

/-- **The rule of credit.** Where each act spends no more than what it earns
and the phase it leaves had left, and nothing is left at first, no trace
spends more than it earns. -/
theorem Trace.credit (h : Trace first next acts p) (left : φ → Nat) (earned spent : α → Nat)
    (hfirst : ∀ p, first p → left p = 0)
    (hnext : ∀ p a p', next p a p' → left p' + spent a ≤ left p + earned a) :
    left p + (acts.map spent).sum ≤ (acts.map earned).sum := by
  induction h with
  | start h => exact Nat.le_of_eq (hfirst _ h)
  | next _ hstep ih =>
    have hact := hnext _ _ _ hstep
    simp only [List.map_cons, List.sum_cons]
    omega

/-! ## Refinement -/

variable {step : σ → ε → σ × ω} {init : σ → Prop} {ok : List (Entry σ ε ω) → σ → ε → Prop}
  {hist : List (Entry σ ε ω)} {s : σ}

/-- **The rule of refinement.** A run shows the acts of a trace, if the phases
of first states are first and each allowed step shows an act that leads from
phase to phase. -/
theorem refines {abs : σ → φ} {shows : Entry σ ε ω → α → Prop}
    (hinit : ∀ s, init s → first (abs s))
    (hstep : ∀ hist s e, Run step init ok hist s → ok hist s e →
      ∃ a, shows (entry step s e) a ∧ next (abs s) a (abs (step s e).1))
    (h : Run step init ok hist s) :
    ∃ acts, List.Forall₂ shows hist acts ∧ Trace first next acts (abs s) := by
  induction h with
  | start hs => exact ⟨[], .nil, .start (hinit _ hs)⟩
  | next e hrun hok ih =>
    obtain ⟨acts, hshows, htrace⟩ := ih
    obtain ⟨a, ha, hnext⟩ := hstep _ _ e hrun hok
    exact ⟨a :: acts, .cons ha hshows, .next htrace hnext⟩

/-- What counts for less on each step than on the act it shows adds up to less. -/
theorem sum_le_of_shown {β γ : Type} {shows : β → γ → Prop} {xs : List β} {ys : List γ}
    {f : β → Nat} {g : γ → Nat} (hle : ∀ x y, shows x y → f x ≤ g y)
    (h : List.Forall₂ shows xs ys) : (xs.map f).sum ≤ (ys.map g).sum :=
  List.Forall₂.sum_le_sum
    (List.forall₂_map_left_iff.mpr (List.forall₂_map_right_iff.mpr (h.imp hle)))

end Lib.Refinement
