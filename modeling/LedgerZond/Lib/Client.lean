/-! # Programs that talk to a server

A client's program asks one query at a time and goes on with the reply, or it
raises. A server is a relation between a state, a query, a reply and the next
state, so that what it replies may depend on more than its state. `Returns`
runs a program; `Safe` and `Completes` are the preconditions under which
what it returns is right, and under which it returns at all. -/
namespace Lib.Client

inductive Prog (κ ρ α : Type) where
  | done (a : α)
  | raise
  | ask (query : κ) (next : ρ → Prog κ ρ α)

variable {κ ρ α β ι σ : Type}

def Prog.bind : Prog κ ρ α → (α → Prog κ ρ β) → Prog κ ρ β
  | .done a, f => f a
  | .raise, _ => .raise
  | .ask query next, f => .ask query fun r => (next r).bind f

instance : Monad (Prog κ ρ) where
  pure := .done
  bind := .bind

def Prog.assert (p : Prop) [Decidable p] : Prog κ ρ Unit := if p then .done () else .raise

variable {serve serve' : σ → κ → ρ → σ → Prop} {p : Prog κ ρ α} {f : α → Prog κ ρ β} {s s' : σ}

/-! ## Running a program -/

/-- The program, started in a state, returns a value and leaves another state. -/
inductive Returns (serve : σ → κ → ρ → σ → Prop) : Prog κ ρ α → σ → α → σ → Prop
  | done (a : α) (s : σ) : Returns serve (.done a) s a s
  | ask {query : κ} {next : ρ → Prog κ ρ α} {s s' s'' : σ} {r : ρ} {a : α} :
      serve s query r s' → Returns serve (next r) s' a s'' → Returns serve (.ask query next) s a s''

/-- A server that can reply more lets a program return more. -/
theorem Returns.mono {a : α} (hserve : ∀ s q r s', serve s q r s' → serve' s q r s')
    (h : Returns serve p s a s') : Returns serve' p s a s' := by
  induction h with
  | done a s => exact .done a s
  | ask hreply _ ih => exact .ask (hserve _ _ _ _ hreply) ih

/-! ## What a program returns is right -/

/-- Whatever the server replies, what the program returns satisfies `Q`. -/
def Safe (serve : σ → κ → ρ → σ → Prop) : Prog κ ρ α → (α → σ → Prop) → σ → Prop
  | .done a, Q, s => Q a s
  | .raise, _, _ => True
  | .ask query next, Q, s => ∀ r s', serve s query r s' → Safe serve (next r) Q s'

/-- **Safety is about what is returned.** -/
theorem safe_iff {Q : α → σ → Prop} :
    Safe serve p Q s ↔ ∀ a s', Returns serve p s a s' → Q a s' := by
  induction p generalizing s with
  | done a =>
    constructor
    · intro h a' s' hret
      cases hret
      exact h
    · intro h
      exact h a s (.done a s)
  | raise =>
    refine ⟨?_, fun _ => trivial⟩
    intro _ a s' hret
    cases hret
  | ask query next ih =>
    constructor
    · intro h a s' hret
      cases hret with
      | ask hreply hrest => exact (ih _).mp (h _ _ hreply) a s' hrest
    · intro h r s' hreply
      exact (ih r).mpr fun a s'' hrest => h a s'' (.ask hreply hrest)

theorem Safe.mono {Q R : α → σ → Prop} (h : Safe serve p Q s) (hqr : ∀ a s, Q a s → R a s) :
    Safe serve p R s :=
  safe_iff.mpr fun a s' hret => hqr a s' (safe_iff.mp h a s' hret)

/-- **The rule of sequence.** -/
theorem safe_bind {Q : β → σ → Prop} :
    Safe serve (p >>= f) Q s ↔ Safe serve p (fun a s => Safe serve (f a) Q s) s := by
  induction p generalizing s with
  | done a => exact Iff.rfl
  | raise => exact Iff.rfl
  | ask query next ih =>
    constructor
    · intro h r s' hreply
      exact (ih r).mp (h r s' hreply)
    · intro h r s' hreply
      exact (ih r).mpr (h r s' hreply)

theorem safe_assert {q : Prop} [Decidable q] {Q : Unit → σ → Prop} (h : q → Q () s) :
    Safe serve (Prog.assert q : Prog κ ρ Unit) Q s := by
  unfold Prog.assert
  split
  · exact h ‹q›
  · trivial

/-- **The rule of the loop.** The invariant is about what was gathered and
about the elements to come. -/
theorem safe_foldlM {g : β → ι → Prog κ ρ β} {I : β → List ι → σ → Prop}
    (hstep : ∀ b x xs s, I b (x :: xs) s → Safe serve (g b x) (fun b' s' => I b' xs s') s)
    {b : β} {xs : List ι} (h : I b xs s) :
    Safe serve (xs.foldlM g b) (fun b' s' => I b' [] s') s := by
  induction xs generalizing b s with
  | nil => exact h
  | cons x xs ih =>
    rw [List.foldlM_cons]
    exact safe_bind.mpr ((hstep b x xs s h).mono fun b' s' hrest => ih hrest)

/-! ## A program returns -/

/-- Whatever the server replies, it replies, and the program ends by returning
what satisfies `Q`. -/
def Completes (serve : σ → κ → ρ → σ → Prop) : Prog κ ρ α → (α → σ → Prop) → σ → Prop
  | .done a, Q, s => Q a s
  | .raise, _, _ => False
  | .ask query next, Q, s => (∃ r s', serve s query r s') ∧
      ∀ r s', serve s query r s' → Completes serve (next r) Q s'

theorem Completes.mono {Q R : α → σ → Prop} (h : Completes serve p Q s)
    (hqr : ∀ a s, Q a s → R a s) : Completes serve p R s := by
  induction p generalizing s with
  | done a => exact hqr a s h
  | raise => exact h
  | ask query next ih => exact ⟨h.1, fun r s' hreply => ih r (h.2 r s' hreply)⟩

/-- What is returned is right, and something is returned. -/
theorem Completes.and_safe {Q R : α → σ → Prop} (h : Completes serve p Q s)
    (hsafe : Safe serve p R s) : Completes serve p (fun a s => Q a s ∧ R a s) s := by
  induction p generalizing s with
  | done a => exact ⟨h, hsafe⟩
  | raise => exact h
  | ask query next ih =>
    exact ⟨h.1, fun r s' hreply => ih r (h.2 r s' hreply) (hsafe r s' hreply)⟩

theorem Completes.exists_returns {Q : α → σ → Prop} (h : Completes serve p Q s) :
    ∃ a s', Returns serve p s a s' ∧ Q a s' := by
  induction p generalizing s with
  | done a => exact ⟨a, s, .done a s, h⟩
  | raise => exact h.elim
  | ask query next ih =>
    obtain ⟨⟨r, s', hreply⟩, hall⟩ := h
    obtain ⟨a, s'', hret, hq⟩ := ih r (hall r s' hreply)
    exact ⟨a, s'', .ask hreply hret, hq⟩

theorem completes_bind {Q : β → σ → Prop}
    (h : Completes serve p (fun a s => Completes serve (f a) Q s) s) :
    Completes serve (p >>= f) Q s := by
  induction p generalizing s with
  | done a => exact h
  | raise => exact h
  | ask query next ih => exact ⟨h.1, fun r s' hreply => ih r (h.2 r s' hreply)⟩

theorem completes_assert {q : Prop} [Decidable q] {Q : Unit → σ → Prop} (hq : q) (h : Q () s) :
    Completes serve (Prog.assert q : Prog κ ρ Unit) Q s := by
  rw [Prog.assert, if_pos hq]
  exact h

theorem completes_foldlM {g : β → ι → Prog κ ρ β} {I : β → List ι → σ → Prop}
    (hstep : ∀ b x xs s, I b (x :: xs) s → Completes serve (g b x) (fun b' s' => I b' xs s') s)
    {b : β} {xs : List ι} (h : I b xs s) :
    Completes serve (xs.foldlM g b) (fun b' s' => I b' [] s') s := by
  induction xs generalizing b s with
  | nil => exact h
  | cons x xs ih =>
    rw [List.foldlM_cons]
    exact completes_bind ((hstep b x xs s h).mono fun b' s' hrest => ih hrest)

end Lib.Client
