import Mathlib.Algebra.GroupWithZero.Nat
import Mathlib.Data.List.Forall2

/-! # Runs of a machine

A machine answers an event with a new state and an output. A run is kept as
its history, one entry a step and the latest first, so that what an event
may depend on (`ok`) and what a property speaks about is one list. -/
namespace Lib.Machine

variable {σ ε ω : Type}

/-- One step of a run. -/
structure Entry (σ ε ω : Type) where
  pre : σ
  event : ε
  post : σ
  out : ω

def entry (step : σ → ε → σ × ω) (s : σ) (e : ε) : Entry σ ε ω := ⟨s, e, (step s e).1, (step s e).2⟩

/-- The histories of a machine and the states they end in. `ok` restricts
which event may follow a history. -/
inductive Run (step : σ → ε → σ × ω) (init : σ → Prop)
    (ok : List (Entry σ ε ω) → σ → ε → Prop) : List (Entry σ ε ω) → σ → Prop
  | start {s : σ} : init s → Run step init ok [] s
  | next {hist : List (Entry σ ε ω)} {s : σ} (e : ε) : Run step init ok hist s → ok hist s e →
      Run step init ok (entry step s e :: hist) (step s e).1

variable {step : σ → ε → σ × ω} {init : σ → Prop} {ok : List (Entry σ ε ω) → σ → ε → Prop}
  {hist : List (Entry σ ε ω)} {s : σ}

/-- **The invariant rule.** What holds at the start and is kept by each
allowed step holds of every history and the state it ends in. -/
theorem Run.invariant {Inv : List (Entry σ ε ω) → σ → Prop} (h0 : ∀ s, init s → Inv [] s)
    (hstep : ∀ hist s e, Run step init ok hist s → Inv hist s → ok hist s e →
      Inv (entry step s e :: hist) (step s e).1)
    (h : Run step init ok hist s) : Inv hist s := by
  induction h with
  | start hs => exact h0 _ hs
  | next e hrun hok ih => exact hstep _ _ e hrun ih hok

/-- The latest step of a run, and the run before it. -/
theorem Run.last {en : Entry σ ε ω} (h : Run step init ok (en :: hist) s) :
    Run step init ok hist en.pre ∧ ok hist en.pre en.event ∧ en = entry step en.pre en.event ∧
      s = (step en.pre en.event).1 := by
  cases h with
  | next e hrun hok => exact ⟨hrun, hok, rfl, rfl⟩

/-- The run before one of its steps. -/
theorem Run.earlier {later : List (Entry σ ε ω)} {en : Entry σ ε ω}
    (h : Run step init ok (later ++ en :: hist) s) : Run step init ok hist en.pre := by
  induction later generalizing s with
  | nil => exact h.last.1
  | cons x later ih => exact ih h.last.1

/-- Every entry of a history is a step of the machine. -/
theorem Run.genuine (h : Run step init ok hist s) :
    ∀ en ∈ hist, en = entry step en.pre en.event := by
  induction h with
  | start _ => simp
  | next e _ _ ih =>
    intro en hen
    rcases List.mem_cons.mp hen with rfl | hen
    · rfl
    · exact ih en hen

/-! ## What holds of every step -/

/-- `P` holds of every step of a history, each behind the steps before it. -/
def Throughout (P : List (Entry σ ε ω) → Entry σ ε ω → Prop) : List (Entry σ ε ω) → Prop
  | [] => True
  | en :: hist => P hist en ∧ Throughout P hist

variable {P Q : List (Entry σ ε ω) → Entry σ ε ω → Prop}

/-- The invariant rule for the runs all of whose steps meet a condition. -/
theorem Run.invariant_of_throughout {Inv : List (Entry σ ε ω) → σ → Prop}
    (h0 : ∀ s, init s → Inv [] s)
    (hstep : ∀ hist s e, Run step init ok hist s → Inv hist s → ok hist s e →
      Q hist (entry step s e) → Inv (entry step s e :: hist) (step s e).1)
    (h : Run step init ok hist s) (hq : Throughout Q hist) : Inv hist s := by
  induction h with
  | start hs => exact h0 _ hs
  | next e hrun hok ih => exact hstep _ _ e hrun (ih hq.2) hok hq.1

/-- A property holds throughout every run, if each allowed step has it. -/
theorem Run.throughout_of_step
    (hstep : ∀ hist s e, Run step init ok hist s → ok hist s e → P hist (entry step s e))
    (h : Run step init ok hist s) : Throughout P hist := by
  induction h with
  | start _ => trivial
  | next e hrun hok ih => exact ⟨hstep _ _ e hrun hok, ih⟩

/-- A property holds throughout a run whose steps all meet a condition, if a
step behind good ones that meets it has the property. -/
theorem Run.throughout
    (himp : ∀ en hist s, Run step init ok (en :: hist) s → Throughout Q hist → Q hist en →
      P hist en)
    (h : Run step init ok hist s) (hq : Throughout Q hist) : Throughout P hist := by
  induction h with
  | start _ => trivial
  | next e hrun hok ih => exact ⟨himp _ _ _ (.next e hrun hok) hq.2 hq.1, ih hq.2⟩

/-- A property holds throughout a run exactly when a condition does, if a
step behind good ones has the property exactly when it meets the condition. -/
theorem Run.throughout_iff
    (hiff : ∀ en hist s, Run step init ok (en :: hist) s → Throughout Q hist →
      (P hist en ↔ Q hist en))
    (h : Run step init ok hist s) : Throughout P hist ↔ Throughout Q hist := by
  refine ⟨?_, h.throughout fun en hist s hrun hqs => (hiff en hist s hrun hqs).mpr⟩
  intro hp
  induction h with
  | start _ => trivial
  | next e hrun hok ih =>
    have hqs := ih hp.2
    exact ⟨(hiff _ _ _ (.next e hrun hok) hqs).mp hp.1, hqs⟩

/-- A run whose events all meet another restriction is a run under that one. -/
theorem Run.restrict {ok' : List (Entry σ ε ω) → σ → ε → Prop} (h : Run step init ok hist s)
    (hok : Throughout (fun hist en => ok' hist en.pre en.event) hist) :
    Run step init ok' hist s := by
  induction h with
  | start hs => exact .start hs
  | next e _ _ ih => exact .next e (ih hok.2) hok.1

/-- What holds throughout a history holds of each step of its later part, behind
some of that part and all of the earlier one. -/
theorem Throughout.of_mem {newer older : List (Entry σ ε ω)} {en : Entry σ ε ω}
    (h : Throughout P (newer ++ older)) (hen : en ∈ newer) :
    ∃ between, (∀ x ∈ between, x ∈ newer) ∧ P (between ++ older) en := by
  induction newer with
  | nil => cases hen
  | cons x newer ih =>
    rcases List.mem_cons.mp hen with rfl | hen
    · exact ⟨newer, fun _ => List.mem_cons_of_mem _, h.1⟩
    · obtain ⟨between, hsub, hp⟩ := ih h.2 hen
      exact ⟨between, fun y hy => List.mem_cons_of_mem _ (hsub y hy), hp⟩

/-! ## Runs of given events -/

/-- The history of given events, the latest first, and the state it ends in. -/
def exec (step : σ → ε → σ × ω) (s : σ) : List ε → List (Entry σ ε ω) × σ
  | [] => ([], s)
  | e :: es =>
    (entry step (exec step s es).2 e :: (exec step s es).1, (step (exec step s es).2 e).1)

/-- Each of the events is allowed where it occurs. -/
def Allowed (step : σ → ε → σ × ω) (ok : List (Entry σ ε ω) → σ → ε → Prop) (s : σ) :
    List ε → Prop
  | [] => True
  | e :: es => ok (exec step s es).1 (exec step s es).2 e ∧ Allowed step ok s es

instance Allowed.decidable [∀ hist s e, Decidable (ok hist s e)] :
    ∀ es, Decidable (Allowed step ok s es)
  | [] => inferInstanceAs (Decidable True)
  | _ :: es => @instDecidableAnd _ _ inferInstance (Allowed.decidable es)

theorem Run.exec (h : init s) : ∀ es, Allowed step ok s es →
    Run step init ok (exec step s es).1 (exec step s es).2
  | [], _ => .start h
  | e :: es, hok => .next e (Run.exec h es hok.2) hok.1

theorem exec_genuine (s : σ) (es : List ε) :
    ∀ en ∈ (exec step s es).1, en = entry step en.pre en.event := by
  induction es with
  | nil => simp [exec]
  | cons e es ih =>
    intro en hen
    rcases List.mem_cons.mp hen with rfl | hen
    · rfl
    · exact ih en hen

/-! ## Two runs -/

/-- What a run of given events lets out, the latest first. -/
def outputs (step : σ → ε → σ × ω) (s : σ) (es : List ε) : List ω :=
  (exec step s es).1.map Entry.out

/-- **The rule for two runs.** Related states stay related and let out the
same, if each event that is allowed in the first run, and the one in its place
in the second, keep related states related and let out the same. -/
theorem exec_similar {E : ε → ε → Prop} {R : σ → σ → Prop} {a b : σ} {es fs : List ε}
    (hstep : ∀ hist a b e f, E e f → R a b → ok hist a e →
      (step a e).2 = (step b f).2 ∧ R (step a e).1 (step b f).1)
    (h : R a b) (hsimilar : List.Forall₂ E es fs) (hok : Allowed step ok a es) :
    outputs step a es = outputs step b fs ∧ R (exec step a es).2 (exec step b fs).2 := by
  induction hsimilar with
  | nil => exact ⟨rfl, h⟩
  | @cons e f es fs he _ ih =>
    obtain ⟨hout, hrel⟩ := ih hok.2
    obtain ⟨hlast, hpost⟩ := hstep _ _ _ e f he hrel hok.1
    refine ⟨?_, hpost⟩
    show (step (exec step a es).2 e).2 :: outputs step a es =
      (step (exec step b fs).2 f).2 :: outputs step b fs
    rw [hlast, hout]

/-- The same rule for two runs of the same events. -/
theorem exec_related {R : σ → σ → Prop} {a b : σ} {es : List ε}
    (hstep : ∀ hist a b, ∀ e ∈ es, R a b → ok hist a e →
      (step a e).2 = (step b e).2 ∧ R (step a e).1 (step b e).1)
    (h : R a b) (hok : Allowed step ok a es) :
    outputs step a es = outputs step b es ∧ R (exec step a es).2 (exec step b es).2 := by
  have hsame : List.Forall₂ (fun e f => e = f ∧ e ∈ es) es es :=
    List.forall₂_same.mpr fun e he => ⟨rfl, he⟩
  refine exec_similar ?_ h hsame hok
  rintro hist a b e _ ⟨rfl, he⟩ hrel hallowed
  exact hstep hist a b e he hrel hallowed

theorem exec_append (s : σ) (later earlier : List ε) :
    (exec step s (later ++ earlier)).2 = (exec step (exec step s earlier).2 later).2 := by
  induction later with
  | nil => rfl
  | cons e later ih => rw [List.cons_append, exec, exec, ih]

theorem history_append (s : σ) (later earlier : List ε) :
    (exec step s (later ++ earlier)).1 =
      (exec step (exec step s earlier).2 later).1 ++ (exec step s earlier).1 := by
  induction later with
  | nil => rfl
  | cons e later ih => simp only [List.cons_append, exec, ih, exec_append]

theorem outputs_append (s : σ) (later earlier : List ε) :
    outputs step s (later ++ earlier) =
      outputs step (exec step s earlier).2 later ++ outputs step s earlier := by
  rw [outputs, history_append, List.map_append]
  rfl

theorem Allowed.earlier {s : σ} {later earlier : List ε}
    (h : Allowed step ok s (later ++ earlier)) : Allowed step ok s earlier := by
  induction later with
  | nil => exact h
  | cons e later ih => exact ih h.2

/-- What is allowed behind any history is allowed behind the earlier events. -/
theorem Allowed.later {s : σ} {later earlier : List ε}
    (hany : ∀ hist hist' s e, ok hist s e → ok hist' s e)
    (h : Allowed step ok s (later ++ earlier)) :
    Allowed step ok (exec step s earlier).2 later := by
  induction later with
  | nil => trivial
  | cons e later ih =>
    refine ⟨?_, ih h.2⟩
    have he : ok (exec step s (later ++ earlier)).1 (exec step s (later ++ earlier)).2 e := h.1
    rw [exec_append] at he
    exact hany _ _ _ e he

/-! ## Events that change nothing -/

/-- **The rule of silent events.** Events that leave every state as it is can
be left out, or put in anywhere: the other steps of a run are the same. -/
theorem exec_filter {silent : ε → Bool} (h : ∀ s e, silent e = true → (step s e).1 = s) (a : σ)
    (es : List ε) : exec step a (es.filter fun e => !silent e) =
      ((exec step a es).1.filter fun en => !silent en.event, (exec step a es).2) := by
  induction es with
  | nil => rfl
  | cons e es ih =>
    cases he : silent e with
    | true =>
      rw [List.filter_cons_of_neg (by simp [he]), ih, exec, h _ e he,
        List.filter_cons_of_neg (by simp [entry, he])]
    | false =>
      rw [List.filter_cons_of_pos (by simp [he]), exec, ih, exec,
        List.filter_cons_of_pos (by simp [entry, he])]

/-! ## Ranks and accounts -/

section Given
variable {Inv : σ → Prop} {P : ε → Prop} {a : σ} {es : List ε}

/-- **The rule of ranks.** A rank that each event lowers, unless it waits or the
rank is zero, is zero behind as many events, if none of them waits. -/
theorem exec_rank {rank : σ → Nat} {waits : Entry σ ε ω → Nat}
    (hinv : ∀ s e, Inv s → P e → Inv (step s e).1)
    (hrank : ∀ s e, Inv s → P e → waits (entry step s e) = 0 → rank (step s e).1 ≤ rank s - 1)
    (ha : Inv a) (hes : ∀ e ∈ es, P e) (hgoes : ((exec step a es).1.map waits).sum = 0) :
    Inv (exec step a es).2 ∧ rank (exec step a es).2 ≤ rank a - es.length := by
  induction es with
  | nil => exact ⟨ha, Nat.le_refl _⟩
  | cons e es ih =>
    have hsum : waits (entry step (exec step a es).2 e) + ((exec step a es).1.map waits).sum = 0 :=
      hgoes
    obtain ⟨hlast, hearlier⟩ := Nat.add_eq_zero_iff.mp hsum
    obtain ⟨hmid, hle⟩ := ih (fun e he => hes e (List.mem_cons_of_mem _ he)) hearlier
    have he : P e := hes e List.mem_cons_self
    refine ⟨hinv _ e hmid he, ?_⟩
    calc rank (step (exec step a es).2 e).1
      _ ≤ rank (exec step a es).2 - 1 := hrank _ e hmid he hlast
      _ ≤ rank a - es.length - 1 := Nat.sub_le_sub_right hle 1
      _ = rank a - (e :: es).length := by rw [List.length_cons, Nat.sub_sub]

/-- **The rule of accounts.** What each step pays is what it takes off what is
owed and what it earns, so the payments of a run and what is owed behind it
are what was owed before and what was earned. -/
theorem exec_account {owed : σ → Nat} {paid earned : Entry σ ε ω → Nat}
    (hpay : ∀ s e, P e →
      paid (entry step s e) + owed (step s e).1 = owed s + earned (entry step s e))
    (hes : ∀ e ∈ es, P e) :
    ((exec step a es).1.map paid).sum + owed (exec step a es).2 =
      owed a + ((exec step a es).1.map earned).sum := by
  induction es with
  | nil => exact Nat.add_comm _ _
  | cons e es ih =>
    have hrest := ih fun e he => hes e (List.mem_cons_of_mem _ he)
    have hlast := hpay (exec step a es).2 e (hes e List.mem_cons_self)
    simp only [exec, List.map_cons, List.sum_cons]
    omega

end Given

end Lib.Machine
