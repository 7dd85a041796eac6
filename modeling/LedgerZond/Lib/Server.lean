import LedgerZond.Lib.Machine
import LedgerZond.Lib.Client

/-! # A machine as a server

A client's query reaches a machine as one event; before it and until a reply
comes out, the machine takes in events of its own. `Serves` is the relation
this makes between the points of a run, and its rules say what a program can
rely on from what the machine does in one step. -/
namespace Lib.Server
open Lib.Machine Lib.Client

/-- How a machine with states `σ`, events `ε` and outputs `ω` serves queries `κ`
with replies `ρ`. -/
structure Interface (σ ε ω κ ρ : Type) where
  step : σ → ε → σ × ω
  /-- An event of the machine's own. -/
  isOwn : ε → Prop
  /-- The event is the query, and the state takes it in. -/
  takes : σ → κ → ε → Prop
  reply : ω → Option ρ

/-- Where a run has come to: its history and its state. -/
abbrev Point (σ ε ω : Type) := List (Entry σ ε ω) × σ

variable {σ ε ω κ ρ α : Type} {m : Interface σ ε ω κ ρ} {b b' : Point σ ε ω} {q : κ} {r r' : ρ}
  {out : ω}

def Point.next (step : σ → ε → σ × ω) (b : Point σ ε ω) (e : ε) : Point σ ε ω :=
  (entry step b.2 e :: b.1, (step b.2 e).1)

/-- Events of the machine's own, before a query. -/
inductive Rests (m : Interface σ ε ω κ ρ) (b : Point σ ε ω) : Point σ ε ω → Prop
  | here : Rests m b b
  | own {mid : Point σ ε ω} (e : ε) : Rests m b mid → m.isOwn e → Rests m b (mid.next m.step e)

/-- Events of the machine's own, up to the first output that holds a reply. -/
inductive Awaits (m : Interface σ ε ω κ ρ) : ω → Point σ ε ω → ρ → Point σ ε ω → Prop
  | replied {out : ω} {b : Point σ ε ω} {r : ρ} : m.reply out = some r → Awaits m out b r b
  | waits {out : ω} {b b' : Point σ ε ω} {r : ρ} (e : ε) : m.reply out = none → m.isOwn e →
      Awaits m (m.step b.2 e).2 (b.next m.step e) r b' → Awaits m out b r b'

def Serves (m : Interface σ ε ω κ ρ) (b : Point σ ε ω) (q : κ) (r : ρ) (b' : Point σ ε ω) : Prop :=
  ∃ mid e, Rests m b mid ∧ m.takes mid.2 q e ∧
    Awaits m (m.step mid.2 e).2 (mid.next m.step e) r b'

/-! ## What holds along the way -/

/-- What the machine's own events keep holds when a query comes in. -/
theorem Rests.invariant {I : Point σ ε ω → Prop}
    (hown : ∀ b e, I b → m.isOwn e → I (b.next m.step e)) (h : Rests m b b') (hb : I b) : I b' := by
  induction h with
  | here => exact hb
  | own e _ he ih => exact hown _ e ih he

/-- What the machine's own events keep, while no reply comes out, holds of the
output that brings it. -/
theorem Awaits.invariant {J : ω → Point σ ε ω → Prop}
    (hown : ∀ out b e, J out b → m.reply out = none → m.isOwn e →
      J (m.step b.2 e).2 (b.next m.step e))
    (h : Awaits m out b r b') (hb : J out b) : ∃ last, J last b' ∧ m.reply last = some r := by
  induction h with
  | replied hr => exact ⟨_, hb, hr⟩
  | waits e hnone he _ ih => exact ih (hown _ _ e hb hnone he)

/-- A query that is replied to at once. -/
theorem Awaits.now (h : Awaits m out b r b') (hr : m.reply out = some r') : r = r' ∧ b' = b := by
  cases h with
  | replied hr' => exact ⟨Option.some.inj (hr'.symm.trans hr), rfl⟩
  | waits e hnone _ _ => cases hnone.symm.trans hr

section More
variable {own : ε → Prop} {takes : σ → κ → ε → Prop}

theorem Rests.mono (hown : ∀ e, m.isOwn e → own e) (h : Rests m b b') :
    Rests { m with isOwn := own, takes := takes } b b' := by
  induction h with
  | here => exact .here
  | own e _ he ih => exact ih.own e (hown e he)

theorem Awaits.mono (hown : ∀ e, m.isOwn e → own e) (h : Awaits m out b r b') :
    Awaits { m with isOwn := own, takes := takes } out b r b' := by
  induction h with
  | replied hr => exact .replied hr
  | waits e hnone he _ ih => exact .waits e hnone (hown e he) ih

/-- A machine that may do more serves what it served. -/
theorem Serves.mono (own : ε → Prop) (hown : ∀ e, m.isOwn e → own e)
    (htakes : ∀ s q e, m.takes s q e → takes s q e) (h : Serves m b q r b') :
    Serves { m with isOwn := own, takes := takes } b q r b' := by
  obtain ⟨mid, e, hrests, htake, hawaits⟩ := h
  exact ⟨mid, e, hrests.mono hown, htakes _ _ _ htake, hawaits.mono hown⟩

end More

/-! ## What a program can rely on -/

/-- **The rule of a query.** An invariant of the machine's own events, and what
each reply to the query behind it means for the rest of the program. -/
theorem safe_ask {I : Point σ ε ω → Prop} {Q : α → Point σ ε ω → Prop} {next : ρ → Prog κ ρ α}
    (hown : ∀ b e, I b → m.isOwn e → I (b.next m.step e))
    (htake : ∀ b e r b', I b → m.takes b.2 q e →
      Awaits m (m.step b.2 e).2 (b.next m.step e) r b' → Safe (Serves m) (next r) Q b')
    (hb : I b) : Safe (Serves m) (.ask q next) Q b := by
  rintro r b' ⟨mid, e, hrests, htakes, hawaits⟩
  exact htake mid e r b' (hrests.invariant hown hb) htakes hawaits

/-- The same for a query that is replied to, whatever the machine does on its own. -/
theorem completes_ask {I : Point σ ε ω → Prop} {Q : α → Point σ ε ω → Prop} {next : ρ → Prog κ ρ α}
    (hown : ∀ b e, I b → m.isOwn e → I (b.next m.step e))
    (hready : ∃ e, m.takes b.2 q e)
    (hreplies : ∀ b e, I b → m.takes b.2 q e →
      ∃ r b', Awaits m (m.step b.2 e).2 (b.next m.step e) r b')
    (htake : ∀ b e r b', I b → m.takes b.2 q e →
      Awaits m (m.step b.2 e).2 (b.next m.step e) r b' → Completes (Serves m) (next r) Q b')
    (hb : I b) : Completes (Serves m) (.ask q next) Q b := by
  constructor
  · obtain ⟨e, he⟩ := hready
    obtain ⟨r, b', hawaits⟩ := hreplies b e hb he
    exact ⟨r, b', b, e, .here, he, hawaits⟩
  · rintro r b' ⟨mid, e, hrests, htakes, hawaits⟩
    exact htake mid e r b' (hrests.invariant hown hb) htakes hawaits

/-- **A reply comes**, where some event of the machine's own always leads nearer
to it. -/
theorem exists_awaits {J : ω → Point σ ε ω → Prop} (rank : σ → Nat)
    (hgo : ∀ out b, J out b → m.reply out = none → ∃ e, m.isOwn e ∧
      J (m.step b.2 e).2 (b.next m.step e) ∧ rank (m.step b.2 e).1 < rank b.2)
    (hb : J out b) : ∃ r b', Awaits m out b r b' := by
  induction hn : rank b.2 using Nat.strongRecOn generalizing out b with
  | ind n ih =>
    cases hr : m.reply out with
    | some r => exact ⟨r, b, .replied hr⟩
    | none =>
      obtain ⟨e, he, hnext, hlt⟩ := hgo out b hb hr
      obtain ⟨r, b', hawaits⟩ := ih _ (hn ▸ hlt) hnext rfl
      exact ⟨r, b', .waits e hr he hawaits⟩

/-! ## Steps since then -/

/-- Some step of a history that was behind `start`. -/
def Since (P : List (Entry σ ε ω) → Entry σ ε ω → Prop) (start hist : List (Entry σ ε ω)) : Prop :=
  ∃ newer en older, hist = newer ++ en :: older ∧ start <:+ older ∧ P older en

variable {P P' : List (Entry σ ε ω) → Entry σ ε ω → Prop} {hist older : List (Entry σ ε ω)}
  {en : Entry σ ε ω}

theorem Since.cons (h : Since P older hist) (en : Entry σ ε ω) : Since P older (en :: hist) := by
  obtain ⟨newer, x, before, rfl, hsuf, hx⟩ := h
  exact ⟨en :: newer, x, before, rfl, hsuf, hx⟩

theorem since_head (hsuf : older <:+ hist) (h : P hist en) : Since P older (en :: hist) :=
  ⟨[], en, hist, rfl, hsuf, h⟩

theorem Since.mono (h : Since P older hist) (himp : ∀ hist en, P hist en → P' hist en) :
    Since P' older hist := by
  obtain ⟨newer, x, before, heq, hsuf, hx⟩ := h
  exact ⟨newer, x, before, heq, hsuf, himp _ _ hx⟩

end Lib.Server
