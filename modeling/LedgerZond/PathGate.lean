import LedgerZond.SignedBytes

/-! # The path of a session

`SIGN_TX` P1 = 0 opens the session before it looks at the path, and an
unusable path does not close it again. Where the host sends no chunk into
such a session, whatever uses the path of a session comes after a `SIGN_TX`
P1 = 0 that was answered `SW_OK`, and the path is canonical. -/
namespace LedgerZond.PathGate
open LedgerZond.CTypes LedgerZond.Types LedgerZond.Platform LedgerZond.AppState
open LedgerZond.Address LedgerZond.App LedgerZond.Requests LedgerZond.Displays LedgerZond.Steps
open LedgerZond.SignedBytes

variable {sdk : Sdk} {hist : History} {s : State} {e : Event} {r : Result} {o : Outcome}

/-! ## The latest path -/

/-- The step of the latest `SIGN_TX` P1 = 0. -/
def lastFirst : History → Option Entry
  | [] => none
  | en :: hist => if asksFirst en.event then some en else lastFirst hist

/-- The latest `SIGN_TX` P1 = 0 was answered `SW_OK`. -/
def AnsweredOk (hist : History) : Prop :=
  ∃ en, lastFirst hist = some en ∧ en.out = [.sendSw swOk]

/-- The path data of a `SIGN_TX` P1 = 0 is there, can be read and is canonical. -/
def AcceptsPath (sdk : Sdk) (e : Event) : Prop :=
  ∃ cdata, Event.request e = some (.first cdata) ∧ pathAccepted sdk cdata = true

/-- The path data of the latest `SIGN_TX` P1 = 0 was refused. -/
def RefusedPath (sdk : Sdk) (hist : History) : Prop :=
  ∃ en, lastFirst hist = some en ∧ ¬AcceptsPath sdk en.event

/-- No chunk is taken in behind a refused path. -/
def NoChunkBehindRefusal (sdk : Sdk) (hist : History) (en : Entry) : Prop :=
  TakesChunk en → ¬RefusedPath sdk hist

/-- The step uses the path of the session: it takes in a chunk, shows a screen
of the review of a transaction, or derives a key other than for
`GET_PUBLIC_KEY`. -/
def UsesPath (en : Entry) : Prop :=
  TakesChunk en ∨
    (∃ eff ∈ en.out, Effect.isKeyed eff = true) ∧
      ∀ cdata display, Event.request en.event ≠ some (.publicKey cdata display)

/-- A path that is used was answered `SW_OK`, is canonical, and is the one the
step derives from. -/
def OnAcceptedPath (hist : History) (en : Entry) : Prop :=
  UsesPath en →
    AnsweredOk hist ∧ en.pre.ctx.bip32PathLen = 5 ∧
      isValidZondBip32Path en.pre.ctx.bip32Path en.pre.ctx.bip32PathLen = true ∧
      OnPath en.pre.ctx en.out

/-! ## The invariant -/

structure Gated (hist : History) (s : State) : Prop where
  asked : s.ctx.reqType = .confirmTransaction → ∃ en, lastFirst hist = some en
  valid : s.ctx.reqType = .confirmTransaction → AnsweredOk hist →
    isValidZondBip32Path s.ctx.bip32Path s.ctx.bip32PathLen = true
  armed : leadsToSignature s.screen → s.ctx.reqType = .confirmTransaction ∧ AnsweredOk hist

theorem lastFirst_other {en : Entry} (h : asksFirst en.event = false) :
    lastFirst (en :: hist) = lastFirst hist := by
  simp [lastFirst, h]

theorem lastFirst_first {en : Entry} (h : asksFirst en.event = true) :
    lastFirst (en :: hist) = some en := by
  simp [lastFirst, h]

theorem answeredOk_other {en : Entry} (h : asksFirst en.event = false) :
    AnsweredOk (en :: hist) ↔ AnsweredOk hist := by
  rw [AnsweredOk, AnsweredOk, lastFirst_other h]

theorem answeredOk_first {en : Entry} (h : asksFirst en.event = true) :
    AnsweredOk (en :: hist) ↔ en.out = [.sendSw swOk] := by
  simp [AnsweredOk, lastFirst_first h]

/-! ## What the steps keep -/

theorem lastFirst_mem {en : Entry} (h : lastFirst hist = some en) : en ∈ hist := by
  induction hist with
  | nil => cases h
  | cons en' hist ih =>
    unfold lastFirst at h
    split at h
    · exact Option.some.inj h ▸ List.mem_cons_self
    · exact List.mem_cons_of_mem _ (ih h)

theorem sendSw_ne_swOk : [Effect.sendSw swWrongDataLength] ≠ [.sendSw swOk] := by decide

/-- A path is answered `SW_OK` exactly when it is accepted. -/
theorem out_eq_swOk_iff (h : asksFirst e = true) :
    (step sdk s e).2 = [.sendSw swOk] ↔ AcceptsPath sdk e := by
  rcases request_of_asksFirst h with ⟨cdata, hq⟩ | hq
  · obtain ⟨o, ho⟩ := outcome_of_request hq
    obtain ⟨p, n, -, hcase⟩ := signTxFirst_cases sdk cdata s
    rw [step_request hq ho, AcceptsPath, hq]
    rcases hcase with ⟨hacc, -, hout⟩ | ⟨hno, hout⟩
    · exact iff_of_true hout ⟨cdata, rfl, hacc⟩
    · refine iff_of_false (by rw [serve, hout]; exact sendSw_ne_swOk) ?_
      intro hpath
      obtain ⟨cdata', heq, hacc⟩ := hpath
      cases heq
      rw [hno] at hacc
      cases hacc
  · obtain ⟨o, ho⟩ := outcome_of_request hq
    rw [step_request hq ho, AcceptsPath, hq]
    refine iff_of_false sendSw_ne_swOk ?_
    intro hpath
    obtain ⟨cdata, heq, -⟩ := hpath
    cases heq

theorem lastFirst_asks {en : Entry} (h : lastFirst hist = some en) : asksFirst en.event = true := by
  induction hist with
  | nil => cases h
  | cons en' hist ih =>
    unfold lastFirst at h
    split at h
    next hask => exact Option.some.inj h ▸ hask
    next => exact ih h

/-- The answer to the latest path tells whether it was refused. -/
theorem answeredOk_iff {ok : History → State → Event → Prop} (hrun : Run sdk ok hist s) :
    AnsweredOk hist ↔ (∃ en, lastFirst hist = some en) ∧ ¬RefusedPath sdk hist := by
  unfold AnsweredOk RefusedPath
  cases hlast : lastFirst hist with
  | none => simp
  | some en =>
    have hiff := @out_eq_swOk_iff sdk en.pre _ (lastFirst_asks hlast)
    have hout : en.out = (step sdk en.pre en.event).2 := by
      rw [hrun.genuine en (lastFirst_mem hlast)]
      rfl
    simp only [Option.some.injEq, exists_eq_left', not_not, exists_eq', true_and]
    rw [hout, hiff]

/-- Off the screens that lead to a signature. -/
theorem Gated.of_home (hscr : ¬leadsToSignature s.screen)
    (hasked : s.ctx.reqType = .confirmTransaction → ∃ en, lastFirst hist = some en)
    (hvalid : s.ctx.reqType = .confirmTransaction → AnsweredOk hist →
      isValidZondBip32Path s.ctx.bip32Path s.ctx.bip32PathLen = true) : Gated hist s :=
  ⟨hasked, hvalid, fun h => absurd h hscr⟩

/-- A step that is no `SIGN_TX` P1 = 0 and leaves type and path alone. -/
theorem Gated.same {s' : State} {en : Entry} (hinv : Gated hist s)
    (hask : asksFirst en.event = false) (hreq : s'.ctx.reqType = s.ctx.reqType)
    (hpath : s'.ctx.bip32Path = s.ctx.bip32Path) (hlen : s'.ctx.bip32PathLen = s.ctx.bip32PathLen)
    (harmed : leadsToSignature s'.screen → leadsToSignature s.screen ∨
      s.ctx.reqType = .confirmTransaction ∧ AnsweredOk hist) : Gated (en :: hist) s' := by
  refine ⟨?_, ?_, ?_⟩
  · intro hty
    rw [lastFirst_other hask]
    exact hinv.asked (hreq ▸ hty)
  · intro hty hok
    rw [hpath, hlen]
    exact hinv.valid (hreq ▸ hty) ((answeredOk_other hask).mp hok)
  · intro hscr
    rw [hreq, answeredOk_other hask]
    exact (harmed hscr).elim hinv.armed id

/-- Behind a refused `SIGN_TX` P1 = 0. -/
theorem Gated.refused {en : Entry} (hask : asksFirst en.event = true)
    (hout : en.out ≠ [.sendSw swOk]) (hscr : ¬leadsToSignature s.screen) :
    Gated (en :: hist) s := by
  refine .of_home hscr (fun _ => ⟨en, lastFirst_first hask⟩) ?_
  intro _ hok
  exact absurd ((answeredOk_first hask).mp hok) hout

/-- A session for an address. -/
theorem Gated.of_address (hty : s.ctx.reqType = .confirmAddress)
    (hscr : ¬leadsToSignature s.screen) : Gated hist s := by
  refine .of_home hscr ?_ ?_
  · intro h
    rw [hty] at h
    cases h
  · intro h _
    rw [hty] at h
    cases h

/-- The session a chunk is taken into was answered `SW_OK`. -/
theorem Gated.answeredOk (hrun : Run sdk Serial hist s) (hinv : Gated hist s)
    {cdata : List UInt8} (hcond : NoChunkBehindRefusal sdk hist ⟨s, e, r.1, r.2⟩)
    (hchunk : chunkOf e = some cdata) (hfit : ChunkFits s.ctx cdata) : AnsweredOk hist :=
  (answeredOk_iff hrun).mpr ⟨hinv.asked hfit.1, hcond ⟨cdata, hchunk, hfit⟩⟩

/-- **One step keeps the invariant.** -/
theorem Gated.step (hrun : Run sdk Serial hist s) (hinv : Gated hist s) (hserial : Serial hist s e)
    (hcond : NoChunkBehindRefusal sdk hist ⟨s, e, r.1, r.2⟩) (hdid : Did sdk s e r) :
    Gated (⟨s, e, r.1, r.2⟩ :: hist) r.1 := by
  cases hdid with
  | fixed eff hq hfix _ _ hsw =>
    have hscr := not_leadsToSignature (serial_request hserial hq)
    cases hask : asksFirst e with
    | false => exact hinv.same hask rfl rfl rfl .inl
    | true =>
      refine .refused hask ?_ hscr
      rcases request_of_asksFirst hask with ⟨cdata, hfirst⟩ | hrefused
      · rw [hq] at hfirst
        cases hfirst
        exact hfix.elim
      · rw [hq] at hrefused
        rw [hsw swWrongDataLength (Option.some.inj hrefused)]
        exact sendSw_ne_swOk
  | refusedChunk sw hq hno _ =>
    refine hinv.same (hq.elim (asksFirst_of_other · rfl (by simp))
      (asksFirst_of_other · rfl (by simp))) rfl rfl rfl .inl
  | appended rawTx hq hfit hbytes =>
    exact hinv.same (asksFirst_of_other hq rfl (by simp)) rfl rfl rfl .inl
  | parsed o rawTx hq _ hfit hbytes hp =>
    have hok := hinv.answeredOk hrun hcond (chunkOf_of_request hq) hfit
    have hsame := hp.settled.same
    exact hinv.same (asksFirst_of_other hq rfl (by simp)) hsame.reqType hsame.bip32Path
      hsame.bip32PathLen fun _ => .inr ⟨hfit.1, hok⟩
  | opened p n sw hq hcase =>
    have hask := asksFirst_of_request hq
    have hscr := not_leadsToSignature (serial_request hserial hq)
    rcases hcase with ⟨-, hvalid, rfl⟩ | ⟨-, rfl⟩
    · exact .of_home hscr (fun _ => ⟨_, lastFirst_first hask⟩) fun _ _ => hvalid
    · exact .refused hask sendSw_ne_swOk hscr
  | noSignature hq _ => exact hinv.same (asksFirst_of_other hq rfl (by simp)) rfl rfl rfl .inl
  | chunkSent hq _ _ hsend =>
    have hscr := not_leadsToSignature (serial_request hserial hq)
    unfold afterChunk
    split
    · exact .of_address rfl hscr
    · exact hinv.same (asksFirst_of_other hq rfl (by simp)) rfl rfl rfl .inl
  | keyServed hq hk =>
    have hscr := not_leadsToSignature (serial_request hserial hq)
    cases hk with
    | answered ctx pk effects hctx _ => exact .of_address hctx.1 hscr
    | shown ctx pk text hctx => exact .of_address hctx.1 id
  | denied o hscr => exact .of_address rfl id
  | walked o next hs _ => exact hinv.same rfl rfl rfl rfl fun _ => .inl (hs ▸ trivial)
  | walkEnded o hs _ hd =>
    exact hinv.same rfl hd.same.reqType hd.same.bip32Path hd.same.bip32PathLen
      fun _ => .inl (hs ▸ trivial)
  | signed o hs hok => exact hinv.same rfl rfl rfl rfl False.elim
  | unsigned o sig effects hs _ _ => exact hinv.same rfl rfl rfl rfl False.elim
  | addressApproved o hs => exact hinv.same rfl rfl rfl rfl False.elim
  | dismissed confirm o hscr => exact hinv.same rfl rfl rfl rfl False.elim
  | toggled sw => exact hinv.same rfl rfl rfl rfl .inl
  | restarted => exact .of_address rfl id

theorem gated_of_run (h : Run sdk Serial hist s)
    (hcond : Throughout (NoChunkBehindRefusal sdk) hist) : Gated hist s := by
  refine h.invariant_of_throughout ?_ ?_ hcond
  · intro s hstart
    obtain ⟨nvm, rfl⟩ := hstart
    exact .of_address rfl id
  · intro hist s e hrun hinv hserial hcond
    exact hinv.step hrun hserial hcond (step_did sdk s e)

/-! ## Paths that are used -/

theorem Did.onPath (h : Did sdk s e r)
    (hno : ∀ cdata display, Event.request e ≠ some (.publicKey cdata display)) :
    OnPath s.ctx r.2 := by
  intro p n hmem
  rcases (h.keyed hmem rfl).2 with hon | ⟨cdata, display, hq⟩
  · exact hon p n hmem
  · exact absurd hq (hno cdata display)

/-- In a gated state what uses the path uses an accepted one. -/
theorem Gated.usesPath (hrun : Run sdk Serial hist s) (hinv : Gated hist s)
    (hcond : NoChunkBehindRefusal sdk hist ⟨s, e, r.1, r.2⟩) (hdid : Did sdk s e r)
    (huse : UsesPath ⟨s, e, r.1, r.2⟩) :
    (s.ctx.reqType = .confirmTransaction ∧ AnsweredOk hist) ∧
      ∀ cdata display, Event.request e ≠ some (.publicKey cdata display) := by
  have htakes : ∀ {cdata}, chunkOf e = some cdata → ChunkFits s.ctx cdata →
      s.ctx.reqType = .confirmTransaction ∧ AnsweredOk hist := fun hchunk hfit =>
    ⟨hfit.1, hinv.answeredOk hrun hcond hchunk hfit⟩
  rcases huse with ⟨cdata, hchunk, hfit⟩ | ⟨⟨eff, heff, hk⟩, hno⟩
  · refine ⟨htakes hchunk hfit, ?_⟩
    intro cdata' display hq
    rw [chunkOf_of_request hq] at hchunk
    cases hchunk
  · refine ⟨?_, hno⟩
    cases (hdid.keyed heff hk).1 with
    | chunk hq hfit => exact htakes (chunkOf_of_request hq) hfit
    | confirm o hs => exact hinv.armed (hs ▸ trivial)
    | approve o hs => exact hinv.armed (hs ▸ trivial)
    | publicKey hq => exact absurd hq (hno _ _)

/-- **Only an accepted path is used** in a run, exactly when none of its chunks
is taken in behind a refused path. -/
theorem run_onAcceptedPath_iff (h : Run sdk Serial hist s) :
    Throughout OnAcceptedPath hist ↔
      Throughout (NoChunkBehindRefusal sdk) hist := by
  refine h.throughout_iff ?_
  intro en hist s hrun hconds
  obtain ⟨hrun, -, hen, -⟩ := hrun.last
  constructor
  · intro hgood htakes hrefused
    obtain ⟨hok, -⟩ := hgood (.inl htakes)
    exact ((answeredOk_iff hrun).mp hok).2 hrefused
  · intro hcond huse
    have hinv := gated_of_run hrun hconds
    have hdid := step_did sdk en.pre en.event
    rw [hen] at hcond huse
    obtain ⟨⟨hty, hok⟩, hno⟩ := hinv.usesPath hrun hcond hdid huse
    have hvalid := hinv.valid hty hok
    refine ⟨hok, isValidZondBip32Path_len hvalid, hvalid, ?_⟩
    rw [hen]
    exact Did.onPath hdid hno

/-! ## A chunk behind a refused path -/

/-- Five words, of which the second is not that of the coin. -/
def otherPath : List UInt8 :=
  [5, 0x80, 0, 0, 0x2C, 0x80, 0, 0, 0x3C, 0x80, 0, 0, 0, 0, 0, 0, 0, 0, 0, 0, 0]

/-- A path, and a chunk behind it, the latest event first. -/
def chunkBehind (path : List UInt8) (h : path.length ≤ 255) : List Event :=
  [signTx 1 0 [0x02] (by decide), signTx 0 0 path h]

theorem canonicalPath_onAcceptedPath :
    Throughout OnAcceptedPath
        (runOf creationSdk (chunkBehind canonicalPath (by decide))).1 ↔
      Throughout (NoChunkBehindRefusal creationSdk)
        (runOf creationSdk (chunkBehind canonicalPath (by decide))).1 :=
  run_onAcceptedPath_iff (Lib.Machine.Run.exec ⟨.zero, rfl⟩ _ (by decide))

/-- A chunk is taken in although the path was refused. -/
theorem otherPath_takesChunk :
    Run creationSdk Serial (runOf creationSdk (chunkBehind otherPath (by decide))).1
        (runOf creationSdk (chunkBehind otherPath (by decide))).2 ∧
      ¬Throughout OnAcceptedPath
        (runOf creationSdk (chunkBehind otherPath (by decide))).1 := by
  refine ⟨Lib.Machine.Run.exec ⟨.zero, rfl⟩ _ (by decide), ?_⟩
  intro hall
  obtain ⟨hgood, -⟩ := hall
  obtain ⟨⟨en, hlast, hout⟩, -⟩ := hgood (.inl ⟨[0x02], rfl, by decide⟩)
  have hen : some en =
      some (entry creationSdk (startUp .zero) (signTx 0 0 otherPath (by decide))) := hlast.symm
  rw [Option.some.inj hen] at hout
  exact absurd hout (by decide)

end LedgerZond.PathGate
