import LedgerZond.SignedBytes

/-! # What an approval approves

The callback of a review is not told which request it is about: it acts on
the context. Nothing else is assumed of the order of events here, APDUs may
come in while a review is on screen. As long as none of them starts a new
session before the user approves, the context is still that of the review. -/
namespace LedgerZond.Approval
open LedgerZond.CTypes LedgerZond.Types LedgerZond.Platform LedgerZond.AppState
open LedgerZond.App LedgerZond.Requests LedgerZond.Displays LedgerZond.Steps LedgerZond.SignedBytes
open LedgerZond.DecodeGrammar

variable {sdk : Sdk} {hist : History} {s s' : State} {e : Event} {r : Result} {o : Outcome}
  {d en : Entry}

/-! ## The request on screen -/

def Effect.isDraw : Effect → Bool
  | .draw _ => true
  | _ => false

/-- The step that put on screen what was put there last. -/
def lastDraw : History → Option Entry
  | [] => none
  | en :: hist => if en.out.any Effect.isDraw then some en else lastDraw hist

/-- A `SIGN_TX` P1 = 0 or a `GET_PUBLIC_KEY` that reaches its handler. -/
def wipes (e : Event) : Bool :=
  match Event.request e with
  | some (.first _) => true
  | some (.publicKey _ _) => true
  | _ => false

/-- A new session was started since the latest draw. -/
def wipedSinceDraw : History → Bool
  | [] => false
  | en :: hist => !en.out.any Effect.isDraw && (wipes en.event || wipedSinceDraw hist)

/-- The context is that of the transaction `d` showed. -/
def HoldsTransaction (d : Entry) (ctx : GlobalCtx) : Prop :=
  IsParsed ctx ∧ ctx.txInfo.mHash = d.post.ctx.txInfo.mHash ∧
    ctx.bip32Path = d.post.ctx.bip32Path ∧ ctx.bip32PathLen = d.post.ctx.bip32PathLen

/-- The context is that of the address `d` showed. -/
def HoldsAddress (d : Entry) (ctx : GlobalCtx) : Prop :=
  IsAddressCtx ctx ∧ ctx.address = d.post.ctx.address

/-- The step signs, or returns an address on an approval, only for the request
that is on screen. -/
structure ActsOnDisplayed (hist : History) (en : Entry) : Prop where
  signs : ∀ msg c sk, Effect.sign msg c sk ∈ en.out → ∃ d, lastDraw hist = some d ∧
    Effect.draw en.pre.screen ∈ d.out ∧ HoldsTransaction d en.pre.ctx
  returns : ∀ confirm o data, en.event = .answer confirm o →
    Effect.sendResponse .address data ∈ en.out → ∃ d, lastDraw hist = some d ∧
      Effect.draw en.pre.screen ∈ d.out ∧ HoldsAddress d en.pre.ctx

/-- An approval of a transaction that gets as far as the signature call, or an
approval of an address. -/
def approves (en : Entry) : Bool :=
  match en.event, en.pre.screen with
  | .answer true o, .transaction _ _ => o.sign.derive == cxOk && o.sign.keygen == cxOk
  | .answer true _, .address _ => true
  | _, _ => false

/-- No review is approved behind a new session. -/
def NotBehindNewSession (hist : History) (en : Entry) : Prop :=
  approves en = true → wipedSinceDraw hist = false

instance (hist : History) (en : Entry) : Decidable (NotBehindNewSession hist en) :=
  inferInstanceAs (Decidable (approves en = true → wipedSinceDraw hist = false))

/-! ## The invariant -/

/-- What the screen shows is what the context holds. -/
def Holds (d : Entry) (s : State) : Prop :=
  match s.screen with
  | .transaction _ _ => HoldsTransaction d s.ctx
  | .address _ => HoldsAddress d s.ctx
  | _ => True

/-- What is on screen was drawn last, and the context is still that of it if
no new session was started since. -/
def Pending (hist : History) (s : State) : Prop :=
  s.screen.isReview = true → ∃ d, lastDraw hist = some d ∧ Effect.draw s.screen ∈ d.out ∧
    (wipedSinceDraw hist = false → Holds d s)

theorem lastDraw_draw {screen : Screen} (h : Effect.draw screen ∈ en.out) :
    lastDraw (en :: hist) = some en := by
  have hany : en.out.any Effect.isDraw = true := List.any_eq_true.mpr ⟨_, h, rfl⟩
  simp [lastDraw, hany]

theorem lastDraw_quiet (h : en.out.any Effect.isDraw = false) :
    lastDraw (en :: hist) = lastDraw hist := by
  simp [lastDraw, h]

theorem wipedSinceDraw_quiet (h : en.out.any Effect.isDraw = false) :
    wipedSinceDraw (en :: hist) = (wipes en.event || wipedSinceDraw hist) := by
  simp [wipedSinceDraw, h]

/-! ## What the steps keep -/

theorem Pending.of_home (h : s.screen.isReview = false) : Pending hist s := by
  intro hscr
  rw [h] at hscr
  cases hscr

/-- A screen that is put up shows what the context holds. -/
theorem Pending.of_draw (hdraw : Effect.draw s.screen ∈ en.out) (hholds : Holds en s) :
    Pending (en :: hist) s :=
  fun _ => ⟨en, lastDraw_draw hdraw, hdraw, fun _ => hholds⟩

/-- A step that leaves the screen alone. -/
theorem Pending.of_quiet (hinv : Pending hist s) (hquiet : en.out.any Effect.isDraw = false)
    (hscr : s'.screen = s.screen) (hkeep : wipes en.event = false → ∀ d, Holds d s → Holds d s') :
    Pending (en :: hist) s' := by
  intro hreview
  rw [hscr] at hreview ⊢
  obtain ⟨d, hlast, hdraw, hholds⟩ := hinv hreview
  refine ⟨d, (lastDraw_quiet hquiet).trans hlast, hdraw, ?_⟩
  intro hwiped
  rw [wipedSinceDraw_quiet hquiet, Bool.or_eq_false_iff] at hwiped
  exact hkeep hwiped.1 d (hholds hwiped.2)

/-- A session that is neither a parsed transaction nor an address is on no screen. -/
theorem Holds.of_other (htx : ¬IsParsed s.ctx) (haddr : ¬IsAddressCtx s.ctx)
    (hscr : s'.screen = s.screen) (h : Holds d s) : Holds d s' := by
  unfold Holds at h ⊢
  rw [hscr]
  cases hs : s.screen with
  | transaction pairs blind =>
    rw [hs] at h
    exact absurd h.1 htx
  | address text =>
    rw [hs] at h
    exact absurd h.1 haddr
  | _ => trivial

/-- What a display or a choice of a review does to the screen. -/
def Shows (screen : Screen) (r : Result) : Prop :=
  (∀ en : Entry, en.post = r.1 → en.out = r.2 → Effect.draw r.1.screen ∈ en.out ∧ Holds en r.1) ∨
    (r.2.any Effect.isDraw = false ∧ r.1.screen = screen)

theorem displayed_shows {blind : Bool} (hd : Displayed sdk o blind s r) : Shows s.screen r := by
  cases hd with
  | badState _ => exact .inr ⟨rfl, rfl⟩
  | failed pk address _ _ => exact .inr ⟨rfl, rfl⟩
  | shown pairs hp _ _ =>
    refine .inl fun en hpost hout => ⟨by simp [hout], ⟨hp.1, hp.2⟩, ?_⟩
    rw [hpost]
    exact ⟨rfl, rfl, rfl⟩

theorem settled_shows (h : Settled sdk o s r) : Shows s.screen r := by
  cases h with
  | answered txInfo sw _ => exact .inr ⟨rfl, rfl⟩
  | refused txInfo _ => exact .inl fun en _ hout => ⟨by simp [hout], trivial⟩
  | selector txInfo pair count _ => exact .inl fun en _ hout => ⟨by simp [hout], trivial⟩
  | displayed txInfo _ hd =>
    have hshows := displayed_shows hd
    exact hshows

theorem keyServed_shows (hk : KeyServed s r) : Shows s.screen r := by
  cases hk with
  | answered ctx pk effects _ hplain =>
    refine .inr ⟨List.any_eq_false.mpr ?_, rfl⟩
    intro eff heff hdraw
    have hp := hplain eff heff
    cases eff with
    | draw screen => cases hp
    | _ => cases hdraw
  | shown ctx pk text hctx =>
    refine .inl fun en hpost hout => ⟨by simp [hout], ⟨hctx.1, hctx.2⟩, ?_⟩
    rw [hpost]

theorem Pending.of_shows (hinv : Pending hist s) (hshows : Shows s.screen r)
    (hkeep : wipes e = false → ¬IsParsed s.ctx ∧ ¬IsAddressCtx s.ctx) :
    Pending (⟨s, e, r.1, r.2⟩ :: hist) r.1 := by
  rcases hshows with hdraw | ⟨hquiet, hscr⟩
  · obtain ⟨hmem, hholds⟩ := hdraw ⟨s, e, r.1, r.2⟩ rfl rfl
    exact .of_draw hmem hholds
  · refine hinv.of_quiet hquiet hscr ?_
    intro hwipe d hholds
    obtain ⟨htx, haddr⟩ := hkeep hwipe
    exact hholds.of_other htx haddr hscr

theorem other_of_fits {cdata : List UInt8} (h : ChunkFits s.ctx cdata) :
    ¬IsParsed s.ctx ∧ ¬IsAddressCtx s.ctx := by
  constructor
  · intro hp
    cases hp.2.symm.trans h.2.1
  · intro ha
    cases ha.1.symm.trans h.1

theorem other_of_sendable (h : Sendable s) : ¬IsParsed s.ctx ∧ ¬IsAddressCtx s.ctx := by
  constructor
  · intro hp
    cases hp.2.symm.trans h.2.1
  · intro ha
    cases ha.2.symm.trans h.2.1

/-- **One step keeps the invariant.** -/
theorem Pending.step (hinv : Pending hist s) (hdid : Did sdk s e r) :
    Pending (⟨s, e, r.1, r.2⟩ :: hist) r.1 := by
  cases hdid with
  | fixed eff _ _ hplain _ _ =>
    refine hinv.of_quiet ?_ rfl fun _ _ h => h
    cases eff with
    | draw screen => cases hplain
    | _ => rfl
  | refusedChunk sw _ _ _ => exact hinv.of_quiet rfl rfl fun _ _ h => h
  | appended rawTx _ hfit _ =>
    obtain ⟨htx, haddr⟩ := other_of_fits hfit
    exact hinv.of_quiet rfl rfl fun _ _ h => h.of_other htx haddr rfl
  | parsed o rawTx _ _ hfit _ hp =>
    have hshows := settled_shows hp.settled
    exact hinv.of_shows hshows fun _ => other_of_fits hfit
  | opened p n sw hq _ =>
    refine hinv.of_quiet rfl rfl ?_
    intro hwipe
    simp [wipes, hq] at hwipe
  | noSignature _ _ => exact hinv.of_quiet rfl rfl fun _ _ h => h
  | chunkSent _ _ _ hsend =>
    obtain ⟨htx, haddr⟩ := other_of_sendable hsend
    have hscr : ∀ p2, (afterChunk p2 s).screen = s.screen := by
      intro p2
      unfold afterChunk
      split <;> rfl
    exact hinv.of_quiet rfl (hscr _) fun _ _ h => h.of_other htx haddr (hscr _)
  | keyServed hq hk =>
    refine hinv.of_shows (keyServed_shows hk) ?_
    intro hwipe
    simp [wipes, hq] at hwipe
  | denied o _ => exact .of_home rfl
  | walked o next hs _ => exact .of_draw (by simp) trivial
  | walkEnded o hs _ hd =>
    have hshows := displayed_shows hd
    rcases hshows with hdraw | ⟨hquiet, hscr⟩
    · obtain ⟨hmem, hholds⟩ := hdraw ⟨s, _, r.1, r.2⟩ rfl rfl
      exact .of_draw hmem hholds
    · -- the page that stays is neither of a transaction nor of an address
      have hpage : r.1.screen = .confirm _ := hscr.trans hs
      refine hinv.of_quiet hquiet hscr fun _ d _ => ?_
      unfold Holds
      rw [hpage]
      trivial
  | signed o _ _ => exact .of_home rfl
  | unsigned o sig effects _ _ _ => exact .of_home rfl
  | addressApproved o _ => exact .of_home rfl
  | dismissed confirm o _ => exact .of_home rfl
  | toggled sw => exact hinv.of_quiet rfl rfl fun _ _ h => h
  | restarted => exact .of_home rfl

theorem pending_of_run {ok : History → State → Event → Prop} (h : Run sdk ok hist s) :
    Pending hist s := by
  refine h.invariant ?_ ?_
  · intro s hstart
    obtain ⟨nvm, rfl⟩ := hstart
    exact .of_home rfl
  · intro hist s e _ hinv _
    exact hinv.step (step_did sdk s e)

/-! ## Approvals -/

/-- An answer that returns an address is an approval of one. -/
theorem returned_address {confirm : Bool} (h : Did sdk s (.answer confirm o) r) {data : List UInt8}
    (hmem : Effect.sendResponse .address data ∈ r.2) :
    confirm = true ∧ ∃ text, s.screen = .address text := by
  cases h with
  | addressApproved o hs => exact ⟨rfl, _, hs⟩
  | walkEnded o hs _ hd => cases hd <;> simp at hmem
  | unsigned o sig effects hs _ huse =>
    simp only [List.mem_append, List.mem_singleton, reduceCtorEq, or_false] at hmem
    rcases huse _ hmem with h | ⟨-, h⟩ | ⟨sig, h⟩ <;> cases h
  | signed o hs _ => simp [signedEffects] at hmem
  | fixed _ hq _ _ _ _ => cases hq
  | keyServed hq _ => cases hq
  | parsed _ _ hq _ _ _ _ => cases hq
  | _ => simp at hmem

/-- A step on a pending review acts on what it shows. -/
theorem Pending.actsOnDisplayed (hinv : Pending hist s) (hdid : Did sdk s e r)
    (hcond : NotBehindNewSession hist ⟨s, e, r.1, r.2⟩) :
    ActsOnDisplayed hist ⟨s, e, r.1, r.2⟩ := by
  constructor
  · intro msg c sk hmem
    obtain ⟨⟨o, pairs, blind, rfl, hscr, hok⟩, -, -⟩ := hdid.sign_mem hmem
    have happ : approves ⟨s, .answer true o, r.1, r.2⟩ = true := by
      simp [approves, hscr, hok.1, hok.2]
    obtain ⟨d, hlast, hdraw, hholds⟩ := hinv (by rw [hscr]; rfl)
    have hheld := hholds (hcond happ)
    rw [Holds, hscr] at hheld
    exact ⟨d, hlast, hdraw, hheld⟩
  · rintro confirm o data rfl hmem
    obtain ⟨rfl, text, hscr⟩ := returned_address hdid hmem
    have happ : approves ⟨s, .answer true o, r.1, r.2⟩ = true := by
      simp [approves, hscr]
    obtain ⟨d, hlast, hdraw, hholds⟩ := hinv (by rw [hscr]; rfl)
    have hheld := hholds (hcond happ)
    rw [Holds, hscr] at hheld
    exact ⟨d, hlast, hdraw, hheld⟩

/-- **An approval acts on what was displayed**, throughout a run in which no
review is approved behind a new session. -/
theorem run_actsOnDisplayed {ok : History → State → Event → Prop} (h : Run sdk ok hist s)
    (hcond : Throughout NotBehindNewSession hist) :
    Throughout ActsOnDisplayed hist := by
  refine h.throughout ?_ hcond
  intro en hist s hrun _ hcond
  obtain ⟨hrun, -, hen, -⟩ := hrun.last
  rw [hen] at hcond ⊢
  exact (pending_of_run hrun).actsOnDisplayed (step_did sdk en.pre en.event) hcond

/-! ## A review approved behind a new session -/

/-- Nothing restricts the order of events. -/
def AnyOrder (_ : History) (_ : State) (_ : Event) : Prop := True

/-- A request while the contract creation is on screen, and an approval, the
latest event first. -/
def approvedBehind (request : Event) : History × State :=
  runOf creationSdk [approve, request, signTx 2 0 validCreation validCreation_fits,
    signTx 0 0 canonicalPath canonicalPath_fits]

theorem approvedBehind_run (request : Event) :
    Run creationSdk AnyOrder (approvedBehind request).1 (approvedBehind request).2 :=
  Lib.Machine.Run.exec ⟨.zero, rfl⟩ _ ⟨trivial, trivial, trivial, trivial, trivial⟩

/-- A chunk does not disturb a review. -/
theorem behindChunk_actsOnDisplayed :
    Throughout ActsOnDisplayed
      (approvedBehind (signTx 1 0 [0x00] (by decide))).1 :=
  run_actsOnDisplayed (approvedBehind_run _) ⟨by decide, by decide, by decide, by decide, trivial⟩

/-- Behind a new session an approval signs what was never displayed. -/
theorem behindFirst_not_actsOnDisplayed :
    Run creationSdk AnyOrder (approvedBehind (signTx 0 0 canonicalPath (by decide))).1
        (approvedBehind (signTx 0 0 canonicalPath (by decide))).2 ∧
      ¬Throughout ActsOnDisplayed
        (approvedBehind (signTx 0 0 canonicalPath (by decide))).1 := by
  refine ⟨approvedBehind_run _, ?_⟩
  intro hacts
  obtain ⟨⟨hsigns, -⟩, -⟩ := hacts
  have hany : (entry creationSdk (runOf creationSdk [signTx 0 0 canonicalPath (by decide),
      signTx 2 0 validCreation (by decide), signTx 0 0 canonicalPath (by decide)]).2
      approve).out.any Effect.isSign = true := by decide
  obtain ⟨eff, heff, hsign⟩ := List.any_eq_true.mp hany
  cases eff with
  | sign msg c sk =>
    obtain ⟨d, -, -, hholds⟩ := hsigns msg c sk heff
    exact absurd hholds.1.2 (by decide)
  | _ => cases hsign

end LedgerZond.Approval
