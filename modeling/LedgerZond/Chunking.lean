import LedgerZond.Independence
import LedgerZond.Lib.Slices

/-! # How a transaction is cut into chunks

Each chunk that fits is appended to `raw_tx` and answered `SW_OK`, whichever
it is, so that the last one finds there the whole transaction, however it was
cut. Where it is too long, the first chunk that has no room is refused, by
P1 = 1 and by P1 = 2 alike, and nothing of it is written. -/
namespace LedgerZond.Chunking
open LedgerZond.CTypes LedgerZond.Types LedgerZond.Platform LedgerZond.AppState
open LedgerZond.App LedgerZond.Requests LedgerZond.Displays LedgerZond.Independence
open Lib.Machine (exec outputs exec_append outputs_append)

variable {sdk : Sdk} {a b s : State} {e : Event} {o : Outcome} {t cdata : List UInt8}

/-! ## Cuttings -/

/-- A chunk as a host sends it; P1 = 1 does not look at P2. -/
structure Chunk where
  data : List UInt8
  ne_nil : data ≠ []
  lc_le : data.length ≤ 255
  p2 : UInt8

def Chunk.moreApdu (o : Outcome) (c : Chunk) : Event :=
  .apdu (some ⟨cla, insSignTx, dataMore, c.p2, c.data, c.lc_le⟩) o

def Chunk.lastApdu (o : Outcome) (c : Chunk) : Event :=
  .apdu (some ⟨cla, insSignTx, dataLast, 0, c.data, c.lc_le⟩) o

/-- The bytes of chunks. -/
def bytesOf (chunks : List Chunk) : List UInt8 := (chunks.map Chunk.data).flatten

/-- A way of cutting a transaction. -/
structure Cutting (t : List UInt8) where
  more : List Chunk
  last : Chunk
  whole : bytesOf more ++ last.data = t

/-- The APDUs, in the order in which they are sent. -/
def Cutting.apdus (o : Outcome) (c : Cutting t) : List Event :=
  c.more.map (Chunk.moreApdu o) ++ [c.last.lastApdu o]

/-- The run of given events, in the order in which they come in. -/
def feed (sdk : Sdk) (s : State) (es : List Event) : History × State :=
  exec (step sdk) s es.reverse

/-- What it lets out, the latest first. -/
def answers (sdk : Sdk) (s : State) (es : List Event) : List (List Effect) :=
  outputs (step sdk) s es.reverse

theorem Chunk.moreApdu_request (o : Outcome) (c : Chunk) :
    Event.request (c.moreApdu o) = some (.more c.data) := by
  rw [moreApdu, Event.request, requestOf_signTx rfl rfl, if_neg fun h => c.ne_nil h.1]
  rfl

theorem Chunk.lastApdu_request (o : Outcome) (c : Chunk) :
    Event.request (c.lastApdu o) = some (.last c.data) := by
  rw [lastApdu, Event.request, requestOf_signTx rfl rfl, if_neg fun h => c.ne_nil h.1]
  rfl

/-! ## One chunk -/

/-- A session that takes chunks. -/
def IsOpen (ctx : GlobalCtx) : Prop := ctx.reqType = .confirmTransaction ∧ ctx.state = .none

/-- A chunk that fits is appended. -/
theorem step_more (hq : Event.request e = some (.more cdata)) (hfit : ChunkFits s.ctx cdata) :
    ∃ rawTx : RawTx, rawTx.bytes = s.ctx.txInfo.rawTx.bytes ++ cdata ∧
      step sdk s e = (s.setRawTx rawTx, [.sendSw swOk]) := by
  obtain ⟨o, ho⟩ := outcome_of_request hq
  rw [step_request hq ho, serve, signTxMore]
  rcases appendChunk_cases sdk cdata s.ctx with ⟨-, rawTx, happ, hbytes⟩ | ⟨hno, -⟩
  · rw [happ]
    exact ⟨rawTx, hbytes, rfl⟩
  · exact absurd hfit hno

/-- A chunk that has no room is refused, by both ways of appending it. -/
theorem step_tooLong (hopen : IsOpen s.ctx)
    (hq : Event.request e = some (.more cdata) ∨ Event.request e = some (.last cdata))
    (hlong : maxTransactionLen < s.ctx.txInfo.rawTx.bytes.length + cdata.length) :
    step sdk s e = (s, [.sendSw swWrongTxLength]) := by
  have happ : appendChunk sdk cdata s.ctx = .error swWrongTxLength := by
    rw [appendChunk, if_neg (not_not.mpr hopen.1), if_neg (not_not.mpr hopen.2), dif_pos hlong]
  rcases hq with hq | hq
  · obtain ⟨o, ho⟩ := outcome_of_request hq
    rw [step_request hq ho, serve, signTxMore, happ]
    rfl
  · obtain ⟨o, ho⟩ := outcome_of_request hq
    rw [step_request hq ho, serve, signTxLast, happ]
    rfl

/-- A chunk is written behind `raw_tx` and inside it, or nothing of it is. -/
def WritesInside (en : Entry) : Prop :=
  ∀ cdata, chunkOf en.event = some cdata →
    en.post.ctx.txInfo.rawTx = en.pre.ctx.txInfo.rawTx ∨
      en.pre.ctx.txInfo.rawTx.bytes.length + cdata.length ≤ maxTransactionLen ∧
        en.post.ctx.txInfo.rawTx.bytes = en.pre.ctx.txInfo.rawTx.bytes ++ cdata

theorem request_of_chunkOf (h : chunkOf e = some cdata) :
    Event.request e = some (.more cdata) ∨ Event.request e = some (.last cdata) := by
  cases hq : Event.request e with
  | none => simp [chunkOf, hq] at h
  | some q =>
    rw [chunkOf_of_request hq] at h
    cases q with
    | more data =>
      cases h
      exact .inl rfl
    | last data =>
      cases h
      exact .inr rfl
    | _ => cases h

/-- A last chunk that fits is appended and parsed. -/
theorem step_last_rawTx (hq : Event.request e = some (.last cdata)) (hfit : ChunkFits s.ctx cdata) :
    (step sdk s e).1.ctx.txInfo.rawTx.bytes = s.ctx.txInfo.rawTx.bytes ++ cdata := by
  obtain ⟨o, ho⟩ := outcome_of_request hq
  obtain ⟨rawTx, hbytes, heq⟩ := @step_last_eq sdk s e o cdata hq ho hfit
  rw [heq, (signTxParse_parsed sdk o _).settled.same.rawTx]
  exact hbytes

/-- A chunk that does not fit leaves everything as it is. -/
theorem step_unfit
    (hq : Event.request e = some (.more cdata) ∨ Event.request e = some (.last cdata))
    (hno : ¬ChunkFits s.ctx cdata) : (step sdk s e).1 = s := by
  rcases appendChunk_cases sdk cdata s.ctx with ⟨hfit, -⟩ | ⟨-, sw, -, happ⟩
  · exact absurd hfit hno
  rcases hq with hq | hq
  · obtain ⟨o, ho⟩ := outcome_of_request hq
    rw [step_request hq ho, serve, signTxMore, happ]
    rfl
  · obtain ⟨o, ho⟩ := outcome_of_request hq
    rw [step_request hq ho, serve, signTxLast, happ]
    rfl

theorem step_writesInside (sdk : Sdk) (s : State) (e : Event) : WritesInside (entry sdk s e) := by
  intro cdata hchunk
  have hq : Event.request e = some (.more cdata) ∨ Event.request e = some (.last cdata) :=
    request_of_chunkOf hchunk
  by_cases hfit : ChunkFits s.ctx cdata
  · refine .inr ⟨hfit.2.2, ?_⟩
    rcases hq with hq | hq
    · obtain ⟨rawTx, hbytes, heq⟩ := @step_more sdk s e cdata hq hfit
      rw [entry, Lib.Machine.entry, heq]
      exact hbytes
    · exact step_last_rawTx hq hfit
  · left
    rw [entry, Lib.Machine.entry, step_unfit hq hfit]

/-! ## All chunks -/

theorem bytesOf_cons (c : Chunk) (cs : List Chunk) : bytesOf (c :: cs) = c.data ++ bytesOf cs := rfl

theorem bytesOf_concat (cs : List Chunk) (c : Chunk) :
    bytesOf (cs ++ [c]) = bytesOf cs ++ c.data := by
  simp [bytesOf]

/-- **Chunks that fit** are appended one after the other, each answered `SW_OK`. -/
theorem feed_more (hopen : IsOpen s.ctx) (chunks : List Chunk)
    (hroom : s.ctx.txInfo.rawTx.bytes.length + (bytesOf chunks).length ≤ maxTransactionLen) :
    ∃ rawTx : RawTx, rawTx.bytes = s.ctx.txInfo.rawTx.bytes ++ bytesOf chunks ∧
      (feed sdk s (chunks.map (Chunk.moreApdu o))).2 = s.setRawTx rawTx ∧
      answers sdk s (chunks.map (Chunk.moreApdu o)) =
        List.replicate chunks.length [.sendSw swOk] := by
  induction chunks generalizing s with
  | nil => exact ⟨s.ctx.txInfo.rawTx, (List.append_nil _).symm, rfl, rfl⟩
  | cons c cs ih =>
    rw [bytesOf_cons, List.length_append] at hroom
    obtain ⟨rawTx, hbytes, hstep⟩ := @step_more sdk s _ _ (c.moreApdu_request o)
      ⟨hopen.1, hopen.2, by omega⟩
    have hlen : (s.setRawTx rawTx).ctx.txInfo.rawTx.bytes.length =
        s.ctx.txInfo.rawTx.bytes.length + c.data.length := by
      rw [← List.length_append, ← hbytes]
      rfl
    obtain ⟨rawTx', hbytes', hstate, houts⟩ := @ih (s.setRawTx rawTx) hopen (by omega)
    have hone : (exec (step sdk) s [c.moreApdu o]).2 = s.setRawTx rawTx := congrArg Prod.fst hstep
    refine ⟨rawTx', ?_, ?_, ?_⟩
    · rw [hbytes', bytesOf_cons, ← List.append_assoc, ← hbytes]
      rfl
    · rw [feed, List.map_cons, List.reverse_cons, exec_append, hone]
      exact hstate
    · rw [answers, List.map_cons, List.reverse_cons, outputs_append, hone, List.length_cons,
        List.replicate_succ']
      exact congrArg₂ (· ++ ·) houts (congrArg (fun out => [out]) (congrArg Prod.snd hstep))

/-- **The whole transaction** is parsed, however it was cut. -/
theorem feed_whole (hopen : IsOpen s.ctx) (hempty : s.ctx.txInfo.rawTx.bytes = [])
    (ht : t.length ≤ maxTransactionLen) (c : Cutting t) :
    (feed sdk s (c.apdus o)).2 =
        (signTxParse sdk o ((s.setRawTx ⟨t, ht⟩).setState .parsed)).1 ∧
      answers sdk s (c.apdus o) =
        (signTxParse sdk o ((s.setRawTx ⟨t, ht⟩).setState .parsed)).2 ::
          List.replicate c.more.length [.sendSw swOk] := by
  have hlen : (bytesOf c.more).length + c.last.data.length = t.length := by
    rw [← List.length_append, c.whole]
  have hroom : s.ctx.txInfo.rawTx.bytes.length + (bytesOf c.more).length ≤ maxTransactionLen := by
    rw [hempty, List.length_nil]
    omega
  obtain ⟨rawTx, hbytes, hstate, houts⟩ := @feed_more sdk s o hopen c.more hroom
  rw [hempty, List.nil_append] at hbytes
  obtain ⟨whole, hwhole, hlast⟩ := @step_last_eq sdk (s.setRawTx rawTx) _ o c.last.data
    (c.last.lastApdu_request o) rfl ⟨hopen.1, hopen.2, by
      show rawTx.bytes.length + c.last.data.length ≤ maxTransactionLen
      rw [hbytes, hlen]
      exact ht⟩
  have hwhole' : whole = ⟨t, ht⟩ := by
    cases whole with
    | mk bytes hle =>
      have hbytes' : bytes = rawTx.bytes ++ c.last.data := hwhole
      simp only [RawTx.mk.injEq]
      rw [hbytes', hbytes, c.whole]
  rw [hwhole'] at hlast
  have hreverse : (c.apdus o).reverse =
      c.last.lastApdu o :: (c.more.map (Chunk.moreApdu o)).reverse := by
    rw [Cutting.apdus, List.reverse_append]
    rfl
  rw [feed] at hstate ⊢
  rw [answers] at houts ⊢
  rw [hreverse]
  constructor
  · rw [exec, hstate, hlast]
    rfl
  · show (step sdk (exec (step sdk) s (c.more.map (Chunk.moreApdu o)).reverse).2 _).2 ::
      outputs (step sdk) s (c.more.map (Chunk.moreApdu o)).reverse = _
    rw [houts, hstate, hlast]
    rfl

/-- Two cuttings of a transaction, sent in sessions that are alike: the same
answers but for their number, and the same context and review at the end. -/
structure EndAlike (sdk : Sdk) (o : Outcome) (a b : State) (c d : Cutting t) : Prop where
  answers : ∃ out,
    answers sdk a (c.apdus o) = out :: List.replicate c.more.length [.sendSw swOk] ∧
    answers sdk b (d.apdus o) = out :: List.replicate d.more.length [.sendSw swOk]
  rawTx : (feed sdk a (c.apdus o)).2.ctx.txInfo.rawTx.bytes = t
  ctx : (feed sdk a (c.apdus o)).2.ctx = (feed sdk b (d.apdus o)).2.ctx
  review : reviewOn (feed sdk a (c.apdus o)).2 = reviewOn (feed sdk b (d.apdus o)).2

theorem feed_endAlike (h : Alike a b) (hopen : IsOpen a.ctx)
    (hempty : a.ctx.txInfo.rawTx.bytes = []) (ht : t.length ≤ maxTransactionLen)
    (c d : Cutting t) : EndAlike sdk o a b c d := by
  obtain ⟨hstateA, houtA⟩ := @feed_whole sdk a o t hopen hempty ht c
  obtain ⟨hstateB, houtB⟩ := @feed_whole sdk b o t (h.ctx ▸ hopen) (h.ctx ▸ hempty) ht d
  have hparsed : Alike ((a.setRawTx ⟨t, ht⟩).setState .parsed)
      ((b.setRawTx ⟨t, ht⟩).setState .parsed) := by
    simp only [State.setRawTx, State.setState, ← h.ctx]
    exact h.withCtx rfl fun _ hst => by cases hst
  obtain ⟨hout, hend⟩ : SameResult _ _ := @signTxParse_alike sdk _ _ o hparsed
  refine ⟨⟨_, houtA, ?_⟩, ?_, ?_, ?_⟩
  · rw [houtB, hout]
  · rw [hstateA, (signTxParse_parsed sdk o _).settled.same.rawTx]
    rfl
  · rw [hstateA, hstateB]
    exact hend.ctx
  · rw [hstateA, hstateB]
    exact hend.review

/-! ## The limit -/

/-- Chunks that are too long together have a first one without room. -/
theorem exists_tooLong (chunks : List Chunk) {room : Nat} (h : room < (bytesOf chunks).length) :
    ∃ before x after, chunks = before ++ x :: after ∧ (bytesOf before).length ≤ room ∧
      room < (bytesOf before).length + x.data.length := by
  induction chunks generalizing room with
  | nil => simp [bytesOf] at h
  | cons c cs ih =>
    rw [bytesOf_cons, List.length_append] at h
    by_cases hfirst : room < c.data.length
    · exact ⟨[], c, cs, rfl, Nat.zero_le _, by simpa [bytesOf] using hfirst⟩
    · obtain ⟨before, x, after, heq, hle, hlt⟩ := @ih (room - c.data.length) (by omega)
      refine ⟨c :: before, x, after, by rw [heq]; rfl, ?_, ?_⟩
      · rw [bytesOf_cons, List.length_append]
        omega
      · rw [bytesOf_cons, List.length_append]
        omega

/-- The sending of a transaction that is too long: the first chunk that has no
room, sent by P1 = 1 or as the last, is refused and leaves the session as it
was, and no chunk of it is written outside `raw_tx`. -/
structure StopsAtLimit (sdk : Sdk) (o : Outcome) (s : State) (c : Cutting t) : Prop where
  refused : ∃ before e after cdata,
    c.apdus o = before.map (Chunk.moreApdu o) ++ e :: after ∧ chunkOf e = some cdata ∧
    (bytesOf before).length ≤ maxTransactionLen ∧
    maxTransactionLen < (bytesOf before).length + cdata.length ∧
    answers sdk s (before.map (Chunk.moreApdu o)) =
      List.replicate before.length [.sendSw swOk] ∧
    (feed sdk s (before.map (Chunk.moreApdu o))).2.ctx.txInfo.rawTx.bytes = bytesOf before ∧
    step sdk (feed sdk s (before.map (Chunk.moreApdu o))).2 e =
      ((feed sdk s (before.map (Chunk.moreApdu o))).2, [.sendSw swWrongTxLength])
  inside : ∀ en ∈ (feed sdk s (c.apdus o)).1, WritesInside en

/-- The chunks before one that has no room, and that one. -/
theorem feed_tooLong (hopen : IsOpen s.ctx) (hempty : s.ctx.txInfo.rawTx.bytes = [])
    (before : List Chunk)
    (hq : Event.request e = some (.more cdata) ∨ Event.request e = some (.last cdata))
    (hle : (bytesOf before).length ≤ maxTransactionLen)
    (hlt : maxTransactionLen < (bytesOf before).length + cdata.length) :
    answers sdk s (before.map (Chunk.moreApdu o)) =
        List.replicate before.length [.sendSw swOk] ∧
      (feed sdk s (before.map (Chunk.moreApdu o))).2.ctx.txInfo.rawTx.bytes = bytesOf before ∧
      step sdk (feed sdk s (before.map (Chunk.moreApdu o))).2 e =
        ((feed sdk s (before.map (Chunk.moreApdu o))).2, [.sendSw swWrongTxLength]) := by
  have hroom : s.ctx.txInfo.rawTx.bytes.length + (bytesOf before).length ≤ maxTransactionLen := by
    rw [hempty, List.length_nil]
    omega
  obtain ⟨rawTx, hbytes, hstate, houts⟩ := @feed_more sdk s o hopen before hroom
  rw [hempty, List.nil_append] at hbytes
  rw [hstate]
  refine ⟨houts, hbytes, step_tooLong hopen hq ?_⟩
  show maxTransactionLen < rawTx.bytes.length + cdata.length
  rw [hbytes]
  exact hlt

theorem feed_stopsAtLimit (hopen : IsOpen s.ctx) (hempty : s.ctx.txInfo.rawTx.bytes = [])
    (hlong : maxTransactionLen < t.length) (c : Cutting t) : StopsAtLimit sdk o s c where
  refused := by
    have hlen : (bytesOf c.more).length + c.last.data.length = t.length := by
      rw [← List.length_append, c.whole]
    by_cases hmore : maxTransactionLen < (bytesOf c.more).length
    · obtain ⟨before, x, after, heq, hle, hlt⟩ := exists_tooLong c.more hmore
      have hq := x.moreApdu_request o
      refine ⟨before, x.moreApdu o, after.map (Chunk.moreApdu o) ++ [c.last.lastApdu o], x.data, ?_,
        chunkOf_of_request hq, hle, hlt, feed_tooLong hopen hempty before (.inl hq) hle hlt⟩
      rw [Cutting.apdus, heq, List.map_append, List.append_assoc]
      rfl
    · have hq := c.last.lastApdu_request o
      have hlt : maxTransactionLen < (bytesOf c.more).length + c.last.data.length := by omega
      exact ⟨c.more, c.last.lastApdu o, [], c.last.data, rfl, chunkOf_of_request hq, by omega, hlt,
        feed_tooLong hopen hempty c.more (.inr hq) (by omega) hlt⟩
  inside en hen := by
    rw [Lib.Machine.exec_genuine s _ en hen]
    exact step_writesInside sdk en.pre en.event

/-! ## A transaction sent behind a new session -/

/-- What a new session leaves takes chunks, and holds none. -/
theorem step_opens_open (hopens : opens e = true) :
    IsOpen (step sdk s e).1.ctx ∧ (step sdk s e).1.ctx.txInfo.rawTx.bytes = [] := by
  obtain ⟨cdata, hq⟩ := first_of_opens hopens
  obtain ⟨o, ho⟩ := outcome_of_request hq
  obtain ⟨p, n, sw, hfirst⟩ := signTxFirst_eq sdk cdata
  rw [step_request hq ho, serve, hfirst]
  exact ⟨⟨rfl, rfl⟩, rfl⟩

/-- **How a transaction is cut does not matter**: behind the same new session
two devices with equal settings end alike, and a transaction that is too long
is stopped at the limit. -/
theorem cuttings_agree (hset : SameSettings a.nvm b.nvm) (ha : a.screen.isReview = false)
    (hb : b.screen.isReview = false) (hopens : opens e = true) (o : Outcome) (c d : Cutting t) :
    (t.length ≤ maxTransactionLen →
        EndAlike sdk o (step sdk a e).1 (step sdk b e).1 c d) ∧
      (maxTransactionLen < t.length → StopsAtLimit sdk o (step sdk a e).1 c) := by
  obtain ⟨⟨-, halike⟩, -⟩ := @step_opens sdk a b e hset ha hb hopens
  obtain ⟨hopen, hempty⟩ := @step_opens_open sdk a e hopens
  exact ⟨fun ht => feed_endAlike halike hopen hempty ht c d,
    fun hlong => feed_stopsAtLimit hopen hempty hlong c⟩

/-! ## The cutting of the host -/

/-- `split_message` of the test client. -/
def splitMessage (message : List UInt8) (maxSize : Nat) : List (List UInt8) :=
  Lib.Slices.slices maxSize message

/-- `MAX_APDU_LEN`. -/
def maxApduLen : Nat := 255

def hostChunks (t : List UInt8) : List Chunk :=
  (splitMessage t maxApduLen).attach.map fun c =>
    ⟨c.1, (Lib.Slices.mem_slices (by decide) c.2).1, (Lib.Slices.mem_slices (by decide) c.2).2, 0⟩

theorem bytesOf_hostChunks (t : List UInt8) : bytesOf (hostChunks t) = t := by
  have hmap : (hostChunks t).map Chunk.data = splitMessage t maxApduLen := by
    rw [hostChunks, List.map_map]
    exact List.attach_map_subtype_val _
  rw [bytesOf, hmap]
  exact Lib.Slices.flatten_slices (by decide) t

theorem hostChunks_ne_nil (h : t ≠ []) : hostChunks t ≠ [] := by
  intro hnil
  have hbytes := bytesOf_hostChunks t
  rw [hnil] at hbytes
  exact h hbytes.symm

/-- What the test client sends of a transaction is a cutting of it. -/
def hostCutting (t : List UInt8) (h : t ≠ []) : Cutting t where
  more := (hostChunks t).dropLast
  last := (hostChunks t).getLast (hostChunks_ne_nil h)
  whole := by
    rw [← bytesOf_concat, List.dropLast_append_getLast, bytesOf_hostChunks]

/-- A transaction in one chunk. -/
def wholeOf (t : List UInt8) (hne : t ≠ []) (hle : t.length ≤ 255) : Cutting t :=
  ⟨[], ⟨t, hne, hle, 0⟩, List.nil_append t⟩

/-- The contract creation in two chunks. -/
def creationInTwo : Cutting DecodeGrammar.validCreation where
  more := [⟨DecodeGrammar.validCreation.take 8, by decide, by decide, 0⟩]
  last := ⟨DecodeGrammar.validCreation.drop 8, by decide, by decide, 0⟩
  whole := by decide

/-- In two chunks or in one, on a fresh device or behind half a signature. -/
theorem creation_endAlike :
    EndAlike testSdk (.good (.zero _)) (step testSdk (startUp .zero) openSession).1
      (step testSdk interruptedRelease openSession).1 creationInTwo
      (hostCutting DecodeGrammar.validCreation (by decide)) :=
  (cuttings_agree ⟨by decide, by decide, by decide, by decide⟩ (by decide) (by decide) (by decide)
    (.good (.zero _)) creationInTwo (hostCutting DecodeGrammar.validCreation (by decide))).1
    (by decide)

end LedgerZond.Chunking
