import LedgerZond.HostClient

/-! # Requests that ask and change nothing

The version, the name, the chunks of the stored key, the chunks of a signature
before its last, and whatever the dispatcher refuses: a host may put such
requests in anywhere, also while something else is under way, and every other
step of the run is the one it was. -/
namespace LedgerZond.Queries
open LedgerZond.CTypes LedgerZond.Types LedgerZond.Platform LedgerZond.AppState LedgerZond.App
open LedgerZond.Requests LedgerZond.Steps LedgerZond.HostClient

def Request.isQuery : Request → Bool
  | .refused _ => true
  | .version => true
  | .appName => true
  | .publicKeyChunk _ => true
  | .signature index => index != 17
  | _ => false

def isQuery (e : Event) : Bool := (Event.request e).any Request.isQuery

variable {sdk : Sdk} {s : State} {e : Event} {q : Request}

theorem request_of_isQuery (h : isQuery e = true) :
    ∃ q, Event.request e = some q ∧ Request.isQuery q = true := by
  unfold isQuery at h
  cases hq : Event.request e with
  | none =>
    rw [hq] at h
    cases h
  | some q =>
    rw [hq] at h
    exact ⟨q, rfl, h⟩

/-- A query leaves the state as it is and is replied to at once. -/
structure Silent (r : Result) (s : State) : Prop where
  state : r.1 = s
  reply : (replyOf r.2).isSome = true

theorem silent_publicKeyChunk (index : UInt8) (s : State) :
    Silent (helperSendResponsePkChunk index s) s := by
  unfold helperSendResponsePkChunk
  split
  · exact ⟨rfl, rfl⟩
  · exact ⟨rfl, rfl⟩

theorem silent_signature {index : UInt8} (hq : Event.request e = some (.signature index))
    (h17 : index ≠ 17) : Silent (step sdk s e) s := by
  obtain ⟨-, ⟨-, hstep⟩ | ⟨-, hstep⟩⟩ := @step_signature sdk s e index hq
  · rw [hstep]
    exact ⟨rfl, rfl⟩
  · rw [hstep, afterChunk, if_neg h17]
    exact ⟨rfl, rfl⟩

theorem step_silent (h : isQuery e = true) : Silent (step sdk s e) s := by
  obtain ⟨q, hq, hquery⟩ := request_of_isQuery h
  obtain ⟨o, ho⟩ := outcome_of_request hq
  cases q with
  | refused sw =>
    rw [step_request hq ho]
    exact ⟨rfl, rfl⟩
  | version =>
    rw [step_request hq ho]
    exact ⟨rfl, rfl⟩
  | appName =>
    rw [step_request hq ho]
    exact ⟨rfl, rfl⟩
  | publicKeyChunk index =>
    rw [step_request hq ho]
    exact silent_publicKeyChunk index s
  | signature index => exact silent_signature hq (bne_iff_ne.mp hquery)
  | _ => cases hquery

/-- **Queries are transparent**, in whatever state they come and among
whatever events: without them the run takes the same other steps, to the same
end, and each of them gets a reply. -/
theorem exec_withoutQueries (sdk : Sdk) (s : State) (es : List Event) :
    Lib.Machine.exec (step sdk) s (es.filter fun e => !isQuery e) =
        ((Lib.Machine.exec (step sdk) s es).1.filter fun en => !isQuery en.event,
          (Lib.Machine.exec (step sdk) s es).2) ∧
      ∀ en ∈ (Lib.Machine.exec (step sdk) s es).1, isQuery en.event = true →
        en.post = en.pre ∧ (replyOf en.out).isSome = true := by
  refine ⟨Lib.Machine.exec_filter (fun s e h => (step_silent h).state) s es, ?_⟩
  intro en hen hquery
  have hstep := @step_silent sdk en.pre en.event hquery
  rw [Lib.Machine.exec_genuine s es en hen]
  exact ⟨hstep.state, hstep.reply⟩

end LedgerZond.Queries
