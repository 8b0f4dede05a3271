import GrpcWebnext.Deadline.Timeline
import GrpcWebnext.Ws.Pump

/-! The deadline of a WebSocket stream: `run_stream` of `ws.rs` arms one timer over its whole
pump. -/
namespace GrpcWebnext.Deadline
open Framing (Bytes)
open Ws (Subscribe Out statusOf)

open Ws.RustServer
variable (srv : Config)

def nanosPerMilli : Nat := 1000000

def Close.acts : Close → List Act
  | .bare => [.bodyEnd]
  | .trailers block => [.trailers block, .bodyEnd]
  | .failed _ => [.bodyError]

/-- What the response brings to the stream task, and when. -/
def Answer.acts (a : Answer) : List (Nat × Act) :=
  (a.opensAt, .answered (.ok a.headers)) :: (a.chunks.map fun c => (c.1, .data c.2)) ++
    a.close.toList.flatMap fun c => c.2.acts.map fun act => (c.1, act)

def Backend.acts : Backend → List (Nat × Act)
  | .refused time reason => [(time, .answered (.error reason))]
  | .served none => []
  | .served (some a) => a.acts

/-- `pump`, with the time of every frame. -/
def pumpAt : Task → List (Nat × Act) → List (Nat × Out)
  | _, [] => []
  | t, (time, act) :: acts => match runStream srv idle t act with
    | some (t', _) =>
        ((sends srv t'.pending.length t').2.map fun out => (time, out)) ++
          pumpAt (sends srv t'.pending.length t').1 acts
    | none => pumpAt t acts

/-- `run_stream` from the dispatch of the call: one timer over the whole pump. -/
def runStreamAt (sub : Subscribe) (json : Bool) (b : Backend) : List (Nat × Out) :=
  let d := sub.timeoutMillis * nanosPerMilli
  pumpAt srv (waiting srv sub json) (Clock.upTo d b.acts ++ [(d, .expire)])

theorem pumpAt_map (acts : List (Nat × Act)) :
    ∀ t : Task, (pumpAt srv t acts).map Prod.snd = pump srv t (acts.map Prod.snd) := by
  induction acts with
  | nil =>
      intro t
      rfl
  | cons timed acts ih =>
      intro t
      obtain ⟨time, act⟩ := timed
      cases moved : runStream srv idle t act with
      | none => simp only [pumpAt, pump, List.map_cons, moved, ih]
      | some next =>
          simp only [pumpAt, pump, List.map_cons, moved, List.map_append, List.map_map, ih]
          exact congrArg (· ++ _) (List.map_id _)

/-- A frame is sent when something happens. -/
theorem pumpAt_time (acts : List (Nat × Act)) :
    ∀ t : Task, ∀ x ∈ pumpAt srv t acts, ∃ timed ∈ acts, x.1 = timed.1 := by
  induction acts with
  | nil =>
      intro t x inside
      cases inside
  | cons timed acts ih =>
      intro t x inside
      obtain ⟨time, act⟩ := timed
      simp only [pumpAt] at inside
      split at inside
      · rcases List.mem_append.mp inside with now | later
        · obtain ⟨out, _, rfl⟩ := List.mem_map.mp now
          exact ⟨(time, act), List.mem_cons_self, rfl⟩
        · obtain ⟨other, found, same⟩ := ih _ x later
          exact ⟨other, List.mem_cons_of_mem _ found, same⟩
      · obtain ⟨other, found, same⟩ := ih _ x inside
        exact ⟨other, List.mem_cons_of_mem _ found, same⟩

/-- A message came in time that the transcoder cannot render: the server has then ended the
stream itself, with a Reset in the message's place. -/
def Backend.Unrendered (json : Bool) (d : Nat) (b : Backend) : Prop :=
  ∃ a, b = .served (some a) ∧ srv.Unrenderable json (a.read d).messages

/-- What the task hears of a response that is not finished at the deadline. -/
theorem acts_unfinished {a : Answer} {d : Nat} (opened : a.opensAt ≤ d) (unfinished : a.closedBy d = none) :
    (Clock.upTo d a.acts ++ [(d, Act.expire)]).map Prod.snd = actsOf (a.read d) := by
  have late : ∀ e ∈ a.close.toList.flatMap fun c => c.2.acts.map fun act => (c.1, act), d < e.1 := by
    intro e inside
    obtain ⟨c, closes, inside⟩ := List.mem_flatMap.mp inside
    obtain ⟨act, _, rfl⟩ := List.mem_map.mp inside
    rw [Option.mem_toList] at closes
    simpa [Answer.closedBy, closes, Option.filter] using unfinished
  rw [Answer.acts, List.cons_append, Clock.upTo_cons_of_le opened, Clock.upTo_append_of_lt _ late,
    Clock.upTo_map]
  simp [actsOf, Answer.read, Answer.chunksBy, unfinished, List.map_map, Function.comp_def]

/-- A stream whose call has not been answered at the deadline ends with DEADLINE_EXCEEDED. -/
theorem statusOf_expire {sub : Subscribe} (json : Bool) (timed : sub.timeoutMillis ≠ 0) :
    statusOf (pump srv (waiting srv sub json) [.expire]) = some Code.deadlineExceeded := by
  have moved : runStream srv idle (waiting srv sub json) .expire = some ({ waiting srv sub json with
      pending := [.frame json (.trailer Code.deadlineExceeded (utf8 "deadline exceeded") []), Ws.closeNormal]
      point := .closing }, []) := by
    change (if sub.timeoutMillis = 0 then none else some _) = some _
    exact if_neg timed
  rw [statusOf_pump_cons moved]
  rfl

theorem statusOf_unfinished {sub : Subscribe} (json : Bool) (timed : sub.timeoutMillis ≠ 0) {b : Backend}
    (unfinished : ¬ b.FinishedBy (sub.timeoutMillis * nanosPerMilli)) :
    statusOf ((runStreamAt srv sub json b).map Prod.snd) = some Code.deadlineExceeded ∨
      b.Unrendered srv json (sub.timeoutMillis * nanosPerMilli) ∧
        statusOf ((runStreamAt srv sub json b).map Prod.snd) = some Code.internal := by
  unfold runStreamAt
  dsimp only
  rw [pumpAt_map]
  generalize sub.timeoutMillis * nanosPerMilli = d at unfinished ⊢
  cases b with
  | refused time reason =>
      rw [Backend.acts, Clock.upTo_cons_of_lt (Nat.lt_of_not_le unfinished)]
      exact .inl (statusOf_expire srv json timed)
  | served answer => cases answer with
    | none => exact .inl (statusOf_expire srv json timed)
    | some a =>
        by_cases opened : a.opensAt ≤ d
        · have open_ : a.closedBy d = none := Option.not_isSome_iff_eq_none.mp unfinished
          rw [Backend.acts, acts_unfinished opened open_]
          have told := surfaced_eq srv sub json (a.read d)
          rw [surfaced] at told
          cases rendered : (srv.encodeAll json (a.read d).messages).2 with
          | some e =>
              rw [rendered] at told
              exact .inr ⟨⟨a, rfl, by rw [Ws.Route.Unrenderable, rendered]; rfl⟩, told⟩
          | none =>
              have expires : (a.read d).ending = .expired := by simp [Answer.read, open_]
              rw [rendered, expires] at told
              exact .inl (told.trans (if_neg timed))
        · rw [Backend.acts, Answer.acts, List.cons_append, Clock.upTo_cons_of_lt (Nat.lt_of_not_le opened)]
          exact .inl (statusOf_expire srv json timed)

/-- `run_stream` covers the whole call. -/
theorem runStreamAt_covers {sub : Subscribe} (json : Bool) (timed : sub.timeoutMillis ≠ 0) (b : Backend) :
    Covers (sub.timeoutMillis * nanosPerMilli) (b.FinishedBy (sub.timeoutMillis * nanosPerMilli))
      (fun _ => True)
      (fun out => out.status = some Code.deadlineExceeded ∨
        b.Unrendered srv json (sub.timeoutMillis * nanosPerMilli) ∧ out.status = some Code.internal)
      (runStreamAt srv sub json b) where
  timely x inside _ := by
    obtain ⟨timed, found, same⟩ := pumpAt_time srv _ _ x inside
    rw [same]
    rcases List.mem_append.mp found with soon | expires
    · exact Clock.le_of_mem_upTo soon
    · rw [List.mem_singleton.mp expires]
  told unfinished := by
    have named : ∀ code, statusOf ((runStreamAt srv sub json b).map Prod.snd) = some code →
        ∃ x ∈ runStreamAt srv sub json b, x.2.status = some code := by
      intro code status
      obtain ⟨out, inside, carries⟩ := List.exists_of_findSome?_eq_some status
      obtain ⟨x, found, rfl⟩ := List.mem_map.mp inside
      exact ⟨x, found, carries⟩
    rcases statusOf_unfinished srv json timed unfinished with late | ⟨unrendered, internal⟩
    · obtain ⟨x, found, carries⟩ := named _ late
      exact ⟨x, found, .inl carries⟩
    · obtain ⟨x, found, carries⟩ := named _ internal
      exact ⟨x, found, .inr ⟨unrendered, carries⟩⟩

end GrpcWebnext.Deadline
