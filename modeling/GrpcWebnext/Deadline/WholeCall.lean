import GrpcWebnext.Deadline.RunStream
import GrpcWebnext.Deadline.UnaryProto

/-! The deadline on the four in-process paths of the Rust server: with `run_stream` and
`unary_proto`, `json_upstream` of `fetch.rs` and the service of `h2ts.rs`. -/
namespace GrpcWebnext.Deadline
open Framing (Bytes)
open Ws (Subscribe)

/-- When `json_upstream` answers: with the end of the body, or at the deadline. -/
def Backend.heardBy (d : Nat) : Backend → Nat
  | .refused time _ => min time d
  | .served none => d
  | .served (some a) => match a.closedBy d with
    | some (t, _) => t
    | none => d

/-- `json_upstream` from the dispatch of the call: one timer over the call and its body. -/
def jsonUpstreamAt (toJson : Bytes → Except String Bytes) (d : Nat) (b : Backend) : Nat × JsonResponse :=
  (b.heardBy d, Rust.jsonUpstream toJson (b.timed d fun _ => d))

theorem jsonUpstreamAt_covers (toJson : Bytes → Except String Bytes) (d : Nat) (b : Backend) :
    Covers d (b.FinishedBy d) (fun _ => True) (fun response => response.statusCode = Code.deadlineExceeded)
      [jsonUpstreamAt toJson d b] where
  timely x inside _ := by
    rw [List.mem_singleton.mp inside]
    simp only [jsonUpstreamAt]
    unfold Backend.heardBy
    split
    · exact Nat.min_le_right _ _
    · exact le_rfl
    · split
      · rename_i closed
        exact (Answer.closedBy_some closed).2
      · exact le_rfl
  told unfinished := by
    refine ⟨_, List.mem_singleton_self _, ?_⟩
    simp only [jsonUpstreamAt]
    cases b with
    | refused time reason =>
        rw [Backend.timed, if_neg (show ¬ time ≤ d from unfinished)]
        rfl
    | served answer => cases answer with
      | none => rfl
      | some a =>
          have unclosed : a.closedBy d = none := Option.not_isSome_iff_eq_none.mp unfinished
          simp only [Backend.timed]
          split
          · simp only [Rust.jsonUpstream, Answer.read, unclosed]
            rfl
          · rfl

/-- What is sent over h2ts, where tonic writes the response itself. -/
inductive H2Sent where
  | headers (block : HeaderMap)
  | data (bytes : Bytes)
  | close (close : Close)
  /-- A trailers-only DEADLINE_EXCEEDED. -/
  | late

def H2Sent.FromBackend : H2Sent → Prop
  | .headers _ => True
  | .data bytes => bytes ≠ []
  | .close (.trailers _) => True
  | _ => False

/-- DEADLINE_EXCEEDED, or a stream that is reset. -/
def H2Sent.Late : H2Sent → Prop
  | .late => True
  | .close (.failed _) => True
  | _ => False

/-- The service of an h2ts connection from the dispatch of the call. Its timer is over
`routes.oneshot`, which is done when the response opens. -/
def serveAt (d : Nat) : Option Answer → List (Nat × H2Sent)
  | none => [(d, .late)]
  | some a =>
      if a.opensAt ≤ d then
        (a.opensAt, .headers a.headers) :: ((a.chunks.map fun c => (c.1, .data c.2)) ++
          a.close.toList.map fun c => (c.1, .close c.2))
      else [(d, .late)]

/-- When h2ts keeps to the deadline: the response has opened too late, or is complete in time,
or has nothing more to say and is reset. -/
def H2tsInTime (d : Nat) (a : Answer) : Prop :=
  (a.closedBy d).isSome ∨ totalBytes a.chunks ≤ a.bytesBy d ∧ ∃ t reason, a.close = some (t, .failed reason)

theorem relayAt_zero (chunks : List (Nat × Bytes)) : relayAt 0 chunks = chunks.filter fun c => c.2 ≠ [] := by
  induction chunks with
  | nil => rfl
  | cons chunk rest ih =>
      obtain ⟨time, bytes⟩ := chunk
      simp only [relayAt, List.drop_zero, Nat.zero_sub, ih]
      by_cases empty : bytes = [] <;> simp [empty]

theorem data_timely_iff (a : Answer) (d : Nat) :
    (∀ c ∈ a.chunks, c.2 ≠ [] → c.1 ≤ d) ↔ totalBytes a.chunks ≤ a.bytesBy d := by
  have timely := relayAt_timely_iff (d := d) a.chunks_ordered 0
  rw [relayAt_zero, Nat.zero_max] at timely
  rw [Answer.bytesBy, Answer.chunksBy, ← timely]
  simp only [List.mem_filter, decide_eq_true_eq, and_imp]

theorem serveAt_covers_iff (d : Nat) (answer : Option Answer) :
    Covers d ((Backend.served answer).FinishedBy d) H2Sent.FromBackend H2Sent.Late (serveAt d answer) ↔
      ∀ a, answer = some a → a.opensAt ≤ d → H2tsInTime d a := by
  have expires : ∀ finished : Prop, Covers d finished H2Sent.FromBackend H2Sent.Late [(d, .late)] := fun _ =>
    ⟨fun x inside fromBackend => by rw [List.mem_singleton.mp inside], fun _ =>
      ⟨_, List.mem_singleton_self _, trivial⟩⟩
  cases answer with
  | none => exact iff_of_true (expires _) fun a named => by cases named
  | some a =>
      by_cases opened : a.opensAt ≤ d
      · simp only [Option.some.injEq, forall_eq', opened, forall_const]
        rw [serveAt, if_pos opened, covers_iff]
        unfold H2tsInTime
        rw [← data_timely_iff]
        have timely :
          (∀ x ∈ (a.opensAt, H2Sent.headers a.headers) :: ((a.chunks.map fun c => (c.1, H2Sent.data c.2)) ++
            a.close.toList.map fun c => (c.1, H2Sent.close c.2)), x.2.FromBackend → x.1 ≤ d) ↔
              (∀ c ∈ a.chunks, c.2 ≠ [] → c.1 ≤ d) ∧ ∀ c ∈ a.close, (H2Sent.close c.2).FromBackend →
                c.1 ≤ d := by
          rw [List.forall_mem_cons, List.forall_mem_append, List.forall_mem_map, List.forall_mem_map]
          simp only [Option.mem_toList]
          exact and_iff_right fun _ => opened
        have told : (∃ x ∈ (a.opensAt, H2Sent.headers a.headers) ::
          ((a.chunks.map fun c => (c.1, H2Sent.data c.2)) ++
            a.close.toList.map fun c => (c.1, H2Sent.close c.2)), x.2.Late) ↔
              ∃ t reason, a.close = some (t, .failed reason) := by
          constructor
          · rintro ⟨x, inside, late⟩
            rcases List.mem_cons.mp inside with rfl | inside
            · cases late
            rcases List.mem_append.mp inside with inside | inside
            · obtain ⟨c, _, rfl⟩ := List.mem_map.mp inside
              cases late
            · obtain ⟨⟨t, close⟩, closes, rfl⟩ := List.mem_map.mp inside
              cases close with
              | failed reason => exact ⟨t, reason, Option.mem_toList.mp closes⟩
              | bare | trailers block => cases late
          · rintro ⟨t, reason, closes⟩
            refine ⟨(t, .close (.failed reason)),
              List.mem_cons_of_mem _ (List.mem_append_right _ ?_), trivial⟩
            exact List.mem_map.mpr ⟨_, Option.mem_toList.mpr closes, rfl⟩
        rw [timely, told]
        cases closed : a.closedBy d with
        | some c =>
            obtain ⟨closes, soon⟩ := Answer.closedBy_some closed
            refine iff_of_true ⟨⟨fun c inside _ => ?_, fun c named _ => ?_⟩, fun unfinished => ?_⟩ (.inl rfl)
            · exact Nat.le_trans ((Answer.closes_behind closes).2 c inside) soon
            · cases closes.symm.trans named
              exact soon
            · exact absurd (by rw [Backend.FinishedBy, closed]; rfl) unfinished
        | none =>
            have unfinished : ¬ (Backend.served (some a)).FinishedBy d := by simp [Backend.FinishedBy, closed]
            rw [Option.isSome_none, or_iff_right Bool.false_ne_true, imp_iff_right unfinished]
            refine and_congr_left fun reset => and_iff_left fun c named => ?_
            obtain ⟨t, reason, closes⟩ := reset
            cases closes.symm.trans named
            exact fun fromBackend => fromBackend.elim
      · refine iff_of_true ?_ ?_
        · rw [serveAt, if_neg opened]
          exact expires _
        · intro b named soon
          cases named
          exact absurd soon opened

/-- The deadline covers the whole call on the WebSocket and JSON paths. On Fetch it does when
nothing is left for the timer that is armed anew at the opening, on h2ts when nothing is left
after it. -/
theorem deadline_covers_iff (srv : Ws.RustServer.Config) (fromBase64 : Bytes → Option Bytes)
    (toJson : Bytes → Except String Bytes) (d : Nat) (b : Backend) (answer : Option Answer)
    (sub : Subscribe) (json : Bool) :
    (sub.timeoutMillis ≠ 0 →
      Covers (sub.timeoutMillis * nanosPerMilli) (b.FinishedBy (sub.timeoutMillis * nanosPerMilli))
        (fun _ => True)
        (fun out => out.status = some Code.deadlineExceeded ∨
          b.Unrendered srv json (sub.timeoutMillis * nanosPerMilli) ∧ out.status = some Code.internal)
        (runStreamAt srv sub json b)) ∧
    Covers d (b.FinishedBy d) (fun _ => True) (fun response => response.statusCode = Code.deadlineExceeded)
      [jsonUpstreamAt toJson d b] ∧
    (Covers d (b.FinishedBy d) Sent.FromBackend Sent.Late (unaryProtoAt fromBase64 d b) ↔
      b.UnaryInTime fromBase64 d) ∧
    (Covers d ((Backend.served answer).FinishedBy d) H2Sent.FromBackend H2Sent.Late (serveAt d answer) ↔
      ∀ a, answer = some a → a.opensAt ≤ d → H2tsInTime d a) :=
  ⟨fun timed => runStreamAt_covers srv json timed b, jsonUpstreamAt_covers toJson d b,
    unaryProtoAt_covers_iff fromBase64 d b, serveAt_covers_iff d answer⟩

/-- A response that opens at 6, has its message at 12 and its trailers at 13. -/
def slow : Answer := ⟨6, [], [(12, [0, 0, 0, 0, 1, 7])], some (13, .trailers []), by decide⟩

/-- Under a deadline of 10 both `unary_proto` and h2ts forward the message at 12 and the end
at 13. -/
theorem slow_answer_is_forwarded :
    (12, Sent.block [0, 0, 0, 1, 7]) ∈ unaryProtoAt (fun _ => none) 10 (.served (some slow)) ∧
      ¬ Covers 10 ((Backend.served (some slow)).FinishedBy 10) Sent.FromBackend Sent.Late
        (unaryProtoAt (fun _ => none) 10 (.served (some slow))) ∧
      (12, H2Sent.data [0, 0, 0, 0, 1, 7]) ∈ serveAt 10 (some slow) ∧
      ¬ Covers 10 ((Backend.served (some slow)).FinishedBy 10) H2Sent.FromBackend H2Sent.Late
        (serveAt 10 (some slow)) := by
  have fetched : (12, Sent.block [0, 0, 0, 1, 7]) ∈ unaryProtoAt (fun _ => none) 10 (.served (some slow)) :=
    .tail _ (.head _)
  have tunnelled : (12, H2Sent.data [0, 0, 0, 0, 1, 7]) ∈ serveAt 10 (some slow) := .tail _ (.head _)
  refine ⟨fetched, fun covers => ?_, tunnelled, fun covers => ?_⟩
  · exact absurd (covers.timely _ fetched trivial) (by decide)
  · exact absurd (covers.timely _ tunnelled (List.cons_ne_nil _ _)) (by decide)

end GrpcWebnext.Deadline
