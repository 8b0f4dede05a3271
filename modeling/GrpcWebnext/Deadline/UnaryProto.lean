import GrpcWebnext.Deadline.Timeline

/-! The deadline of a Fetch call: `unary_proto` of `fetch.rs` arms a timer over the opening of
the response, and another one over its body when it has opened. -/
namespace GrpcWebnext.Deadline
open Framing (Bytes)

variable (fromBase64 : Bytes → Option Bytes)

/-- What `unary_proto` sends: the response head, the bytes of the message, and how the body
ends; `late` and `refused` are the server's own statuses, `cut` is a body without a Trailer. -/
inductive Sent where
  | head (headers : HeaderMap)
  | block (bytes : Bytes)
  | status (trailer : Trailer)
  | late (trailing : List Metadatum)
  | refused (reason : String)
  | cut

/-- The backend's headers, message and status, also in the trailing metadata of `late`. -/
def Sent.FromBackend : Sent → Prop
  | .head _ => True
  | .block _ => True
  | .status _ => True
  | .late trailing => trailing ≠ []
  | .refused _ => False
  | .cut => False

/-- DEADLINE_EXCEEDED, or a body that ends without a Trailer. -/
def Sent.Late : Sent → Prop
  | .late _ => True
  | .cut => True
  | _ => False

/-- The forwarding loop, with the time of every chunk. -/
def relayAt : Nat → List (Nat × Bytes) → List (Nat × Bytes)
  | _, [] => []
  | skip, (time, chunk) :: rest =>
      let data := chunk.drop skip
      if data = [] then relayAt (skip - chunk.length) rest
      else (time, data) :: relayAt (skip - chunk.length) rest

/-- The stream behind the response head. Its timer is armed anew when the response opens. -/
def streamAt (d : Nat) (a : Answer) : List (Nat × Sent) :=
  let deadlineAt := a.opensAt + d
  let blocks := relayAt 1 (a.chunksBy deadlineAt)
  (blocks.map fun b => (b.1, Sent.block b.2)) ++
    match a.closedBy deadlineAt with
    | some (t, .failed _) => [(t, .cut)]
    | some (t, _) => [(t, .status (Rust.trailerOf fromBase64 (a.read deadlineAt)))]
    | none =>
        if blocks = [] then
          [(deadlineAt, .late (Rust.metadataToVec fromBase64 (if a.trailersOnly then a.headers else [])))]
        else [(deadlineAt, .cut)]

/-- `unary_proto` from the dispatch of the call. -/
def unaryProtoAt (d : Nat) : Backend → List (Nat × Sent)
  | .refused time reason => if time ≤ d then [(time, .refused ("upstream: " ++ reason))] else [(d, .late [])]
  | .served none => [(d, .late [])]
  | .served (some a) =>
      if a.opensAt ≤ d then
        (a.opensAt, .head (if a.trailersOnly then [] else a.headers)) :: streamAt fromBase64 d a
      else [(d, .late [])]

def Sent.initial : Sent → Option HeaderMap
  | .head headers => some headers
  | _ => none

def Sent.bytes : Sent → Option Bytes
  | .block bytes => some bytes
  | _ => none

def Sent.trailer : Sent → Option Trailer
  | .status trailer => some trailer
  | .late trailing => some ⟨Code.deadlineExceeded, utf8 "deadline exceeded", trailing⟩
  | .refused reason => some ⟨Code.unavailable, utf8 reason, []⟩
  | _ => none

/-- The response that is sent, its times forgotten. A Trailer has a message block before it. -/
def written (sent : List (Nat × Sent)) : FetchResponse :=
  let blocks := sent.filterMap fun x => x.2.bytes
  let trailer := sent.findSome? fun x => x.2.trailer
  ⟨(sent.findSome? fun x => x.2.initial).getD [],
    if blocks = [] ∧ trailer.isSome then [emptyMessageBlock] else blocks, trailer⟩

theorem relayAt_map (chunks : List (Nat × Bytes)) :
    ∀ skip, (relayAt skip chunks).map Prod.snd = relay skip (chunks.map Prod.snd) := by
  induction chunks with
  | nil =>
      intro skip
      rfl
  | cons chunk rest ih =>
      intro skip
      obtain ⟨time, bytes⟩ := chunk
      simp only [relayAt, relay, List.map_cons]
      split
      · exact ih _
      · rw [List.map_cons, ih]

theorem mem_relayAt (chunks : List (Nat × Bytes)) :
    ∀ skip, ∀ b ∈ relayAt skip chunks, ∃ c ∈ chunks, b.1 = c.1 := by
  induction chunks with
  | nil =>
      intro skip b inside
      cases inside
  | cons chunk rest ih =>
      intro skip b inside
      obtain ⟨time, bytes⟩ := chunk
      have behind : b ∈ relayAt (skip - bytes.length) rest → ∃ c ∈ (time, bytes) :: rest, b.1 = c.1 := by
        intro later
        obtain ⟨c, found, same⟩ := ih _ b later
        exact ⟨c, List.mem_cons_of_mem _ found, same⟩
      simp only [relayAt] at inside
      split at inside
      · exact behind inside
      · rcases List.mem_cons.mp inside with rfl | later
        · exact ⟨_, List.mem_cons_self, rfl⟩
        · exact behind later

theorem relayAt_eq_nil_iff (chunks : List (Nat × Bytes)) :
    ∀ skip, relayAt skip chunks = [] ↔ totalBytes chunks ≤ skip := by
  induction chunks with
  | nil =>
      intro skip
      exact iff_of_true rfl (Nat.zero_le _)
  | cons chunk rest ih =>
      intro skip
      obtain ⟨time, bytes⟩ := chunk
      have size : totalBytes ((time, bytes) :: rest) = bytes.length + totalBytes rest := rfl
      simp only [relayAt, List.drop_eq_nil_iff]
      split
      · rw [ih, size]
        omega
      · rw [size]
        exact iff_of_false (List.cons_ne_nil _ _) (by omega)

/-- Of the bytes behind the first `skip`, none comes later than `d` when all were there by then. -/
theorem relayAt_timely_iff {d : Nat} {chunks : List (Nat × Bytes)} (ordered : Clock.Ordered chunks) :
    ∀ skip, (∀ b ∈ relayAt skip chunks, b.1 ≤ d) ↔
      totalBytes chunks ≤ max skip (totalBytes (Clock.upTo d chunks)) := by
  induction chunks with
  | nil =>
      intro skip
      exact iff_of_true (fun b inside => by cases inside) (Nat.zero_le _)
  | cons chunk rest ih =>
      intro skip
      obtain ⟨time, bytes⟩ := chunk
      have size : ∀ rest : List (Nat × Bytes), totalBytes ((time, bytes) :: rest) =
        bytes.length + totalBytes rest := fun _ => rfl
      rcases Nat.lt_or_ge d time with late | soon
      · rw [Clock.upTo_cons_of_lt late, show totalBytes [] = 0 from rfl, Nat.max_zero, ← relayAt_eq_nil_iff]
        constructor
        · intro timely
          rw [List.eq_nil_iff_forall_not_mem]
          intro b inside
          obtain ⟨c, found, same⟩ := mem_relayAt _ _ b inside
          have behind := ordered.lt_of_cons late c found
          have soon := timely b inside
          omega
        · intro none b inside
          rw [none] at inside
          cases inside
      · have tail := ih (List.Pairwise.of_cons ordered) (skip - bytes.length)
        rw [Clock.upTo_cons_of_le soon, size, size]
        simp only [relayAt, List.drop_eq_nil_iff]
        split
        · rw [tail]
          omega
        · rw [List.forall_mem_cons, tail, and_iff_right soon]
          omega

/-- The bytes forwarded by a timer at `v` that ends later are timely when they had come. -/
theorem blocks_timely_iff (a : Answer) {d v : Nat} (later : d ≤ v) :
    (∀ b ∈ relayAt 1 (a.chunksBy v), b.1 ≤ d) ↔ a.bytesBy v ≤ max 1 (a.bytesBy d) := by
  have read := relayAt_timely_iff (d := d) (a.chunks_ordered.upTo v) 1
  rw [Clock.upTo_upTo later] at read
  exact read

/-- When `unary_proto` keeps to the deadline: the body is complete by then; or nothing more of
the message comes before the timer that was armed at its opening, and neither does an end that
is no failure, and the Trailer of that timer carries no metadata of the backend late. -/
def Answer.UnaryInTime (d : Nat) (a : Answer) : Prop :=
  (a.closedBy d).isSome ∨ a.bytesBy (a.opensAt + d) ≤ max 1 (a.bytesBy d) ∧
    match a.closedBy (a.opensAt + d) with
    | some (_, .failed _) => True
    | some _ => False
    | none => a.opensAt = 0 ∨ 1 < a.bytesBy (a.opensAt + d) ∨
        Rust.metadataToVec fromBase64 (if a.trailersOnly then a.headers else []) = []

def Backend.UnaryInTime (d : Nat) : Backend → Prop
  | .served (some a) => a.opensAt ≤ d → a.UnaryInTime fromBase64 d
  | _ => True

/-- A stream is covered by its deadline when its blocks are timely, and its last item is, and
is a late one unless the backend had finished. -/
theorem covers_stream {d opensAt : Nat} (opened : opensAt ≤ d) {finished : Prop} (initial : HeaderMap)
    (blocks : List (Nat × Bytes)) (last : Nat × Sent) :
    Covers d finished Sent.FromBackend Sent.Late
        ((opensAt, .head initial) :: ((blocks.map fun b => (b.1, Sent.block b.2)) ++ [last])) ↔
      (∀ b ∈ blocks, b.1 ≤ d) ∧ (last.2.FromBackend → last.1 ≤ d) ∧ (¬ finished → last.2.Late) := by
  rw [covers_iff, ← and_assoc]
  refine and_congr ?_ (imp_congr_right fun _ => ?_)
  · rw [List.forall_mem_cons, List.forall_mem_append, List.forall_mem_map, List.forall_mem_singleton]
    refine (and_iff_right fun _ => opened).trans (and_congr_left fun _ => ?_)
    exact forall₂_congr fun b _ => imp_iff_right trivial
  · simp [Sent.Late]

theorem Answer.unaryInTime_iff {d : Nat} (a : Answer) (opened : a.opensAt ≤ d) :
    Covers d ((a.closedBy d).isSome) Sent.FromBackend Sent.Late
      (unaryProtoAt fromBase64 d (.served (some a))) ↔
      a.UnaryInTime fromBase64 d := by
  have timely := blocks_timely_iff a (Nat.le_add_left d a.opensAt)
  simp only [unaryProtoAt, if_pos opened, streamAt]
  unfold Answer.UnaryInTime
  cases closed : a.closedBy d with
  | some c =>
      obtain ⟨t, close⟩ := c
      have same : a.bytesBy (a.opensAt + d) = a.bytesBy d := by
        rw [Answer.bytesBy, Answer.bytesBy,
          Answer.chunksBy_closed closed
            (Nat.le_trans (Answer.closedBy_some closed).2 (Nat.le_add_left d a.opensAt)),
          Answer.chunksBy_closed closed (Answer.closedBy_some closed).2]
      rw [Answer.closedBy_mono closed (Nat.le_add_left d a.opensAt)]
      refine iff_of_true ?_ (.inl rfl)
      cases close <;> dsimp only <;> rw [covers_stream opened, timely, same] <;>
        exact ⟨le_max_right _ _, fun _ => (Answer.closedBy_some closed).2, fun unfinished =>
          absurd rfl unfinished⟩
  | none =>
      rw [Option.isSome_none, or_iff_right Bool.false_ne_true]
      cases ended : a.closedBy (a.opensAt + d) with
      | some c =>
          obtain ⟨t, close⟩ := c
          have late := Answer.closedBy_late closed ended
          cases close with
          | failed reason =>
              dsimp only
              rw [covers_stream opened, timely]
              simp [Sent.FromBackend, Sent.Late]
          | bare | trailers block =>
              dsimp only
              rw [covers_stream opened]
              simp [Sent.Late]
      | none =>
          have empty := relayAt_eq_nil_iff (a.chunksBy (a.opensAt + d)) 1
          dsimp only
          by_cases none : relayAt 1 (a.chunksBy (a.opensAt + d)) = []
          · have few : ¬ 1 < a.bytesBy (a.opensAt + d) := Nat.not_lt.mpr (empty.mp none)
            rw [if_pos none, covers_stream opened, timely]
            refine and_congr_right fun _ => ?_
            have zero : a.opensAt + d ≤ d ↔ a.opensAt = 0 := by omega
            simp only [Sent.FromBackend, Sent.Late, few, false_or, implies_true, and_true, ne_eq, zero]
            rw [← or_iff_not_imp_left, or_comm]
          · have many : 1 < a.bytesBy (a.opensAt + d) := Nat.lt_of_not_le fun few => none (empty.mpr few)
            rw [if_neg none, covers_stream opened, timely]
            simp [Sent.FromBackend, Sent.Late, many]

theorem unaryProtoAt_covers_iff (d : Nat) (b : Backend) :
    Covers d (b.FinishedBy d) Sent.FromBackend Sent.Late (unaryProtoAt fromBase64 d b) ↔
      b.UnaryInTime fromBase64 d := by
  have expires : ∀ finished : Prop, Covers d finished Sent.FromBackend Sent.Late [(d, .late [])] := fun _ =>
    ⟨fun x inside fromBackend => by rw [List.mem_singleton.mp inside], fun _ =>
      ⟨_, List.mem_singleton_self _, trivial⟩⟩
  cases b with
  | refused time reason =>
      refine iff_of_true ?_ trivial
      rw [unaryProtoAt]
      split
      · rename_i soon
        exact ⟨fun x inside _ => by rw [List.mem_singleton.mp inside]; exact soon, fun unfinished =>
          absurd soon unfinished⟩
      · exact expires _
  | served answer => cases answer with
    | none => exact iff_of_true (expires _) trivial
    | some a =>
        by_cases opened : a.opensAt ≤ d
        · exact (a.unaryInTime_iff fromBase64 opened).trans (imp_iff_right opened).symm
        · rw [unaryProtoAt, if_neg opened]
          exact iff_of_true (expires _) fun soon => absurd soon opened

theorem written_stream (time : Nat) (initial : HeaderMap) (blocks : List (Nat × Bytes)) {last : Nat × Sent}
    (silent : last.2.bytes = none) :
    written ((time, .head initial) :: ((blocks.map fun b => (b.1, Sent.block b.2)) ++ [last])) =
      ⟨initial, if blocks.map Prod.snd = [] ∧ last.2.trailer.isSome then [emptyMessageBlock]
        else blocks.map Prod.snd,
        last.2.trailer⟩ := by
  have bytes : ((time, Sent.head initial) ::
    ((blocks.map fun b => (b.1, Sent.block b.2)) ++ [last])).filterMap
      (fun x => x.2.bytes) = blocks.map Prod.snd := by
    have relayed : (blocks.map fun b => (b.1, Sent.block b.2)).filterMap (fun x => x.2.bytes) =
      blocks.map Prod.snd := by
      rw [List.filterMap_map]
      exact congrFun List.filterMap_eq_map blocks
    have none : [last].filterMap (fun x => x.2.bytes) = [] := List.filterMap_cons_none silent
    rw [List.filterMap_cons_none rfl, List.filterMap_append, relayed, none, List.append_nil]
  have trailer :
    ((time, Sent.head initial) :: ((blocks.map fun b => (b.1, Sent.block b.2)) ++ [last])).findSome?
      (fun x => x.2.trailer) = last.2.trailer := by
    have none : (blocks.map fun b => (b.1, Sent.block b.2)).findSome? (fun x => x.2.trailer) = none := by
      rw [List.findSome?_eq_none_iff, List.forall_mem_map]
      exact fun _ _ => rfl
    rw [List.findSome?_cons_of_isNone rfl, List.findSome?_append, none, Option.none_or,
      List.findSome?_singleton]
  unfold written
  rw [bytes, trailer]
  rfl

/-- With its times forgotten this is `unary_proto` on the call that its two timers make of the
backend. -/
theorem written_unaryProtoAt (d : Nat) (b : Backend) :
    written (unaryProtoAt fromBase64 d b) = Rust.unaryProto fromBase64 (b.timed d (· + d)) := by
  cases b with
  | refused time reason =>
      simp only [unaryProtoAt, Backend.timed]
      split <;> rfl
  | served answer => cases answer with
    | none => rfl
    | some a =>
        simp only [unaryProtoAt, Backend.timed]
        split
        · have sent : (relayAt 1 (a.chunksBy (a.opensAt + d))).map Prod.snd =
            relay 1 (a.read (a.opensAt + d)).chunks :=
            relayAt_map _ 1
          have empty : relay 1 (a.read (a.opensAt + d)).chunks = [] ↔
            relayAt 1 (a.chunksBy (a.opensAt + d)) = [] := by
            rw [← sent, List.map_eq_nil_iff]
          simp only [streamAt, Rust.unaryProto, Rust.streamResponse]
          cases closed : a.closedBy (a.opensAt + d) with
          | some c =>
              obtain ⟨t, close⟩ := c
              have ending : (a.read (a.opensAt + d)).ending = close.ending := by simp [Answer.read, closed]
              rw [ending]
              cases close with
              | failed reason =>
                  dsimp only [Close.ending]
                  rw [written_stream _ _ _ rfl, sent]
                  simp only [Sent.trailer, Option.isSome_none, Bool.false_eq_true, and_false, if_false]
                  rfl
              | bare | trailers block =>
                  dsimp only [Close.ending]
                  rw [written_stream _ _ _ rfl, sent]
                  simp only [Sent.trailer, Option.isSome_some, and_true]
                  rfl
          | none =>
              have ending : (a.read (a.opensAt + d)).ending = .expired := by simp [Answer.read, closed]
              rw [ending]
              dsimp only
              by_cases none : relayAt 1 (a.chunksBy (a.opensAt + d)) = []
              · rw [if_pos none, written_stream _ _ _ rfl, sent, if_pos (empty.mpr none)]
                simp only [Sent.trailer, Option.isSome_some, and_true]
                rfl
              · rw [if_neg none, written_stream _ _ _ rfl, sent, if_neg (mt empty.mp none)]
                simp only [Sent.trailer, Option.isSome_none, Bool.false_eq_true, and_false, if_false]
                rfl
        · rfl

end GrpcWebnext.Deadline
