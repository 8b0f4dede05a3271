import GrpcWebnext.Library.Framing
import GrpcWebnext.Metadata

/-! The request limit of the h2ts tunnel: `GrpcSizeLimit` of `h2ts.rs` and
`grpcSizeLimitReader` of `h2ts.go`, which walk the body byte by byte and never hold it. -/
namespace GrpcWebnext.H2ts.SizeLimit
open Framing (Bytes ofBe32 nextHeader declaredLengths)

/-- Where the walk is in a frame: the bytes of the header seen, the length so far, and what
is left of the message once the header is complete. -/
structure GrpcSizeLimit where
  headerSeen : Nat
  lenBuf : List UInt8
  bodyRemaining : Nat
  seen : headerSeen ≤ 5
  four : lenBuf.length = 4

def GrpcSizeLimit.new : GrpcSizeLimit := ⟨0, [0, 0, 0, 0], 0, Nat.zero_le 5, rfl⟩

/-- `u32::from_be_bytes`. -/
def fromBeBytes (buf : List UInt8) : Nat := ofBe32 (buf.getD 0 0) (buf.getD 1 0) (buf.getD 2 0) (buf.getD 3 0)

/-- A code and a message. -/
abbrev Refusal := Nat × String

def refusal (max : Nat) : Refusal :=
  (Code.resourceExhausted, "request message exceeds size limit (" ++ toString max ++ " bytes)")

/-- A byte of the header is taken: the first is the flag, the others go to the length. -/
def GrpcSizeLimit.take (s : GrpcSizeLimit) (b : UInt8) (open_ : s.headerSeen < 5) : GrpcSizeLimit where
  headerSeen := s.headerSeen + 1
  lenBuf := if 1 ≤ s.headerSeen then s.lenBuf.set (s.headerSeen - 1) b else s.lenBuf
  bodyRemaining := s.bodyRemaining
  seen := open_
  four := by
    split
    · rw [List.length_set]
      exact s.four
    · exact s.four

/-- The header is complete and declares a length. -/
def GrpcSizeLimit.await (s : GrpcSizeLimit) (len : Nat) : GrpcSizeLimit := { s with bodyRemaining := len }

/-- Bytes of the message are passed; at its end the next header is awaited. -/
def GrpcSizeLimit.pass (s : GrpcSizeLimit) (n : Nat) : GrpcSizeLimit where
  headerSeen := if s.bodyRemaining - n = 0 then 0 else s.headerSeen
  lenBuf := s.lenBuf
  bodyRemaining := s.bodyRemaining - n
  seen := by
    split
    · exact Nat.zero_le 5
    · exact s.seen
  four := s.four

/-- The rounds of the `while` loop of `inspect`, on what is left of the chunk; without fuel
there is no answer. -/
def rounds (max : Nat) : Nat → GrpcSizeLimit → Bytes → Option (Except Refusal GrpcSizeLimit)
  | _, s, [] => some (.ok s)
  | 0, _, _ :: _ => none
  | fuel + 1, s, b :: rest =>
      if open_ : s.headerSeen < 5 then
        let taken := s.take b open_
        if taken.headerSeen = 5 then
          let len := fromBeBytes taken.lenBuf
          if max < len then some (.error (refusal max)) else rounds max fuel (taken.await len) rest
        else rounds max fuel taken rest
      else
        let n := min s.bodyRemaining (b :: rest).length
        rounds max fuel (s.pass n) ((b :: rest).drop n)

/-- `inspect`, with a round for every byte and one more for every message that may end. -/
def inspect (max : Nat) (s : GrpcSizeLimit) (data : Bytes) : Option (Except Refusal GrpcSizeLimit) :=
  rounds max (2 * data.length + 1) s data

namespace Rust

def inspect (max : Nat) : GrpcSizeLimit → Bytes → Option (Except Refusal GrpcSizeLimit) :=
  SizeLimit.inspect max

end Rust

namespace Go

/-- The same walk, the length compared as an `int64`. -/
def inspect (max : Nat) : GrpcSizeLimit → Bytes → Option (Except Refusal GrpcSizeLimit) :=
  SizeLimit.inspect max

end Go

/-- The place of the first chunk that is refused, the chunks inspected in order. -/
def failsAt (inspect : GrpcSizeLimit → Bytes → Option (Except Refusal GrpcSizeLimit)) :
    GrpcSizeLimit → List Bytes → Option Nat
  | _, [] => none
  | s, chunk :: rest => match inspect s chunk with
    | some (.ok s) => (failsAt inspect s rest).map (· + 1)
    | some (.error _) => some 0
    | none => none

/-- A complete header of the stream declares a length above the limit. -/
def Over (max : Nat) (stream : Bytes) : Prop := ∃ n ∈ declaredLengths stream, max < n

/-- The part of a header that has been seen; the flag does not matter. -/
def GrpcSizeLimit.header (s : GrpcSizeLimit) : Bytes :=
  if s.headerSeen = 0 then [] else 0 :: s.lenBuf.take (s.headerSeen - 1)

/-- What a parser at a frame boundary would have to be fed to be where the walk is. -/
def GrpcSizeLimit.pending (s : GrpcSizeLimit) (future : Bytes) : Bytes :=
  if s.headerSeen < 5 then s.header ++ future else future.drop s.bodyRemaining

/-- The lengths declared from here on. -/
def GrpcSizeLimit.lengths (s : GrpcSizeLimit) (future : Bytes) : List Nat :=
  declaredLengths (s.pending future)

theorem declaredLengths_short {bs : Bytes} (short : bs.length < 5) : declaredLengths bs = [] := by
  have none : nextHeader bs = none := by
    match bs with
    | flag :: a :: b :: c :: d :: rest =>
        simp only [List.length_cons] at short
        omega
    | [] | [_] | [_, _] | [_, _, _] | [_, _, _, _] => rfl
  rw [declaredLengths, Scan.scan_none none]

theorem declaredLengths_flags (x y : UInt8) (bs : Bytes) :
    declaredLengths (x :: bs) = declaredLengths (y :: bs) := by
  match bs with
  | a :: b :: c :: d :: rest => rw [Framing.declaredLengths_cons, Framing.declaredLengths_cons]
  | [] | [_] | [_, _] | [_, _, _] => rfl

/-- At the end of a chunk no header is complete that has not been judged. -/
theorem lengths_nil (s : GrpcSizeLimit) : s.lengths [] = [] := by
  apply declaredLengths_short
  unfold GrpcSizeLimit.pending GrpcSizeLimit.header
  have := s.four
  split
  · split
    · decide
    · simp only [List.append_nil, List.length_cons, List.length_take]
      omega
  · rw [List.drop_nil]
    decide

theorem take_set {l : List UInt8} {i : Nat} (inside : i < l.length) (b : UInt8) :
    (l.set i b).take (i + 1) = l.take i ++ [b] := by
  have inside' : i < (l.set i b).length := by
    rw [List.length_set]
    exact inside
  rw [List.take_succ_eq_append_getElem inside', List.getElem_set_self, List.take_set_of_le (Nat.le_refl i)]

/-- A byte in the middle of a header. -/
theorem lengths_take {s : GrpcSizeLimit} (open_ : s.headerSeen < 5) (part : s.headerSeen + 1 ≠ 5) (b : UInt8)
    (future : Bytes) : s.lengths (b :: future) = (s.take b open_).lengths future := by
  have four := s.four
  have more : s.headerSeen + 1 < 5 := by omega
  simp only [GrpcSizeLimit.lengths, GrpcSizeLimit.pending, GrpcSizeLimit.header, GrpcSizeLimit.take,
    open_, more,
    if_true, Nat.add_sub_cancel, Nat.add_eq_zero_iff, Nat.one_ne_zero, and_false, if_false]
  by_cases first : s.headerSeen = 0
  · simp only [first, if_true, List.nil_append, List.take_zero, List.cons_append]
    exact declaredLengths_flags b 0 future
  · have later : 1 ≤ s.headerSeen := Nat.one_le_iff_ne_zero.mpr first
    have grown := take_set (l := s.lenBuf) (show s.headerSeen - 1 < s.lenBuf.length by omega) b
    rw [Nat.sub_add_cancel later] at grown
    simp only [first, later, if_true, if_false, grown, List.cons_append, List.append_assoc, List.nil_append]

/-- The last byte of a header. -/
theorem lengths_complete {s : GrpcSizeLimit} (open_ : s.headerSeen < 5)
    (last : s.headerSeen + 1 = 5) (b : UInt8)
    (future : Bytes) : s.lengths (b :: future) =
      fromBeBytes (s.take b open_).lenBuf ::
        declaredLengths (future.drop (fromBeBytes (s.take b open_).lenBuf)) := by
  obtain ⟨headerSeen, lenBuf, bodyRemaining, seen, four⟩ := s
  obtain rfl : headerSeen = 4 := Nat.succ.inj last
  match lenBuf, four with
  | [x, y, z, w], _ => exact Framing.declaredLengths_cons 0 x y z b future

theorem pending_start {s : GrpcSizeLimit} (none : s.headerSeen = 0) (future : Bytes) :
    s.pending future = future := by
  rw [GrpcSizeLimit.pending, GrpcSizeLimit.header, none, if_pos (by omega), if_pos rfl, List.nil_append]

theorem pending_body {s : GrpcSizeLimit} (closed : ¬ s.headerSeen < 5) (future : Bytes) :
    s.pending future = future.drop s.bodyRemaining := if_neg closed

/-- Bytes of a message. -/
theorem lengths_pass {s : GrpcSizeLimit} (closed : ¬ s.headerSeen < 5) (data future : Bytes) :
    s.lengths (data ++ future) =
      (s.pass (min s.bodyRemaining data.length)).lengths
        (data.drop (min s.bodyRemaining data.length) ++ future) := by
  rw [GrpcSizeLimit.lengths, GrpcSizeLimit.lengths, pending_body closed]
  by_cases ends : s.bodyRemaining ≤ data.length
  · rw [Nat.min_eq_left ends]
    have start : (s.pass s.bodyRemaining).headerSeen = 0 := if_pos (Nat.sub_self _)
    rw [pending_start start, List.drop_append_of_le_length ends]
  · rw [Nat.min_eq_right (by omega)]
    have stays : (s.pass data.length).headerSeen = s.headerSeen := if_neg (by omega)
    have still : ¬ (s.pass data.length).headerSeen < 5 := by
      rw [stays]
      exact closed
    rw [pending_body still, List.drop_length, List.nil_append, List.drop_append,
      List.drop_eq_nil_of_le (by omega), List.nil_append]
    rfl

/-- What a verdict on a chunk says of the stream: the limit is kept by all headers completed
in it and the walk stands where the parser does, or a header in it breaks the limit. -/
def Meets (max : Nat) (s : GrpcSizeLimit) (data : Bytes) : Except Refusal GrpcSizeLimit → Prop
  | .ok s' => ∃ passed, (∀ n ∈ passed, n ≤ max) ∧
      ∀ future, s.lengths (data ++ future) = passed ++ s'.lengths future
  | .error e => e = refusal max ∧ ∀ future, ∃ n ∈ s.lengths (data ++ future), max < n

/-- A round that leaves the declared lengths as they are. -/
theorem Meets.same {max : Nat} {s t : GrpcSizeLimit} {data rest : Bytes}
    (same : ∀ future, s.lengths (data ++ future) = t.lengths (rest ++ future))
    {verdict : Except Refusal GrpcSizeLimit} (meets : Meets max t rest verdict) :
    Meets max s data verdict := by
  cases verdict with
  | ok s' =>
      obtain ⟨passed, kept, lengths⟩ := meets
      exact ⟨passed, kept, fun future => (same future).trans (lengths future)⟩
  | error e =>
      obtain ⟨told, broken⟩ := meets
      refine ⟨told, fun future => ?_⟩
      rw [same]
      exact broken future

/-- A round that completes a header within the limit. -/
theorem Meets.kept {max len : Nat} {s t : GrpcSizeLimit} {data rest : Bytes} (within : len ≤ max)
    (next : ∀ future, s.lengths (data ++ future) = len :: t.lengths (rest ++ future))
    {verdict : Except Refusal GrpcSizeLimit} (meets : Meets max t rest verdict) :
    Meets max s data verdict := by
  cases verdict with
  | ok s' =>
      obtain ⟨passed, kept, lengths⟩ := meets
      refine ⟨len :: passed, List.forall_mem_cons.mpr ⟨within, kept⟩, fun future => ?_⟩
      rw [next, lengths, List.cons_append]
  | error e =>
      obtain ⟨told, broken⟩ := meets
      refine ⟨told, fun future => ?_⟩
      obtain ⟨n, member, above⟩ := broken future
      rw [next]
      exact ⟨n, List.mem_cons_of_mem _ member, above⟩

/-- What is left to do bounds the rounds: two for a byte, and one for a message whose end
has not been noticed. -/
def cost (s : GrpcSizeLimit) (data : Bytes) : Nat := 2 * data.length + if s.headerSeen < 5 then 0 else 1

/-- The loop ends within its cost, with a verdict that is right. -/
theorem rounds_meets (max : Nat) (fuel : Nat) :
    ∀ s data, cost s data ≤ fuel → ∃ verdict, rounds max fuel s data = some verdict ∧
    Meets max s data verdict := by
  induction fuel with
  | zero =>
      intro s data enough
      cases data with
      | nil => exact ⟨.ok s, rfl, [], by simp, fun future => rfl⟩
      | cons b rest =>
          simp only [cost, List.length_cons] at enough
          omega
  | succ fuel ih =>
      intro s data enough
      cases data with
      | nil => exact ⟨.ok s, rfl, [], by simp, fun future => rfl⟩
      | cons b rest =>
          rw [rounds]
          by_cases open_ : s.headerSeen < 5
          · simp only [cost, open_, if_true, List.length_cons] at enough
            have cheap : ∀ t : GrpcSizeLimit, cost t rest ≤ fuel := by
              intro t
              unfold cost
              split <;> omega
            rw [dif_pos open_]
            by_cases last : s.headerSeen + 1 = 5
            · have complete := lengths_complete open_ last b
              have five : (s.take b open_).headerSeen = 5 := last
              rw [if_pos five]
              by_cases above : max < fromBeBytes (s.take b open_).lenBuf
              · rw [if_pos above]
                refine ⟨_, rfl, rfl, fun future => ⟨_, ?_, above⟩⟩
                rw [List.cons_append, complete]
                exact List.mem_cons_self
              · rw [if_neg above]
                obtain ⟨verdict, done, meets⟩ := ih _ rest (cheap
                  ((s.take b open_).await (fromBeBytes (s.take b open_).lenBuf)))
                refine ⟨verdict, done, meets.kept (Nat.not_lt.mp above) fun future => ?_⟩
                have closed :
                  ¬ ((s.take b open_).await (fromBeBytes (s.take b open_).lenBuf)).headerSeen < 5 :=
                  Nat.not_lt.mpr (Nat.le_of_eq last.symm)
                rw [List.cons_append, complete, GrpcSizeLimit.lengths, pending_body closed]
                rfl
            · have part : (s.take b open_).headerSeen ≠ 5 := last
              rw [if_neg part]
              obtain ⟨verdict, done, meets⟩ := ih (s.take b open_) rest (cheap _)
              exact ⟨verdict, done, meets.same fun future => lengths_take open_ last b (rest ++ future)⟩
          · rw [dif_neg open_]
            have paid : cost (s.pass (min s.bodyRemaining (b :: rest).length))
                ((b :: rest).drop (min s.bodyRemaining (b :: rest).length)) ≤ fuel := by
              simp only [cost, open_, if_false] at enough
              simp only [cost, List.length_drop]
              by_cases none : s.bodyRemaining = 0
              · have start : (s.pass (min s.bodyRemaining (b :: rest).length)).headerSeen < 5 := by
                  have zero : (s.pass (min s.bodyRemaining (b :: rest).length)).headerSeen = 0 :=
                    if_pos (by omega)
                  omega
                rw [if_pos start]
                omega
              · have some : 1 ≤ min s.bodyRemaining (b :: rest).length := by
                  simp only [List.length_cons]
                  omega
                split <;> omega
            obtain ⟨verdict, done, meets⟩ := ih _ _ paid
            exact ⟨verdict, done, meets.same (lengths_pass open_ (b :: rest))⟩

/-- More fuel changes nothing. -/
theorem rounds_more {max fuel : Nat} {verdict : Except Refusal GrpcSizeLimit} :
    ∀ {s : GrpcSizeLimit} {data : Bytes} (_ : rounds max fuel s data = some verdict) (more : Nat),
      rounds max (fuel + more) s data = some verdict := by
  induction fuel with
  | zero =>
      intro s data done more
      cases data with
      | nil =>
          cases done
          cases 0 + more <;> rfl
      | cons b rest => cases done
  | succ fuel ih =>
      intro s data done more
      rw [Nat.succ_add]
      cases data with
      | nil =>
          cases done
          rfl
      | cons b rest =>
          rw [rounds] at done ⊢
          by_cases open_ : s.headerSeen < 5
          · rw [dif_pos open_] at done ⊢
            by_cases last : (s.take b open_).headerSeen = 5
            · rw [if_pos last] at done ⊢
              by_cases above : max < fromBeBytes (s.take b open_).lenBuf
              · rw [if_pos above] at done ⊢
                exact done
              · rw [if_neg above] at done ⊢
                exact ih done more
            · rw [if_neg last] at done ⊢
              exact ih done more
          · rw [dif_neg open_] at done ⊢
            exact ih done more

theorem inspect_meets (max : Nat) (s : GrpcSizeLimit) (data : Bytes) :
    ∃ verdict, inspect max s data = some verdict ∧ Meets max s data verdict := by
  apply rounds_meets
  unfold cost
  split <;> omega

/-- A header ahead declares a length above the limit. -/
def GrpcSizeLimit.Over (s : GrpcSizeLimit) (max : Nat) (future : Bytes) : Prop :=
  ∃ n ∈ s.lengths future, max < n

theorem not_over_nil (s : GrpcSizeLimit) (max : Nat) : ¬ s.Over max [] := by
  rintro ⟨n, member, _⟩
  rw [lengths_nil] at member
  cases member

/-- A chunk is refused, a header in it being over the limit, or what is over the limit is
still ahead of where the walk then stands. -/
theorem inspect_step (max : Nat) (s : GrpcSizeLimit) (chunk : Bytes) :
    (inspect max s chunk = some (.error (refusal max)) ∧ ∀ future, s.Over max (chunk ++ future)) ∨
      ∃ s', inspect max s chunk = some (.ok s') ∧ ∀ future, s.Over max (chunk ++ future) ↔
        s'.Over max future := by
  obtain ⟨verdict, done, meets⟩ := inspect_meets max s chunk
  cases verdict with
  | error e =>
      obtain ⟨rfl, broken⟩ := meets
      exact .inl ⟨done, broken⟩
  | ok s' =>
      obtain ⟨passed, kept, lengths⟩ := meets
      refine .inr ⟨s', done, fun future => ?_⟩
      unfold GrpcSizeLimit.Over
      rw [lengths future]
      constructor
      · rintro ⟨n, member, above⟩
        rcases List.mem_append.mp member with early | late
        · exact absurd (kept n early) (Nat.not_le.mpr above)
        · exact ⟨n, late, above⟩
      · rintro ⟨n, member, above⟩
        exact ⟨n, List.mem_append_right _ member, above⟩

theorem failsAt_none_iff {max : Nat} (chunks : List Bytes) :
    ∀ s : GrpcSizeLimit, failsAt (inspect max) s chunks = none ↔ ¬ s.Over max chunks.flatten := by
  induction chunks with
  | nil =>
      intro s
      exact ⟨fun _ => not_over_nil s max, fun _ => rfl⟩
  | cons chunk chunks ih =>
      intro s
      rw [failsAt, List.flatten_cons]
      rcases inspect_step max s chunk with ⟨refused, exceeds⟩ | ⟨s', passed, exceeds⟩
      · simp [refused, exceeds]
      · simp [passed, exceeds, ih s']

/-- The first refused chunk is the one that completes the first header over the limit, from
any place in the stream. -/
theorem failsAt_iff {max : Nat} (chunks : List Bytes) :
    ∀ (s : GrpcSizeLimit) (k : Nat), failsAt (inspect max) s chunks = some k ↔
      k < chunks.length ∧ s.Over max (chunks.take (k + 1)).flatten ∧
        ¬ s.Over max (chunks.take k).flatten := by
  induction chunks with
  | nil =>
      intro s k
      simp [failsAt]
  | cons chunk chunks ih =>
      intro s k
      rw [failsAt]
      rcases inspect_step max s chunk with ⟨refused, exceeds⟩ | ⟨s', passed, exceeds⟩
      · cases k with
        | zero =>
            have here := exceeds []
            rw [List.append_nil] at here
            simp [refused, not_over_nil, here]
        | succ k => simp [refused, exceeds]
      · cases k with
        | zero =>
            have here := exceeds []
            rw [List.append_nil] at here
            simp [passed, here, not_over_nil]
        | succ k => simp [passed, exceeds, ← ih s' k]

/-- Fed the chunks of any stream in order, either walk answers every chunk, in however many
rounds it is let run beyond the bound; it refuses a chunk if and only if the stream up to
the end of that chunk, but not before it, has a complete header over the limit; and it
refuses none if and only if there is no such header. -/
theorem size_limit_exact (max : Nat) (chunks : List Bytes) :
    (∀ s data, ∃ verdict, ∀ fuel, 2 * data.length + 1 ≤ fuel → rounds max fuel s data = some verdict) ∧
    (∀ k, failsAt (Rust.inspect max) .new chunks = some k ↔
      k < chunks.length ∧ Over max (chunks.take (k + 1)).flatten ∧ ¬ Over max (chunks.take k).flatten) ∧
    (failsAt (Rust.inspect max) .new chunks = none ↔ ¬ Over max chunks.flatten) ∧
    failsAt (Go.inspect max) .new chunks = failsAt (Rust.inspect max) .new chunks := by
  have exact_ : ∀ k, failsAt (inspect max) .new chunks = some k ↔
      k < chunks.length ∧ Over max (chunks.take (k + 1)).flatten ∧ ¬ Over max (chunks.take k).flatten :=
    failsAt_iff chunks .new
  refine ⟨?_, exact_, failsAt_none_iff chunks .new, rfl⟩
  intro s data
  obtain ⟨verdict, done, _⟩ := inspect_meets max s data
  refine ⟨verdict, fun fuel enough => ?_⟩
  obtain ⟨more, rfl⟩ := Nat.exists_eq_add_of_le enough
  exact rounds_more done more

/-- A message of no bytes is passed, and the header behind it is judged in the chunk that
brings its last byte. -/
example : failsAt (Rust.inspect 2) .new [[0, 0, 0], [0, 0, 0, 0, 0], [0, 3], [7]] = some 2 := by decide

end GrpcWebnext.H2ts.SizeLimit
