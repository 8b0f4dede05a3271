import GrpcWebnext.FetchResponse
import GrpcWebnext.Library.Clock

/-! A backend on a clock that starts when its call is dispatched, and what a deadline promises
of what is sent. -/
namespace GrpcWebnext.Deadline
open Framing (Bytes)

/-- How a body ends of its own accord. -/
inductive Close where
  | bare
  | trailers (block : HeaderMap)
  | failed (reason : String)

def Close.ending : Close → Ending Bytes
  | .bare => .bare
  | .trailers block => .trailers block
  | .failed reason => .failed reason

/-- A response of the backend as it comes in, with the time of each part. -/
structure Answer where
  opensAt : Nat
  headers : HeaderMap
  chunks : List (Nat × Bytes)
  close : Option (Nat × Close)
  ordered : (opensAt :: (chunks.map Prod.fst ++ (close.map Prod.fst).toList)).Pairwise (· ≤ ·)

/-- What becomes of a call: it is refused, it is answered, or nothing is ever heard of it. -/
inductive Backend where
  | refused (time : Nat) (reason : String)
  | served (answer : Option Answer)

def totalBytes (chunks : List (Nat × Bytes)) : Nat := (chunks.map fun c => c.2.length).sum

namespace Answer

def chunksBy (a : Answer) (t : Nat) : List (Nat × Bytes) := Clock.upTo t a.chunks

/-- The end of the body, if it has come by `t`. -/
def closedBy (a : Answer) (t : Nat) : Option (Nat × Close) := a.close.filter fun c => c.1 ≤ t

/-- How many bytes of the body have come by `t`. -/
def bytesBy (a : Answer) (t : Nat) : Nat := totalBytes (a.chunksBy t)

/-- What is read of the response when a timer ends the reading at `t`. -/
def read (a : Answer) (t : Nat) : Response Bytes :=
  ⟨a.headers, (a.chunksBy t).map Prod.snd, match a.closedBy t with
    | some (_, close) => close.ending
    | none => .expired⟩

def trailersOnly (a : Answer) : Bool := (HeaderMap.get a.headers "grpc-status").isSome

end Answer

/-- The call when its opening is timed to `opens`, and the reading of its body to a time
that may depend on when it opened. -/
def Backend.timed (opens : Nat) (reads : Nat → Nat) : Backend → Call
  | .refused time reason => if time ≤ opens then .refused reason else .late
  | .served none => .late
  | .served (some a) => if a.opensAt ≤ opens then .answered (a.read (reads a.opensAt)) else .late

/-- The backend has finished by `t`. -/
def Backend.FinishedBy (t : Nat) : Backend → Prop
  | .refused time _ => time ≤ t
  | .served none => False
  | .served (some a) => (a.closedBy t).isSome

/-- What is promised of what is sent under a deadline `d`: nothing of the backend behind it,
and word of it where the backend has not finished. -/
structure Covers {α : Type} (d : Nat) (finished : Prop) (fromBackend late : α → Prop)
    (sent : List (Nat × α)) : Prop where
  timely : ∀ x ∈ sent, fromBackend x.2 → x.1 ≤ d
  told : ¬ finished → ∃ x ∈ sent, late x.2

theorem covers_iff {α : Type} {d : Nat} {finished : Prop} {fromBackend late : α → Prop}
    {sent : List (Nat × α)} :
    Covers d finished fromBackend late sent ↔
      (∀ x ∈ sent, fromBackend x.2 → x.1 ≤ d) ∧ (¬ finished → ∃ x ∈ sent, late x.2) :=
  ⟨fun covers => ⟨covers.timely, covers.told⟩, fun ⟨timely, told⟩ => ⟨timely, told⟩⟩

namespace Answer

theorem closes_behind {a : Answer} {t : Nat} {close : Close} (closes : a.close = some (t, close)) :
    a.opensAt ≤ t ∧ ∀ c ∈ a.chunks, c.1 ≤ t := by
  have ordered := a.ordered
  rw [closes] at ordered
  constructor
  · exact List.rel_of_pairwise_cons ordered (by simp)
  · intro c inside
    have behind := (List.pairwise_append.mp (List.pairwise_cons.mp ordered).2).2.2
    exact behind c.1 (List.mem_map_of_mem inside) t (by simp)

theorem chunks_ordered (a : Answer) : Clock.Ordered a.chunks := by
  have ordered := (List.pairwise_append.mp (List.pairwise_cons.mp a.ordered).2).1
  exact List.pairwise_map.mp ordered

theorem closedBy_some {a : Answer} {t u : Nat} {close : Close} (closed : a.closedBy t = some (u, close)) :
    a.close = some (u, close) ∧ u ≤ t := by
  obtain ⟨closes, soon⟩ := Option.filter_eq_some_iff.mp closed
  exact ⟨closes, by simpa using soon⟩

theorem closedBy_mono {a : Answer} {t v u : Nat} {close : Close} (closed : a.closedBy t = some (u, close))
    (later : t ≤ v) : a.closedBy v = some (u, close) := by
  obtain ⟨closes, soon⟩ := closedBy_some closed
  rw [closedBy, closes]
  simp [Option.filter, Nat.le_trans soon later]

theorem closedBy_late {a : Answer} {t v u : Nat} {close : Close} (unclosed : a.closedBy t = none)
    (closed : a.closedBy v = some (u, close)) : t < u := by
  rw [closedBy, (closedBy_some closed).1] at unclosed
  simpa [Option.filter] using unclosed

/-- Nothing comes behind the end of a body. -/
theorem chunksBy_closed {a : Answer} {t u v : Nat} {close : Close} (closed : a.closedBy t = some (u, close))
    (later : u ≤ v) : a.chunksBy v = a.chunks :=
  Clock.upTo_eq_self fun c inside => Nat.le_trans ((closes_behind (closedBy_some closed).1).2 c inside) later

end Answer

end GrpcWebnext.Deadline
