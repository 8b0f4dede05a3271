import GrpcWebnext.Ws.Route
import Mathlib.Data.List.Forall2

/-! The request side of a connection, as both servers have it: a read loop that opens
streams and hands payloads to the channel of the stream in its slot, and for each stream
a body that takes them out. -/
namespace GrpcWebnext.Ws
open Framing (Bytes)

/-- What the request channel of a stream starts with: the inline payload, if any, and on
a route without a body an empty one. -/
def Route.first (route : Route) (initial : Bytes) : List Bytes :=
  (if initial = [] then [] else [initial]) ++ (if route.bodyless then [[]] else [])

/-- The request side of one stream. -/
structure Chan where
  initial : Bytes
  json : Bool
  /-- The read loop may still send to it. -/
  fed : Bool
  /-- The body still reads from it. -/
  live : Bool
  called : Bool
  aborted : Bool
  requests : List Bytes
  pulled : List Bytes
  delivered : List Bytes

def Chan.spawn (route : Route) (sub : Subscribe) (json : Bool) : Chan :=
  ⟨sub.initialPayload, json, !route.bodyless, true, false, false,
    route.first sub.initialPayload, [], []⟩

/-- The body has been read to its end. -/
structure Chan.AtEnd (c : Chan) : Prop where
  called : c.called = true
  live : c.live = true
  unfed : c.fed = false
  empty : c.requests = []

structure Intake where
  slot : Option Nat
  /-- The payload the read loop waits to hand over. -/
  held : Option Bytes
  /-- A Message beyond the limit has been seen and is still to be answered. -/
  barred : Bool
  reading : Bool
  chans : List Chan

namespace Intake

/-- The read loop is about to take the next frame. -/
structure Ready (s : Intake) : Prop where
  reading : s.reading = true
  held : s.held = none
  barred : s.barred = false

/-- The stream in the slot. -/
def current (s : Intake) : Option Chan := s.slot.bind fun i => s.chans[i]?

/-- The stream in the slot is told to stop; `keeps` is whether its sender outlives this. -/
def abort (s : Intake) (keeps : Bool) : Intake :=
  match s.slot with
  | none => s
  | some i => { s with
      chans := s.chans.modify i fun c => { c with fed := c.fed && keeps, aborted := true } }

def drop (s : Intake) (keeps : Bool) : Intake := { s.abort keeps with slot := none }

/-- The read loop returns. -/
def quit (s : Intake) (keeps drops : Bool) : Intake :=
  { if drops then s.drop keeps else s.abort keeps with held := none, barred := false, reading := false }

theorem abort_slot (s : Intake) (keeps : Bool) : (s.abort keeps).slot = s.slot := by
  unfold abort
  split <;> simp only [*]

theorem abort_held (s : Intake) (keeps : Bool) : (s.abort keeps).held = s.held := by
  unfold abort
  split <;> rfl

theorem abort_reading (s : Intake) (keeps : Bool) : (s.abort keeps).reading = s.reading := by
  unfold abort
  split <;> rfl

theorem abort_length (s : Intake) (keeps : Bool) : (s.abort keeps).chans.length = s.chans.length := by
  unfold abort
  split
  · rfl
  · exact List.length_modify ..

/-- A frame that changes nothing on the request side. -/
def Deaf (route : Route) (s : Intake) : Kind → Prop
  | .message payload => payload.length ≤ route.maxMessageBytes ∧ ∀ c ∈ s.current, c.fed = false
  | .halfClose => s.current = none
  | .reset _ _ => False
  | _ => True

end Intake

/-- A frame behind which a stream takes no more payloads. -/
def closes (limit : Nat) : Kind → Bool
  | .message payload => limit < payload.length
  | .halfClose => true
  | .reset _ _ => true
  | _ => false

/-- One move of the request side, with the frame the read loop handles in it. -/
inductive Moves (route : Route) (s : Intake) : Option Kind → Intake → Prop where
  | idle : Moves route s none s
  | ignores {kind : Kind} (ready : s.Ready) (deaf : s.Deaf route kind) :
      Moves route s (some kind) s
  | opens (sub : Subscribe) (json : Bool) (ready : s.Ready) (empty : s.slot = none) :
      Moves route s (some (.subscribe sub))
        { s with slot := some s.chans.length, chans := s.chans ++ [.spawn route sub json] }
  | takes {c : Chan} {payload : Bytes} (ready : s.Ready) (found : s.current = some c)
      (fed : c.fed = true) (small : payload.length ≤ route.maxMessageBytes) :
      Moves route s (some (.message payload)) { s with held := some payload }
  | halfCloses {i : Nat} {c : Chan} (ready : s.Ready) (slot : s.slot = some i)
      (found : s.chans[i]? = some c) :
      Moves route s (some .halfClose) { s with chans := s.chans.set i { c with fed := false } }
  | drops {kind : Kind} (keeps : Bool) (ready : s.Ready)
      (cause : closes route.maxMessageBytes kind = true) : Moves route s (some kind) (s.drop keeps)
  | bars {payload : Bytes} (ready : s.Ready) (large : route.maxMessageBytes < payload.length) :
      Moves route s (some (.message payload)) { s with barred := true }
  | answers (keeps : Bool) (barred : s.barred = true) :
      Moves route s none { s.drop keeps with barred := false }
  | quits (keeps drops : Bool) (idle : s.held = none) : Moves route s none (s.quit keeps drops)
  | feeds {i : Nat} {c : Chan} {payload : Bytes} (held : s.held = some payload)
      (slot : s.slot = some i) (found : s.chans[i]? = some c)
      (room : c.requests.length < requestCapacity) :
      Moves route s none { s with
        held := none
        chans := s.chans.set i { c with requests := c.requests ++ [payload] } }
  | loses (deaf : ∀ c ∈ s.current, c.live = false ∨ c.aborted = true) :
      Moves route s none { s with held := none }
  | calls {i : Nat} {c : Chan} (found : s.chans[i]? = some c) :
      Moves route s none { s with chans := s.chans.set i { c with called := true } }
  | pulls {i : Nat} {c : Chan} {payload message : Bytes} {rest : List Bytes}
      (found : s.chans[i]? = some c) (called : c.called = true) (live : c.live = true)
      (waiting : c.requests = payload :: rest) (made : route.toProto c.json payload = some message) :
      Moves route s none { s with
        chans := s.chans.set i { c with
          requests := rest
          pulled := c.pulled ++ [payload]
          delivered := c.delivered ++ [message] } }
  | breaks {i : Nat} {c : Chan} {payload : Bytes} {rest : List Bytes}
      (found : s.chans[i]? = some c) (waiting : c.requests = payload :: rest)
      (panics : route.toProto c.json payload = none) :
      Moves route s none { s with chans := s.chans.set i { c with requests := rest, live := false } }
  | stops {i : Nat} {c : Chan} (found : s.chans[i]? = some c) :
      Moves route s none { s with chans := s.chans.set i { c with live := false } }

/-- What one move may do to one stream. -/
inductive Turn (route : Route) (held : Option Bytes) (c : Chan) : Chan → Prop where
  | halfCloses : Turn route held c { c with fed := false }
  | aborts (keeps : Bool) : Turn route held c { c with fed := c.fed && keeps, aborted := true }
  | feeds {payload : Bytes} (given : held = some payload) :
      Turn route held c { c with requests := c.requests ++ [payload] }
  | calls : Turn route held c { c with called := true }
  | pulls {payload message : Bytes} {rest : List Bytes} (live : c.live = true)
      (waiting : c.requests = payload :: rest) (made : route.toProto c.json payload = some message) :
      Turn route held c { c with
        requests := rest
        pulled := c.pulled ++ [payload]
        delivered := c.delivered ++ [message] }
  | breaks {payload : Bytes} {rest : List Bytes} (waiting : c.requests = payload :: rest) :
      Turn route held c { c with requests := rest, live := false }
  | stops : Turn route held c { c with live := false }

section Lists
variable {α β : Type} {l : List α} {i : Nat} {a a' : α}

theorem set_of_eq (found : l[i]? = some a) : l.set i a = l := by
  apply List.ext_getElem?
  intro k
  rw [List.getElem?_set]
  split
  · rename_i same
    subst same
    split
    · exact found.symm
    · rename_i outside
      rw [List.getElem?_eq_none (Nat.le_of_not_lt outside)]
  · rfl

theorem map_set_of_eq {f : α → β} (found : l[i]? = some a) (same : f a' = f a) :
    (l.set i a').map f = l.map f := by
  rw [List.map_set, same]
  apply set_of_eq
  rw [List.getElem?_map, found]
  rfl

theorem map_modify {f : α → β} {g : α → α} {g' : β → β} (commutes : ∀ a, f (g a) = g' (f a)) :
    (l.modify i g).map f = (l.map f).modify i g' := by
  apply List.ext_getElem?
  intro k
  simp only [List.getElem?_map, List.getElem?_modify]
  cases l[k]? with
  | none => rfl
  | some a =>
      by_cases same : i = k
      · simp [same, commutes]
      · simp [same]

theorem modify_eq_set {g : α → α} (found : l[i]? = some a) : l.modify i g = l.set i (g a) := by
  apply List.ext_getElem?
  intro k
  rw [List.getElem?_modify, List.getElem?_set]
  by_cases same : i = k
  · subst same
    have inside : i < l.length := (List.getElem?_eq_some_iff.mp found).1
    simp only [found, inside, if_true, Option.map_eq_map, Option.map_some]
  · simp [same]

theorem mem_modify {g : α → α} {x : α} (inside : x ∈ l.modify i g) : x ∈ l ∨ ∃ y ∈ l, x = g y := by
  obtain ⟨k, found⟩ := List.mem_iff_getElem?.mp inside
  rw [List.getElem?_modify] at found
  obtain ⟨y, before, same⟩ := Option.map_eq_some_iff.mp found
  have member : y ∈ l := List.mem_of_getElem? before
  split at same
  · exact .inr ⟨y, member, same.symm⟩
  · exact .inl (same ▸ member)

end Lists

/-- A stream that moves without touching its request side. -/
theorem Moves.stays {route : Route} {s : Intake} {i : Nat} {c : Chan} (found : s.chans[i]? = some c) :
    Moves route s none { s with chans := s.chans.set i c } := by
  rw [set_of_eq found]
  exact .idle

theorem Turn.of_abort {route : Route} {s : Intake} {keeps : Bool} {c : Chan}
    (inside : c ∈ (s.abort keeps).chans) :
    c ∈ s.chans ∨ ∃ before ∈ s.chans, Turn route s.held before c := by
  unfold Intake.abort at inside
  split at inside
  · exact .inl inside
  · rcases mem_modify inside with same | ⟨before, member, rfl⟩
    · exact .inl same
    · exact .inr ⟨before, member, .aborts keeps⟩

/-- A stream behind a move: it was there, it took its turn, or it is new. -/
theorem Moves.chan {route : Route} {s s' : Intake} {frame : Option Kind} (h : Moves route s frame s')
    {c : Chan} (inside : c ∈ s'.chans) :
    (c ∈ s.chans ∨ ∃ before ∈ s.chans, Turn route s.held before c) ∨
      ∃ sub json, frame = some (.subscribe sub) ∧ c = .spawn route sub json := by
  have changed : ∀ {i : Nat} {before after : Chan}, s.chans[i]? = some before →
      Turn route s.held before after → c ∈ s.chans.set i after →
      c ∈ s.chans ∨ ∃ before ∈ s.chans, Turn route s.held before c := by
    intro i before after found turn inside
    rcases List.mem_or_eq_of_mem_set inside with member | rfl
    · exact .inl member
    · exact .inr ⟨before, List.mem_of_getElem? found, turn⟩
  cases h with
  | idle => exact .inl (.inl inside)
  | ignores ready deaf => exact .inl (.inl inside)
  | opens sub json ready empty =>
      rcases List.mem_append.mp inside with member | new
      · exact .inl (.inl member)
      · exact .inr ⟨sub, json, rfl, List.mem_singleton.mp new⟩
  | takes ready found fed small => exact .inl (.inl inside)
  | halfCloses ready slot found => exact .inl (changed found .halfCloses inside)
  | drops keeps ready cause => exact .inl (Turn.of_abort inside)
  | bars ready large => exact .inl (.inl inside)
  | answers keeps barred => exact .inl (Turn.of_abort inside)
  | quits keeps drops idle => cases drops <;> exact .inl (Turn.of_abort inside)
  | feeds held slot found room => exact .inl (changed found (.feeds held) inside)
  | loses deaf => exact .inl (.inl inside)
  | calls found => exact .inl (changed found .calls inside)
  | pulls found called live waiting made =>
      exact .inl (changed found (.pulls live waiting made) inside)
  | breaks found waiting panics => exact .inl (changed found (.breaks waiting) inside)
  | stops found => exact .inl (changed found .stops inside)

/-- No move takes a stream away. -/
theorem Moves.length_le {route : Route} {s s' : Intake} {frame : Option Kind}
    (h : Moves route s frame s') : s.chans.length ≤ s'.chans.length := by
  cases h with
  | opens sub json ready empty => simp
  | drops keeps ready cause => exact (Intake.abort_length s keeps).ge
  | answers keeps barred => exact (Intake.abort_length s keeps).ge
  | quits keeps drops idle => cases drops <;> exact (Intake.abort_length s keeps).ge
  | _ => simp

/-- Only an open frame brings one. -/
theorem Moves.length_of_plain {route : Route} {s s' : Intake} {frame : Option Kind}
    (h : Moves route s frame s') (plain : ∀ sub, frame ≠ some (.subscribe sub)) :
    s'.chans.length = s.chans.length := by
  cases h with
  | opens sub json ready empty => exact absurd rfl (plain sub)
  | drops keeps ready cause => exact Intake.abort_length s keeps
  | answers keeps barred => exact Intake.abort_length s keeps
  | quits keeps drops idle => cases drops <;> exact Intake.abort_length s keeps
  | _ => simp

/-- What the read loop holds behind a move is what it held, or the payload of the frame,
which the stream in the slot is open for. -/
theorem Moves.held {route : Route} {s s' : Intake} {frame : Option Kind} (h : Moves route s frame s')
    {payload : Bytes} (holds : s'.held = some payload) :
    s.held = some payload ∨
      frame = some (.message payload) ∧ ∃ c ∈ s.chans, c.fed = true := by
  cases h with
  | @takes c p ready found fed small =>
      cases holds
      obtain ⟨i, _, found⟩ := Option.bind_eq_some_iff.mp found
      exact .inr ⟨rfl, c, List.mem_of_getElem? found, fed⟩
  | drops keeps ready cause => exact .inl ((Intake.abort_held s keeps).symm.trans holds)
  | answers keeps barred => exact .inl ((Intake.abort_held s keeps).symm.trans holds)
  | quits keeps drops idle => cases holds
  | feeds held slot found room => cases holds
  | loses deaf => cases holds
  | _ => exact .inl holds

end GrpcWebnext.Ws
