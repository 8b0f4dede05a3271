import Mathlib

/-! Events with the times they happen at, in order. -/
namespace Clock
universe u v
variable {T : Type u} {α : Type v} [LinearOrder T]

/-- The events that have happened by `t`, for a reader that takes them one by one. -/
def upTo (t : T) (events : List (T × α)) : List (T × α) := events.takeWhile fun e => e.1 ≤ t

def Ordered (events : List (T × α)) : Prop := events.Pairwise fun a b => a.1 ≤ b.1

theorem le_of_mem_upTo {t : T} {events : List (T × α)} {e : T × α} (inside : e ∈ upTo t events) :
    e.1 ≤ t := by
  simpa using List.mem_takeWhile_imp inside

theorem upTo_cons_of_le {t : T} {e : T × α} (happened : e.1 ≤ t) (rest : List (T × α)) :
    upTo t (e :: rest) = e :: upTo t rest := by
  simp [upTo, happened]

theorem upTo_cons_of_lt {t : T} {e : T × α} (later : t < e.1) (rest : List (T × α)) :
    upTo t (e :: rest) = [] := by
  simp [upTo, later]

/-- A reader that waits long enough reads everything. -/
theorem upTo_eq_self {t : T} {events : List (T × α)} (all : ∀ e ∈ events, e.1 ≤ t) : upTo t events = events :=
  List.takeWhile_eq_self_iff.mpr fun e inside => decide_eq_true (all e inside)

theorem Ordered.upTo {events : List (T × α)} (ordered : Ordered events) (t : T) : Ordered (upTo t events) :=
  ordered.sublist (List.takeWhile_sublist _)

/-- Reading further does not change what was read before. -/
theorem upTo_upTo {s t : T} (sooner : s ≤ t) (events : List (T × α)) :
    Clock.upTo s (Clock.upTo t events) = Clock.upTo s events := by
  unfold Clock.upTo
  rw [List.takeWhile_takeWhile]
  congr 1
  funext e
  simp only [decide_eq_true_eq, decide_eq_decide]
  exact and_iff_left_of_imp fun soon => le_trans soon sooner

/-- What comes too late is not read, whatever stands before it. -/
theorem upTo_append_of_lt {t : T} (events : List (T × α)) {rest : List (T × α)} (late : ∀ e ∈ rest, t < e.1) :
    upTo t (events ++ rest) = upTo t events := by
  induction events with
  | nil =>
      cases rest with
      | nil => rfl
      | cons e rest => exact upTo_cons_of_lt (late e List.mem_cons_self) rest
  | cons e events ih =>
      rcases le_or_gt e.1 t with happened | later
      · rw [List.cons_append, upTo_cons_of_le happened, upTo_cons_of_le happened, ih]
      · rw [List.cons_append, upTo_cons_of_lt later, upTo_cons_of_lt later]

theorem upTo_map {β : Type*} (t : T) (f : α → β) (events : List (T × α)) :
    upTo t (events.map fun e => (e.1, f e.2)) = (upTo t events).map fun e => (e.1, f e.2) :=
  List.takeWhile_map

/-- Behind an event that comes too late, all come too late. -/
theorem Ordered.lt_of_cons {t : T} {e : T × α} {rest : List (T × α)} (ordered : Ordered (e :: rest))
    (later : t < e.1) : ∀ f ∈ e :: rest, t < f.1 := by
  intro f inside
  rcases List.mem_cons.mp inside with rfl | behind
  · exact later
  · exact lt_of_lt_of_le later (List.rel_of_pairwise_cons ordered behind)

end Clock
