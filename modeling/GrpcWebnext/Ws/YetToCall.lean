import GrpcWebnext.Library.Machine
import Mathlib.Data.List.Forall2

/-! Streams that have still to call their backend, as both servers have them: what a step
may do to them, and what becomes of them once the connection has seen the drain. -/
namespace GrpcWebnext.Ws

section Pointwise
variable {T : Type} {R : T → T → Prop} [Std.Refl R]

theorem forall₂_modify {f : T → T} (moved : ∀ t, R t (f t)) :
    ∀ (tasks : List T) (i : Nat), List.Forall₂ R tasks (tasks.modify i f)
  | [], i => by
      rw [List.modify_nil]
      exact .nil
  | t :: tasks, 0 => .cons (moved t) (List.forall₂_refl tasks)
  | t :: tasks, i + 1 => by
      rw [List.modify_succ_cons]
      exact .cons (Std.Refl.refl t) (forall₂_modify moved tasks i)

theorem forall₂_set {tasks : List T} {i : Nat} {t t' : T}
    (found : tasks[i]? = some t) (moved : R t t') : List.Forall₂ R tasks (tasks.set i t') := by
  induction tasks generalizing i with
  | nil => simp at found
  | cons first tasks ih =>
      cases i with
      | zero =>
          cases found
          exact .cons moved (List.forall₂_refl tasks)
      | succ i => exact .cons (Std.Refl.refl first) (ih found)

theorem forall_of_forall₂ {P : T → Prop} {tasks tasks' : List T} (all : ∀ t ∈ tasks, P t)
    (turned : List.Forall₂ (fun t t' => P t → P t') tasks tasks') : ∀ t ∈ tasks', P t := by
  induction turned with
  | nil => exact all
  | @cons t t' tasks tasks' moved _ ih =>
      intro other inside
      rcases List.mem_cons.mp inside with rfl | inside
      · exact moved (all t List.mem_cons_self)
      · exact ih (fun t inside => all t (List.mem_cons_of_mem _ inside)) other inside

/-- A stream that makes its call is one more. -/
theorem countP_set_called {called : T → Bool} {tasks : List T} {i : Nat} {t t' : T}
    (found : tasks[i]? = some t)
    (before : called t = false) (after : called t' = true) :
    tasks.countP called < (tasks.set i t').countP called := by
  induction tasks generalizing i with
  | nil => simp at found
  | cons first tasks ih =>
      cases i with
      | zero =>
          cases found
          simp [before, after]
      | succ i =>
          have more := ih found
          simp only [List.set_cons_succ, List.countP_cons]
          omega

end Pointwise

/-- What of a stream decides whether it will still call. -/
structure Caller where
  /-- It has not come to its call. -/
  early : Bool
  called : Bool
  /-- It can still run. -/
  able : Bool
  /-- It has nothing to send first. -/
  idle : Bool

namespace Caller

def yetToCall (c : Caller) : Bool := c.early && !c.called && c.able

/-- How one step may leave a stream. -/
structure Turn (c c' : Caller) : Prop where
  quiet : c.yetToCall = false → c'.yetToCall = false ∧ c'.called = c.called
  clear : (c.early = true → c.idle = true) → c'.early = true → c'.idle = true

theorem Turn.refl (c : Caller) : c.Turn c := ⟨fun quiet => ⟨quiet, rfl⟩, id⟩

instance : Std.Refl Turn := ⟨Turn.refl⟩

variable {c c' : Caller}

/-- A stream that keeps its place, and is no more alive than before. -/
theorem Turn.stays (early : c'.early = c.early) (idle : c'.idle = c.idle) (called : c'.called = c.called)
    (still : c'.able = true → c.able = true) : c.Turn c' := by
  refine ⟨fun quiet => ⟨?_, called⟩, fun clear before => ?_⟩
  · rw [Bool.eq_false_iff] at quiet ⊢
    intro waits
    obtain ⟨before, able⟩ := Bool.and_eq_true_iff.mp waits
    rw [early, called] at before
    exact quiet (Bool.and_eq_true_iff.mpr ⟨before, still able⟩)
  · rw [idle]
    exact clear (early ▸ before)

/-- A stream that is past the point of its call, or gone. -/
theorem Turn.past (called : c'.called = c.called) (past : c'.early = false) : c.Turn c' := by
  refine ⟨fun _ => ⟨?_, called⟩, fun _ early => ?_⟩
  · simp [yetToCall, past]
  · rw [past] at early
    cases early

/-- A stream that had something to send was not still to call. -/
theorem Turn.busy (busy : c.idle = false) (early : c'.early = c.early) (called : c'.called = c.called)
    (able : c'.able = c.able) : c.Turn c' := by
  refine ⟨fun quiet => ⟨?_, called⟩, fun clear before => ?_⟩
  · rw [← quiet, yetToCall, yetToCall, early, called, able]
  · rw [clear (early ▸ before)] at busy
    cases busy

end Caller

/-- No stream is still to call, and the calls made are the given ones. -/
structure Hushed (calls : List Bool) (callers : List Caller) : Prop where
  none : ∀ c ∈ callers, c.yetToCall = false
  same : callers.map Caller.called = calls

theorem Hushed.turn {calls : List Bool} {before after : List Caller} (inv : Hushed calls before)
    (turned : List.Forall₂ Caller.Turn before after) : Hushed calls after := by
  obtain ⟨none, rfl⟩ := inv
  refine ⟨forall_of_forall₂ none (turned.imp fun _ _ moved quiet => (moved.quiet quiet).1), ?_⟩
  induction turned with
  | nil => rfl
  | @cons c c' before after moved _ ih =>
      have same := ih fun c inside => none c (List.mem_cons_of_mem _ inside)
      rw [List.map_cons, List.map_cons, (moved.quiet (none c List.mem_cons_self)).2, same]

theorem Hushed.count {calls : List Bool} {callers : List Caller} (inv : Hushed calls callers) :
    callers.countP Caller.called = calls.count true := by
  rw [← inv.same, List.count_eq_countP, List.countP_map]
  exact List.countP_congr fun c _ => by simp

/-- A machine as the drain concerns it. -/
structure Draining (Conn Event : Type) where
  step : Conn → Event → Option Conn
  callers : Conn → List Caller
  /-- The connection has seen the drain. -/
  seen : Conn → Bool
  /-- It sees the drain in this event. -/
  sees : Event → Bool
  /-- It accepts an open frame in this event. -/
  opens : Conn → Event → Bool
  step_seen : ∀ {s s' : Conn} {e : Event}, step s e = some s' → seen s' = (sees e || seen s)
  step_sees : ∀ {s s' : Conn} {e : Event}, step s e = some s' → sees e = true → callers s' = callers s
  step_turn : ∀ {s s' : Conn} {e : Event}, step s e = some s' → opens s e = false →
    List.Forall₂ Caller.Turn (callers s) (callers s')
  step_opens : ∀ {s s' : Conn} {e : Event}, step s e = some s' → opens s e = true →
    sees e = false ∧ callers s' = callers s ++ [⟨true, false, true, true⟩]
  calls : ∀ {s : Conn} {c : Caller}, c ∈ callers s → c.yetToCall = true → c.idle = true →
    ∃ after s', Machine.run step s after = some s' ∧
      (callers s).countP Caller.called < (callers s').countP Caller.called

namespace Draining
variable {Conn Event : Type} (m : Draining Conn Event)

/-- The steps that leave no call to be made behind the drain: it is seen when no stream is
still to call, and no open frame is accepted behind it. -/
def hushes (s : Conn) (e : Event) : Bool :=
  if m.sees e then (m.callers s).all fun c => !c.yetToCall else !(m.seen s && m.opens s e)

/-- A stream that is still to call has nothing to send first. -/
def Clear (s : Conn) : Prop := ∀ c ∈ m.callers s, c.early = true → c.idle = true

/-- Behind the drain no stream is still to call. -/
def AllCalled (s : Conn) : Prop := m.seen s = true → ∀ c ∈ m.callers s, c.yetToCall = false

variable {m} {s s' : Conn} {e : Event}

theorem Clear.step (inv : m.Clear s) (h : m.step s e = some s') : m.Clear s' := by
  cases opens : m.opens s e with
  | false =>
      have turned := m.step_turn h opens
      exact forall_of_forall₂ inv (turned.imp fun _ _ moved => moved.clear)
  | true =>
      intro c inside early
      rw [(m.step_opens h opens).2] at inside
      rcases List.mem_append.mp inside with old | new
      · exact inv c old early
      · rw [List.mem_singleton.mp new]

theorem closed_of_hushes (quiet : m.hushes s e = true) (h : m.step s e = some s') (seen : m.seen s' = true) :
    m.opens s e = false := by
  rw [m.step_seen h] at seen
  unfold hushes at quiet
  cases sees : m.sees e with
  | true =>
      rw [Bool.eq_false_iff]
      intro opens
      rw [(m.step_opens h opens).1] at sees
      cases sees
  | false => simpa [sees, show m.seen s = true by simpa [sees] using seen] using quiet

/-- One step that the condition admits keeps the calls as they are. -/
theorem hushed_step {calls : List Bool} (inv : Hushed calls (m.callers s)) (quiet : m.hushes s e = true)
    (h : m.step s e = some s') (seen : m.seen s' = true) : Hushed calls (m.callers s') :=
  inv.turn (m.step_turn h (closed_of_hushes quiet h seen))

theorem AllCalled.step (inv : m.AllCalled s) (quiet : m.hushes s e = true) (h : m.step s e = some s') :
    m.AllCalled s' := by
  intro seen
  have none : ∀ c ∈ m.callers s, c.yetToCall = false := by
    cases sees : m.sees e with
    | true => simpa [hushes, sees] using quiet
    | false =>
        rw [m.step_seen h, sees, Bool.false_or] at seen
        exact inv seen
  exact (hushed_step ⟨none, rfl⟩ quiet h seen).none

/-- In a run that the condition admits, nothing is called behind the drain. -/
theorem run_hushed {start t : Conn} {before after : List Event} (unseen : m.seen start = false)
    (quiet : Machine.Along m.step (fun s e => m.hushes s e = true) start (before ++ after))
    (first : Machine.run m.step start before = some s) (seen : m.seen s = true)
    (h : Machine.run m.step s after = some t) :
    (m.callers t).countP Caller.called = (m.callers s).countP Caller.called := by
  obtain ⟨quietBefore, quietAfter⟩ := Machine.along_append quiet first
  have all : m.AllCalled s :=
    Machine.run_invariant_along (fun _ _ _ inv quiet moved => AllCalled.step inv quiet moved)
      (fun early => by rw [unseen] at early; cases early) quietBefore first
  have hushed : Hushed ((m.callers s).map Caller.called) (m.callers s) := ⟨all seen, rfl⟩
  have last : m.seen t = true ∧ Hushed ((m.callers s).map Caller.called) (m.callers t) := by
    refine Machine.run_invariant_along (I := fun c => m.seen c = true ∧
      Hushed ((m.callers s).map Caller.called) (m.callers c)) ?_ ⟨seen, hushed⟩ quietAfter h
    intro c e c' inv quiet moved
    have still : m.seen c' = true := by rw [m.step_seen moved, inv.1, Bool.or_true]
    exact ⟨still, hushed_step inv.2 quiet moved still⟩
  exact last.2.count.trans hushed.count.symm

/-- Behind a step the condition rules out, the drain is seen and a call can still be made. -/
theorem call_of_not_hushes {start : Conn} {before : List Event} (fresh : m.callers start = [])
    (first : Machine.run m.step start before = some s) (h : m.step s e = some s')
    (loud : m.hushes s e = false) :
    m.seen s' = true ∧ ∃ after t, Machine.run m.step s' after = some t ∧
      (m.callers s').countP Caller.called < (m.callers t).countP Caller.called := by
  have clear : m.Clear s := by
    refine Machine.run_invariant (I := m.Clear) (fun _ _ _ inv moved => inv.step moved) ?_ first
    intro c inside
    rw [fresh] at inside
    cases inside
  have clear' := clear.step h
  unfold hushes at loud
  split at loud
  · rename_i sees
    simp only [List.all_eq_false, Bool.not_eq_true, Bool.not_eq_false'] at loud
    obtain ⟨c, member, waits⟩ := loud
    refine ⟨by rw [m.step_seen h, sees, Bool.true_or], ?_⟩
    rw [← m.step_sees h sees] at member
    refine m.calls member waits (clear' c member ?_)
    exact (Bool.and_eq_true_iff.mp (Bool.and_eq_true_iff.mp waits).1).1
  · rename_i sees
    simp only [Bool.not_eq_false', Bool.and_eq_true] at loud
    obtain ⟨seen, opens⟩ := loud
    have behind := (m.step_opens h opens).2
    refine ⟨by rw [m.step_seen h, seen, Bool.or_true], ?_⟩
    exact m.calls (c := ⟨true, false, true, true⟩) (by simp [behind]) rfl rfl

end Draining

end GrpcWebnext.Ws
