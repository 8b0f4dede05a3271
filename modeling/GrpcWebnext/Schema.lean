import GrpcWebnext.Library.Machine
import GrpcWebnext.Metadata

/-! The reflection schema of `schema.rs`: loads that run at the same time, on behalf of the
refresh loop and of callers of `reload`, and the one snapshot that they publish. -/
namespace GrpcWebnext.Schema

structure Status where
  code : Nat
  message : String
  deriving DecidableEq, Repr

/-- How an enumeration of the upstream ends, within `LOAD_TIMEOUT` or not. -/
inductive Outcome (T : Type) where
  | loaded (transcoder : T)
  | failed (status : Status)
  | timedOut

/-- What `load_and_swap` makes of it. -/
def Outcome.result {T : Type} : Outcome T → Except Status T
  | .loaded transcoder => .ok transcoder
  | .failed status => .error status
  | .timedOut => .error ⟨Code.deadlineExceeded, "upstream reflection load timed out"⟩

/-- On whose behalf a load runs: a refresh loop, or a caller of `reload`. -/
inductive Owner where
  | loop (k : Nat)
  | caller
  deriving DecidableEq, Repr

/-- Between the publication and the return of `reload` others may run. -/
inductive Phase where
  | loading
  | returning (result : Except Status Unit)
  | returned (result : Except Status Unit)
  | dropped

structure Load where
  owner : Owner
  phase : Phase

/-- A refresh loop waits for its load, or sleeps. -/
inductive Loop where
  | loading
  | sleeping (wait : Nat)

/-- A published transcoder, with the load that enumerated it. -/
structure Snapshot (T : Type) where
  load : Nat
  transcoder : T

/-- `ReflectionState`, with the loads in the order they began in, and the bundle of
`ReflectionOrBundled`. -/
structure ReflectionState (T : Type) where
  ttl : Nat
  bundle : Option T
  published : Option (Snapshot T)
  loads : List Load
  loops : List Loop

def retryInterval : Nat := 30

inductive Event (T : Type) where
  /-- `Schema::start` -/
  | start
  /-- a call of `Schema::reload` -/
  | reload
  /-- the enumeration of load `i` ends -/
  | settle (i : Nat) (outcome : Outcome T)
  /-- `reload` returns -/
  | answer (i : Nat)
  /-- the caller of `reload` has gone away -/
  | drop (i : Nat)
  /-- loop `k` has slept long enough -/
  | wake (k : Nat)

variable {T : Type}

namespace ReflectionState

def init (ttl : Nat) (bundle : Option T) : ReflectionState T := ⟨ttl, bundle, none, [], []⟩

def begin_ (s : ReflectionState T) (owner : Owner) : ReflectionState T :=
  { s with loads := s.loads ++ [⟨owner, .loading⟩] }

def setPhase (s : ReflectionState T) (i : Nat) (owner : Owner) (phase : Phase) : ReflectionState T :=
  { s with loads := s.loads.set i ⟨owner, phase⟩ }

/-- How long `refresh_loop` sleeps behind a load. -/
def wait (s : ReflectionState T) : Except Status Unit → Nat
  | .ok () => s.ttl
  | .error _ => min retryInterval s.ttl

/-- The load is over: a loop goes to sleep, a caller will return. -/
def finish (s : ReflectionState T) (i : Nat) (owner : Owner) (result : Except Status Unit) :
    ReflectionState T :=
  match owner with
  | .loop k =>
      { s.setPhase i owner (.returned result) with loops := s.loops.set k (.sleeping (s.wait result)) }
  | .caller => s.setPhase i owner (.returning result)

/-- `load_and_swap` behind the enumeration: a transcoder takes the place of the one before. -/
def swap (s : ReflectionState T) (i : Nat) : Except Status T → ReflectionState T
  | .ok transcoder => { s with published := some ⟨i, transcoder⟩ }
  | .error _ => s

end ReflectionState

def step (s : ReflectionState T) : Event T → Option (ReflectionState T)
  | .start => some { s.begin_ (.loop s.loops.length) with loops := s.loops ++ [.loading] }
  | .reload => some (s.begin_ .caller)
  | .settle i outcome => match s.loads[i]? with
    | some ⟨owner, .loading⟩ =>
        some ((s.swap i outcome.result).finish i owner (outcome.result.map fun _ => ()))
    | _ => none
  | .answer i => match s.loads[i]? with
    | some ⟨.caller, .returning result⟩ => some (s.setPhase i .caller (.returned result))
    | _ => none
  | .drop i => match s.loads[i]? with
    | some ⟨.caller, .loading⟩ => some (s.setPhase i .caller .dropped)
    | some ⟨.caller, .returning _⟩ => some (s.setPhase i .caller .dropped)
    | _ => none
  | .wake k => match s.loops[k]? with
    | some (.sleeping _) => some { s.begin_ (.loop k) with loops := s.loops.set k .loading }
    | _ => none

/-- What a reader is given: the bundle, or a snapshot. -/
inductive Seen (T : Type) where
  | bundle (transcoder : T)
  | snapshot (snapshot : Snapshot T)

/-- `transcoder_any`, `none` while it waits for the first load. -/
def ReflectionState.transcoderAny (s : ReflectionState T) (waited : Bool) : Option (Except Status (Seen T)) :=
  match s.published, s.bundle with
  | some snapshot, _ => some (.ok (.snapshot snapshot))
  | none, some bundle => some (.ok (.bundle bundle))
  | none, none =>
      if waited then some
        (.error ⟨Code.unavailable, "descriptors not yet loaded from upstream reflection"⟩) else none

/-- `reload` has returned `Ok` to its caller. -/
def ReflectionState.Reloaded (s : ReflectionState T) (r : Nat) : Prop :=
  s.loads[r]? = some ⟨.caller, .returned (.ok ())⟩

/-- No reader is given a snapshot of an enumeration that began before a reload that has
returned `Ok`. -/
def Fresh (s : ReflectionState T) : Prop :=
  ∀ waited snapshot, s.transcoderAny waited = some (.ok (.snapshot snapshot)) → ∀ r, s.Reloaded r →
    r ≤ snapshot.load

/-- No load publishes that began before a reload that has returned `Ok`, and none that began
before a reload has published in its place when it returns. -/
def InTurn (s : ReflectionState T) : Event T → Prop
  | .settle i outcome => outcome.result.isOk → ∀ r, s.Reloaded r → r ≤ i
  | .answer i =>
      s.loads[i]? = some ⟨.caller, .returning (.ok ())⟩ → ∀ snapshot, s.published = some snapshot →
        i ≤ snapshot.load
  | _ => True

theorem fresh_iff {s : ReflectionState T} :
    Fresh s ↔ ∀ snapshot, s.published = some snapshot → ∀ r, s.Reloaded r → r ≤ snapshot.load := by
  unfold Fresh ReflectionState.transcoderAny
  constructor
  · intro fresh snapshot shown
    refine fresh false snapshot ?_
    rw [shown]
  · intro fresh waited snapshot seen
    refine fresh snapshot ?_
    split at seen
    · rename_i shown
      cases seen
      exact shown
    · cases seen
    · split at seen <;> cases seen

namespace ReflectionState

/-- A load that has just begun has not returned. -/
theorem reloaded_begin (s : ReflectionState T) (owner : Owner) (r : Nat) :
    (s.begin_ owner).Reloaded r ↔ s.Reloaded r := by
  unfold Reloaded begin_
  rcases Nat.lt_trichotomy r s.loads.length with inside | rfl | behind
  · rw [List.getElem?_append_left inside]
  · rw [List.getElem?_concat_length, List.getElem?_eq_none (Nat.le_refl _)]
    simp
  · rw [List.getElem?_eq_none (Nat.le_of_lt behind), List.getElem?_eq_none]
    rw [List.length_append]
    exact behind

/-- A load that has not returned may do so, and no other load is touched. -/
theorem reloaded_setPhase {s : ReflectionState T} {i : Nat} {owner : Owner} {phase : Phase}
    (found : s.loads[i]? = some ⟨owner, phase⟩) (unreturned : ∀ result, phase ≠ .returned result)
    (next : Phase) (r : Nat) :
    (s.setPhase i owner next).Reloaded r ↔ s.Reloaded r ∨ r = i ∧ owner = .caller ∧
    next = .returned (.ok ()) := by
  unfold Reloaded setPhase
  rw [List.getElem?_set]
  by_cases same : i = r
  · subst same
    have before : s.loads[i]? ≠ some ⟨.caller, .returned (.ok ())⟩ := by
      intro returned
      cases found.symm.trans returned
      exact unreturned _ rfl
    rw [if_pos rfl, if_pos (List.getElem?_eq_some_iff.mp found).1, or_iff_right before]
    simp
  · have other : r ≠ i := Ne.symm same
    simp [same, other]

/-- What is seen does not change, and neither do the loads that have returned. -/
def Quiet (s t : ReflectionState T) : Prop := t.published = s.published ∧ ∀ r, t.Reloaded r ↔ s.Reloaded r

theorem Quiet.fresh_iff {s t : ReflectionState T} (quiet : Quiet s t) : Fresh t ↔ Fresh s := by
  rw [Schema.fresh_iff, Schema.fresh_iff, quiet.1]
  simp only [quiet.2]

theorem published_finish (s : ReflectionState T) (i : Nat) (owner : Owner) (result : Except Status Unit) :
    (s.finish i owner result).published = s.published := by
  cases owner <;> rfl

/-- The end of an enumeration is not yet the return of a reload. -/
theorem reloaded_finish {s : ReflectionState T} {i : Nat} {owner : Owner}
    (found : s.loads[i]? = some ⟨owner, .loading⟩) (result : Except Status Unit) (r : Nat) :
    (s.finish i owner result).Reloaded r ↔ s.Reloaded r := by
  cases owner with
  | loop k =>
      refine (reloaded_setPhase found (by simp) (.returned result) r).trans (or_iff_left ?_)
      rintro ⟨_, impossible, _⟩
      cases impossible
  | caller =>
      refine (reloaded_setPhase found (by simp) (.returning result) r).trans (or_iff_left ?_)
      rintro ⟨_, _, impossible⟩
      cases impossible

end ReflectionState

open ReflectionState

theorem settle_inv {s t : ReflectionState T} {i : Nat} {outcome : Outcome T}
    (h : step s (.settle i outcome) = some t) :
    ∃ owner, s.loads[i]? = some ⟨owner, .loading⟩ ∧
      t = (s.swap i outcome.result).finish i owner (outcome.result.map fun _ => ()) := by
  simp only [step] at h
  split at h
  · rename_i owner found
    exact ⟨owner, found, (Option.some.inj h).symm⟩
  · cases h

theorem answer_inv {s t : ReflectionState T} {i : Nat} (h : step s (.answer i) = some t) :
    ∃ result, s.loads[i]? = some ⟨.caller, .returning result⟩ ∧
    t = s.setPhase i .caller (.returned result) := by
  simp only [step] at h
  split at h
  · rename_i result found
    exact ⟨result, found, (Option.some.inj h).symm⟩
  · cases h

/-- Every other event is quiet. -/
theorem quiet_of_step {s t : ReflectionState T} {event : Event T} (h : step s event = some t)
    (settles : ∀ i outcome, event ≠ .settle i outcome) (answers : ∀ i, event ≠ .answer i) : Quiet s t := by
  cases event with
  | start =>
      cases h
      exact ⟨rfl, reloaded_begin s _⟩
  | reload =>
      cases h
      exact ⟨rfl, reloaded_begin s _⟩
  | settle i outcome => exact absurd rfl (settles i outcome)
  | answer i => exact absurd rfl (answers i)
  | drop i =>
      simp only [step] at h
      have dropped : ∀ {phase : Phase}, s.loads[i]? = some ⟨.caller, phase⟩ →
        (∀ result, phase ≠ .returned result) →
          Quiet s (s.setPhase i .caller .dropped) := by
        intro phase found unreturned
        refine ⟨rfl, fun r => (reloaded_setPhase found unreturned .dropped r).trans (or_iff_left ?_)⟩
        rintro ⟨_, _, impossible⟩
        cases impossible
      split at h
      · rename_i found
        cases h
        exact dropped found (by simp)
      · rename_i found
        cases h
        exact dropped found (by simp)
      · cases h
  | wake k =>
      simp only [step] at h
      split at h
      · cases h
        exact ⟨rfl, reloaded_begin s _⟩
      · cases h

/-- A load that fails leaves the snapshot as it was. -/
theorem published_of_failed {s t : ReflectionState T} {i : Nat} {outcome : Outcome T} {status : Status}
    (fails : outcome.result = .error status) (h : step s (.settle i outcome) = some t) :
    t.published = s.published := by
  obtain ⟨owner, _, rfl⟩ := settle_inv h
  rw [published_finish, fails]
  rfl

/-- From a state that is fresh, a step leads to one that is exactly when it is taken in turn. -/
theorem fresh_step {s t : ReflectionState T} {event : Event T} (fresh : Fresh s) (h : step s event = some t) :
    Fresh t ↔ InTurn s event := by
  cases event with
  | settle i outcome =>
      obtain ⟨owner, found, rfl⟩ := settle_inv h
      have loads : (s.swap i outcome.result).loads = s.loads := by
        cases outcome.result <;> rfl
      have returned :
        ∀ r, ((s.swap i outcome.result).finish i owner (outcome.result.map fun _ => ())).Reloaded
        r ↔ s.Reloaded r := by
        intro r
        rw [reloaded_finish (by rw [loads]; exact found)]
        unfold Reloaded
        rw [loads]
      cases result : outcome.result with
      | error status =>
          have quiet : Quiet s ((s.swap i outcome.result).finish i owner (outcome.result.map fun _ => ())) :=
            ⟨by rw [published_finish, result]; rfl, returned⟩
          rw [result] at quiet
          refine iff_of_true (quiet.fresh_iff.mpr fresh) fun ok => ?_
          rw [result] at ok
          cases ok
      | ok transcoder =>
          have shown : ((s.swap i outcome.result).finish i owner (outcome.result.map fun _ => ())).published =
              some ⟨i, transcoder⟩ := by
            rw [published_finish, result]
            rfl
          rw [← result, fresh_iff]
          constructor
          · intro all _ r before
            exact all _ shown r ((returned r).mpr before)
          · intro inTurn snapshot seen r after
            cases shown.symm.trans seen
            exact inTurn (by rw [result]; rfl) r ((returned r).mp after)
  | answer i =>
      obtain ⟨result, found, rfl⟩ := answer_inv h
      have returned := reloaded_setPhase found (by simp) (.returned result)
      rw [fresh_iff] at fresh
      simp only [fresh_iff, returned, InTurn, found]
      cases result with
      | error status => simpa [setPhase] using fresh
      | ok ok_ =>
          cases ok_
          simp only [forall_const, and_true]
          refine forall₂_congr fun snapshot shown => ?_
          constructor
          · intro all
            exact all i (.inr rfl)
          · rintro later r (before | rfl)
            · exact fresh snapshot shown r before
            · exact later
  | start | reload | drop i | wake k =>
      have quiet := quiet_of_step h (fun _ _ same => by cases same) (fun _ same => by cases same)
      exact iff_of_true (quiet.fresh_iff.mpr fresh) trivial

/-- Readers see fresh snapshots in every state of a run exactly when its loads publish, and its
reloads return, in turn; and a load that fails leaves the snapshot as it was. -/
theorem reload_kept_iff (ttl : Nat) (bundle : Option T) (events : List (Event T)) {s : ReflectionState T}
    (h : Machine.run step (.init ttl bundle) events = some s) :
    (Machine.Along step (fun s event => ∀ t, step s event = some t → Fresh t) (.init ttl bundle) events ↔
        Machine.Along step InTurn (.init ttl bundle) events) ∧
      ∀ (s t : ReflectionState T) (i : Nat) (outcome : Outcome T) (status : Status),
        outcome.result = .error status → step s (.settle i outcome) = some t → t.published = s.published := by
  refine ⟨Machine.along_iff (J := Fresh) ?_ ?_ ?_ h, fun s t i outcome status => published_of_failed⟩
  · rw [fresh_iff]
    intro snapshot shown
    cases shown
  · intro s event t fresh moved
    constructor
    · intro after
      exact (fresh_step fresh moved).mp (after t moved)
    · intro inTurn u moved'
      exact (fresh_step fresh moved').mpr inTurn
  · intro s event t fresh inTurn moved
    exact (fresh_step fresh moved).mpr inTurn

/-- A load of the refresh loop, and then a reload behind it. -/
theorem reload_behind_refresh :
    Machine.Along (step (T := Nat)) (fun s event => ∀ t, step s event = some t → Fresh t) (.init 14400 none)
      [.start, .settle 0 (.loaded 7), .reload, .settle 1 (.loaded 8), .answer 1] := by
  refine (reload_kept_iff 14400 none _ rfl).1.mpr ⟨trivial, fun _ r reloaded =>
    ?_, trivial, fun _ r reloaded => ?_,
    fun _ snapshot shown => ?_, trivial⟩
  · cases r <;> cases reloaded
  · rcases r with _ | _ | r <;> cases reloaded
  · cases shown
    exact Nat.le_refl 1

/-- A load of the refresh loop that outlasts a reload takes the place of what was reloaded. -/
theorem slow_load_undoes_reload :
    ∃ s t : ReflectionState Nat,
      Machine.run step (.init 14400 none) [.start, .reload, .settle 1 (.loaded 8), .answer 1] = some s ∧
        s.Reloaded 1 ∧ step s (.settle 0 (.loaded 7)) = some t ∧
        t.transcoderAny false = some (.ok (.snapshot ⟨0, 7⟩)) ∧ ¬ Fresh t := by
  refine ⟨_, _, rfl, rfl, rfl, rfl, fun fresh => ?_⟩
  exact absurd (fresh false _ rfl 1 rfl) (by decide)

end GrpcWebnext.Schema