import GrpcWebnext.Library.History

/-! Graceful shutdown of the Rust server: the accept loop, the tasks that hold a liveness
token, and `serve_graceful!` on each connection, in every order of their steps. -/
namespace GrpcWebnext.Shutdown.Rust
universe u
variable {ε : Type u}

/-- A `tokio::sync::watch` channel: its value, how often it was sent to, and whether the
sender is gone. A receiver is the version it has seen; its clone has seen the same. -/
structure Watch where
  value : Bool
  version : Nat
  closed : Bool
deriving DecidableEq, Repr

/-- `rx.changed()` is ready: there is a value not seen yet, or there will be none. -/
def Watch.changed (w : Watch) (seen : Nat) : Bool := w.version != seen || w.closed

def Watch.send (w : Watch) (value : Bool) : Watch := { w with value, version := w.version + 1 }

/-- Where a task stands: a tunnel awaiting its upgrade; the points of `serve_graceful!`;
a task that has no connection of its own to shut down. -/
inductive Stage where
  | upgrading
  | before
  | checked
  | racing (rx : Nat)
  | closing
  | pumping
  | gone
deriving DecidableEq, Repr

/-- `seen` is the version of its `Drain`; `told` counts calls of `graceful_shutdown`. -/
structure Task where
  stage : Stage
  seen : Nat
  told : Nat
deriving DecidableEq, Repr

/-- Who holds a liveness token. -/
inductive Owner where
  | main
  | task (i : Nat)
deriving DecidableEq, Repr

/-- The future of `run`, with what its accept loop broke with. -/
inductive Main (ε : Type u) where
  | accepting
  | left (result : Except ε Unit)
  | dropped (result : Except ε Unit)
  | finishing (result : Except ε Unit)
  | returned (result : Except ε Unit)
  | abandoned
deriving DecidableEq, Repr

structure Server (ε : Type u) where
  main : Main ε
  watch : Watch
  tokens : List Owner
  accepted : Nat
  tasks : List Task
deriving DecidableEq, Repr

inductive Event (ε : Type u) where
  | accept
  | acceptError (e : ε)
  | shutdown
  | dropRuntime
  | start
  | recv
  | abandon
  | clone (i : Nat)
  | dropClone (i : Nat)
  | spawnTunnel (i : Nat)
  | spawn (i : Nat)
  | upgraded (i : Nat)
  | check (i : Nat)
  | subscribe (i : Nat)
  | changed (i : Nat)
  | complete (i : Nat)
deriving DecidableEq, Repr

/-- `drain::channel()`, with the only `Drain` in the runtime that `run` is given. -/
def init : Server ε := ⟨.accepting, ⟨false, 0, false⟩, [.main], 0, []⟩

/-- A task with a clone of the runtime whose `Drain` has seen `seen`. -/
def Server.spawned (s : Server ε) (stage : Stage) (seen : Nat) : Server ε :=
  { s with tokens := s.tokens ++ [.task s.tasks.length], tasks := s.tasks ++ [⟨stage, seen, 0⟩] }

/-- A live task does something. -/
def onTask (s : Server ε) (i : Nat) (act : Task → Option (Server ε)) : Option (Server ε) :=
  match s.tasks[i]? with
  | some t => if t.stage = .gone then none else act t
  | none => none

def Server.setTask (s : Server ε) (i : Nat) (t : Task) : Server ε := { s with tasks := s.tasks.set i t }

/-- The futures that may end: hyper's once it is driven, a tunnel whose upgrade fails, and
those that only pump. -/
def Stage.mayEnd : Stage → Bool
  | .upgrading | .racing _ | .closing | .pumping => true
  | .before | .checked | .gone => false

def step (s : Server ε) : Event ε → Option (Server ε)
  | .accept =>
      match s.main with
      | .accepting => some { s.spawned .before 0 with accepted := s.accepted + 1 }
      | _ => none
  | .acceptError e =>
      match s.main with
      | .accepting => some { s with main := .left (.error e) }
      | _ => none
  | .shutdown =>
      match s.main with
      | .accepting => some { s with main := .left (.ok ()) }
      | _ => none
  | .dropRuntime =>
      match s.main with
      | .left result => some { s with main := .dropped result, tokens := s.tokens.erase .main }
      | _ => none
  | .start =>
      match s.main with
      -- `send` gives the value back where no receiver is left to see it
      | .dropped result =>
          some { s with main := .finishing result,
                        watch := if s.tokens.isEmpty then s.watch else s.watch.send true }
      | _ => none
  | .recv =>
      match s.main with
      | .finishing result =>
          if s.tokens.isEmpty then
            some { s with main := .returned result, watch := { s.watch with closed := true } }
          else none
      | _ => none
  | .abandon =>
      match s.main with
      | .accepting | .finishing _ =>
          some { s with
            main := .abandoned, tokens := s.tokens.erase .main, watch := { s.watch with closed := true } }
      | _ => none
  | .clone i => onTask s i fun _ => some { s with tokens := s.tokens ++ [.task i] }
  | .dropClone i => onTask s i fun _ =>
      -- the runtime the task was spawned with stays until its end
      if 1 < s.tokens.count (.task i) then some { s with tokens := s.tokens.erase (.task i) } else none
  | .spawnTunnel i => onTask s i fun t => some (s.spawned .upgrading t.seen)
  | .spawn i => onTask s i fun t => some (s.spawned .pumping t.seen)
  | .upgraded i => onTask s i fun t =>
      if t.stage = .upgrading then some (s.setTask i { t with stage := .before }) else none
  | .check i => onTask s i fun t =>
      if t.stage = .before then
        some (s.setTask i (if s.watch.value then { t with stage := .closing, told := t.told + 1 }
          else { t with stage := .checked }))
      else none
  | .subscribe i => onTask s i fun t =>
      if t.stage = .checked then some (s.setTask i { t with stage := .racing t.seen }) else none
  | .changed i => onTask s i fun t =>
      match t.stage with
      | .racing rx =>
          if s.watch.changed rx
            then some (s.setTask i { t with stage := .closing, told := t.told + 1 }) else none
      | _ => none
  | .complete i => onTask s i fun t =>
      if t.stage.mayEnd then
        some { s.setTask i { t with stage := .gone } with tokens := s.tokens.filter (· != .task i) }
      else none

/-- `Drain::wait` is ready: draining has begun, or the subscription it makes has fired. -/
def waitReady (s : Server ε) (t : Task) : Bool := s.watch.value || s.watch.changed t.seen

/-- Draining was started, or the server's future is gone and with it the sender. -/
def Begun (s : Server ε) : Prop := s.watch.value = true ∨ s.watch.closed = true

section Steps
variable {s s' : Server ε} {e : Event ε}

/-- What a step can do: the accept loop goes on, a token is cloned or dropped, a task comes
or changes its stage, or one ends. -/
inductive Moves (s s' : Server ε) : Prop where
  | accepts (loop : s.main = .accepting)
      (result : s' = { s.spawned .before 0 with accepted := s.accepted + 1 })
  | leaves (r : Except ε Unit) (loop : s.main = .accepting) (result : s' = { s with main := .left r })
  | drops (r : Except ε Unit) (loop : s.main = .left r)
      (result : s' = { s with main := .dropped r, tokens := s.tokens.erase .main })
  | starts (r : Except ε Unit) (loop : s.main = .dropped r)
      (result : s' = { s with
        main := .finishing r, watch := if s.tokens.isEmpty then s.watch else s.watch.send true })
  | returns (r : Except ε Unit) (loop : s.main = .finishing r) (none_ : s.tokens = [])
      (result : s' = { s with main := .returned r, watch := { s.watch with closed := true } })
  | abandons (loop : s.main = .accepting ∨ ∃ r, s.main = .finishing r)
      (result : s' = { s with
        main := .abandoned, tokens := s.tokens.erase .main, watch := { s.watch with closed := true } })
  | clones (i : Nat) (t : Task) (found : s.tasks[i]? = some t) (live : t.stage ≠ .gone)
      (result : s' = { s with tokens := s.tokens ++ [.task i] })
  | unclones (i : Nat) (t : Task) (found : s.tasks[i]? = some t) (live : t.stage ≠ .gone)
      (more : 1 < s.tokens.count (.task i)) (result : s' = { s with tokens := s.tokens.erase (.task i) })
  | spawns (i : Nat) (t : Task) (stage : Stage) (found : s.tasks[i]? = some t) (live : t.stage ≠ .gone)
      (fresh : stage = .upgrading ∨ stage = .pumping) (result : s' = s.spawned stage t.seen)
  | upgrades (i : Nat) (t : Task) (found : s.tasks[i]? = some t) (here : t.stage = .upgrading)
      (result : s' = s.setTask i { t with stage := .before })
  | checks (i : Nat) (t : Task) (found : s.tasks[i]? = some t) (here : t.stage = .before)
      (quiet : s.watch.value = false) (result : s' = s.setTask i { t with stage := .checked })
  | subscribes (i : Nat) (t : Task) (found : s.tasks[i]? = some t) (here : t.stage = .checked)
      (result : s' = s.setTask i { t with stage := .racing t.seen })
  | tells (i : Nat) (t : Task) (found : s.tasks[i]? = some t)
      (here : t.stage = .before ∧ s.watch.value = true ∨
        ∃ rx, t.stage = .racing rx ∧ s.watch.changed rx = true)
      (result : s' = s.setTask i { t with stage := .closing, told := t.told + 1 })
  | ends (i : Nat) (t : Task) (found : s.tasks[i]? = some t) (may : t.stage.mayEnd = true)
      (result : s' = { s.setTask i { t with stage := .gone } with
        tokens := s.tokens.filter (· != .task i) })

theorem onTask_some {i : Nat} {act : Task → Option (Server ε)} (h : onTask s i act = some s') :
    ∃ t, s.tasks[i]? = some t ∧ t.stage ≠ .gone ∧ act t = some s' := by
  unfold onTask at h
  split at h
  · split at h
    · cases h
    · exact ⟨_, ‹_›, ‹_›, h⟩
  · cases h

theorem step_moves (h : step s e = some s') : Moves s s' := by
  cases e with
  | accept =>
      simp only [step] at h
      split at h
      · exact .accepts ‹_› (Option.some.inj h).symm
      · cases h
  | acceptError e =>
      simp only [step] at h
      split at h
      · exact .leaves _ ‹_› (Option.some.inj h).symm
      · cases h
  | shutdown =>
      simp only [step] at h
      split at h
      · exact .leaves _ ‹_› (Option.some.inj h).symm
      · cases h
  | dropRuntime =>
      simp only [step] at h
      split at h
      · exact .drops _ ‹_› (Option.some.inj h).symm
      · cases h
  | start =>
      simp only [step] at h
      split at h
      · exact .starts _ ‹_› (Option.some.inj h).symm
      · cases h
  | recv =>
      simp only [step] at h
      split at h
      · split at h
        · exact .returns _ ‹_› (List.isEmpty_iff.mp ‹_›) (Option.some.inj h).symm
        · cases h
      · cases h
  | abandon =>
      simp only [step] at h
      split at h
      · exact .abandons (.inl ‹_›) (Option.some.inj h).symm
      · exact .abandons (.inr ⟨_, ‹_›⟩) (Option.some.inj h).symm
      · cases h
  | clone i =>
      obtain ⟨t, found, live, acts⟩ := onTask_some h
      exact .clones i t found live (Option.some.inj acts).symm
  | dropClone i =>
      obtain ⟨t, found, live, acts⟩ := onTask_some h
      split at acts
      · exact .unclones i t found live ‹_› (Option.some.inj acts).symm
      · cases acts
  | spawnTunnel i =>
      obtain ⟨t, found, live, acts⟩ := onTask_some h
      exact .spawns i t .upgrading found live (.inl rfl) (Option.some.inj acts).symm
  | spawn i =>
      obtain ⟨t, found, live, acts⟩ := onTask_some h
      exact .spawns i t .pumping found live (.inr rfl) (Option.some.inj acts).symm
  | upgraded i =>
      obtain ⟨t, found, _, acts⟩ := onTask_some h
      split at acts
      · exact .upgrades i t found ‹_› (Option.some.inj acts).symm
      · cases acts
  | check i =>
      obtain ⟨t, found, _, acts⟩ := onTask_some h
      split at acts
      · have moved := (Option.some.inj acts).symm
        cases on : s.watch.value with
        | true =>
            rw [on] at moved
            exact .tells i t found (.inl ⟨‹_›, on⟩) moved
        | false =>
            rw [on] at moved
            exact .checks i t found ‹_› on moved
      · cases acts
  | subscribe i =>
      obtain ⟨t, found, _, acts⟩ := onTask_some h
      split at acts
      · exact .subscribes i t found ‹_› (Option.some.inj acts).symm
      · cases acts
  | changed i =>
      obtain ⟨t, found, _, acts⟩ := onTask_some h
      split at acts
      · split at acts
        · exact .tells i t found (.inr ⟨_, ‹_›, ‹_›⟩) (Option.some.inj acts).symm
        · cases acts
      · cases acts
  | complete i =>
      obtain ⟨t, found, _, acts⟩ := onTask_some h
      split at acts
      · exact .ends i t found ‹_› (Option.some.inj acts).symm
      · cases acts

def Live (tasks : List Task) (i : Nat) : Prop := ∃ t, tasks[i]? = some t ∧ t.stage ≠ .gone

theorem live_set {tasks : List Task} {i j : Nat} {t t' : Task} (found : tasks[i]? = some t)
    (live : t.stage ≠ .gone) (stays : t'.stage ≠ .gone) : Live (tasks.set i t') j ↔ Live tasks j := by
  have inside := (List.getElem?_eq_some_iff.mp found).1
  by_cases same : i = j
  · subst same
    exact iff_of_true ⟨t', List.getElem?_set_self inside, stays⟩ ⟨t, found, live⟩
  · simp only [Live, List.getElem?_set_ne same]

theorem live_end {tasks : List Task} {i j : Nat} {t t' : Task} (found : tasks[i]? = some t)
    (ended : t'.stage = .gone) : Live (tasks.set i t') j ↔ Live tasks j ∧ j ≠ i := by
  have inside := (List.getElem?_eq_some_iff.mp found).1
  by_cases same : i = j
  · subst same
    refine iff_of_false ?_ fun both => both.2 rfl
    rintro ⟨u, here, live⟩
    rw [List.getElem?_set_self inside] at here
    cases here
    exact live ended
  · simp only [Live, List.getElem?_set_ne same, ne_eq, Ne.symm same, not_false_eq_true, and_true]

theorem live_append {tasks : List Task} {j : Nat} {t : Task} (live : t.stage ≠ .gone) :
    Live (tasks ++ [t]) j ↔ Live tasks j ∨ j = tasks.length := by
  rcases Nat.lt_trichotomy j tasks.length with before | rfl | behind
  · rw [Live, List.getElem?_append_left before, or_iff_left (Nat.ne_of_lt before)]
    rfl
  · exact iff_of_true ⟨t, List.getElem?_concat_length, live⟩ (.inr rfl)
  · have none_ : (tasks ++ [t])[j]? = none := List.getElem?_eq_none (by simp; omega)
    have none' : tasks[j]? = none := List.getElem?_eq_none (by omega)
    simp only [Live, none_, none', reduceCtorEq, false_and, exists_false, false_or, false_iff]
    omega

/-- The accept loop's own token is still there. -/
def Main.holds : Main ε → Bool
  | .accepting | .left _ => true
  | _ => false

def Main.returns : Main ε → Bool
  | .returned _ => true
  | _ => false

/-- Each token has an owner that is not done, and each of these has one. -/
structure Held (s : Server ε) : Prop where
  once : s.tokens.count .main ≤ 1
  main : .main ∈ s.tokens ↔ s.main.holds = true
  tasks : ∀ i, .task i ∈ s.tokens ↔ Live s.tasks i
  returned : s.main.returns = true → s.tokens = []

theorem held_init : Held (init : Server ε) :=
  ⟨Nat.le_refl _, by simp [init, Main.holds], fun i => by simp [init, Live], fun back => by cases back⟩

theorem Held.erase_main (held : Held s) : .main ∉ s.tokens.erase .main := by
  intro inside
  have some_ := List.count_pos_iff.mpr inside
  rw [List.count_erase_self] at some_
  have := held.once
  omega

/-- With every token gone every task is. -/
theorem Held.all_gone (held : Held s) (none_ : s.tokens = []) {t : Task} (inside : t ∈ s.tasks) :
    t.stage = .gone := by
  obtain ⟨i, found⟩ := List.getElem?_of_mem inside
  by_contra live
  have token := (held.tasks i).mpr ⟨t, found, live⟩
  rw [none_] at token
  exact List.not_mem_nil token

/-- Where a live task is, `run` has not returned. -/
theorem Held.running (held : Held s) {i : Nat} (live : Live s.tasks i) : s.main.returns = false := by
  cases back : s.main.returns with
  | false => rfl
  | true =>
      have token := (held.tasks i).mpr live
      rw [held.returned back] at token
      exact absurd token List.not_mem_nil

theorem Held.spawned (held : Held s) {stage : Stage} (seen : Nat) (live : stage ≠ .gone)
    (running : s.main.returns = false) : Held (s.spawned stage seen) := by
  refine ⟨?_, ?_, fun i => ?_, fun back => ?_⟩
  · simpa [Server.spawned, List.count_append, List.count_cons] using held.once
  · simpa [Server.spawned] using held.main
  · change _ ∈ s.tokens ++ _ ↔ Live (s.tasks ++ [⟨stage, seen, 0⟩]) i
    rw [live_append live, List.mem_append, held.tasks i, List.mem_singleton, Owner.task.injEq]
  · rw [show (s.spawned stage seen).main = s.main from rfl, running] at back
    cases back

theorem Held.setTask (held : Held s) {i : Nat} {t t' : Task} (found : s.tasks[i]? = some t)
    (live : t.stage ≠ .gone) (stays : t'.stage ≠ .gone) : Held (s.setTask i t') :=
  ⟨held.once, held.main, fun j => (held.tasks j).trans (live_set found live stays).symm, held.returned⟩

theorem Stage.live_of_mayEnd {stage : Stage} (may : stage.mayEnd = true) : stage ≠ .gone := by
  rintro rfl
  cases may

theorem held_step (held : Held s) (h : step s e = some s') : Held s' := by
  cases step_moves h with
  | accepts loop result =>
      subst result
      have kept : Held (s.spawned .before 0) := held.spawned 0 (by simp) (by rw [loop]; rfl)
      exact ⟨kept.once, kept.main, kept.tasks, kept.returned⟩
  | leaves r loop result =>
      subst result
      refine ⟨held.once, held.main.trans ?_, held.tasks, fun back => by cases back⟩
      rw [loop]
      rfl
  | drops r loop result =>
      subst result
      refine ⟨Nat.le_trans (List.erase_sublist.count_le _) held.once,
        iff_of_false held.erase_main (by simp [Main.holds]),
        fun i => ?_, fun back => by cases back⟩
      exact (List.mem_erase_of_ne (by simp)).trans (held.tasks i)
  | starts r loop result =>
      subst result
      refine ⟨held.once, held.main.trans ?_, held.tasks, fun back => by cases back⟩
      rw [loop]
      rfl
  | returns r loop none_ result =>
      subst result
      refine ⟨held.once, held.main.trans ?_, held.tasks, fun _ => none_⟩
      rw [loop]
      rfl
  | abandons loop result =>
      subst result
      refine ⟨Nat.le_trans (List.erase_sublist.count_le _) held.once,
        iff_of_false held.erase_main (by simp [Main.holds]),
        fun i => ?_, fun back => by cases back⟩
      exact (List.mem_erase_of_ne (by simp)).trans (held.tasks i)
  | clones i t found live result =>
      subst result
      refine ⟨?_, ?_, fun j => ?_, fun back => ?_⟩
      · simpa [List.count_append, List.count_cons] using held.once
      · simpa using held.main
      · rw [List.mem_append, List.mem_singleton, held.tasks j, Owner.task.injEq]
        refine or_iff_left_of_imp ?_
        rintro rfl
        exact ⟨t, found, live⟩
      · have running := held.running ⟨t, found, live⟩
        exact absurd back (by simp [running])
  | unclones i t found live more result =>
      subst result
      refine ⟨?_, ?_, fun j => ?_, fun back => ?_⟩
      · rw [List.count_erase_of_ne (by simp)]
        exact held.once
      · exact (List.mem_erase_of_ne (by simp)).trans held.main
      · by_cases same : j = i
        · subst same
          refine iff_of_true (List.count_pos_iff.mp ?_) ⟨t, found, live⟩
          rw [List.count_erase_self]
          omega
        · exact (List.mem_erase_of_ne (by simp [same])).trans (held.tasks j)
      · have running := held.running ⟨t, found, live⟩
        exact absurd back (by simp [running])
  | spawns i t stage found live fresh result =>
      subst result
      refine held.spawned t.seen ?_ (held.running ⟨t, found, live⟩)
      rintro rfl
      rcases fresh with other | other <;> cases other
  | upgrades i t found here result =>
      subst result
      exact held.setTask found (by simp [here]) (by simp)
  | checks i t found here quiet result =>
      subst result
      exact held.setTask found (by simp [here]) (by simp)
  | subscribes i t found here result =>
      subst result
      exact held.setTask found (by simp [here]) (by simp)
  | tells i t found here result =>
      subst result
      refine held.setTask found ?_ (by simp)
      rcases here with ⟨here, _⟩ | ⟨rx, here, _⟩ <;> simp [here]
  | ends i t found may result =>
      subst result
      refine ⟨?_, ?_, fun j => ?_, fun back => ?_⟩
      · exact Nat.le_trans (List.filter_sublist.count_le _) held.once
      · rw [List.mem_filter, and_iff_left (by simp)]
        exact held.main
      · rw [List.mem_filter, held.tasks j]
        exact (and_congr_right fun _ => by simp).trans (live_end found rfl).symm
      · have running := held.running ⟨t, found, Stage.live_of_mayEnd may⟩
        exact absurd back (by simp [Server.setTask, running])

/-- What the channel has to do with where a task stands. -/
structure Told (w : Watch) (t : Task) : Prop where
  seen : t.seen = 0
  rx : ∀ rx, t.stage = .racing rx → rx = 0
  once : t.told ≤ 1
  closing : t.stage = .closing → t.told = 1
  others : t.stage ≠ .closing → t.stage ≠ .gone → t.told = 0
  cause : t.told = 1 → w.version ≠ 0 ∨ w.closed = true

/-- The channel as the server leaves it: its value goes with its version, and neither
changes but by `start`. -/
def Watch.Sound (w : Watch) : Prop := w.value = true ↔ w.version ≠ 0

theorem Watch.changed_zero {w : Watch} : w.changed 0 = true ↔ w.version ≠ 0 ∨ w.closed = true := by
  simp [Watch.changed]

theorem Watch.changed_of_begun (sound : s.watch.Sound) : s.watch.changed 0 = true ↔ Begun s := by
  exact Watch.changed_zero.trans (or_congr_left sound.symm)

theorem told_fresh {w : Watch} {stage : Stage} (rx : ∀ rx, stage ≠ .racing rx) (other : stage ≠ .closing) :
    Told w ⟨stage, 0, 0⟩ :=
  ⟨rfl, fun r here => absurd here (rx r), Nat.zero_le 1, fun here => absurd here other, fun _ _ => rfl,
    fun one => by cases one⟩

theorem Told.mono {w w' : Watch} {t : Task} (told : Told w t)
    (stays : w.version ≠ 0 ∨ w.closed = true → w'.version ≠ 0 ∨ w'.closed = true) : Told w' t :=
  ⟨told.seen, told.rx, told.once, told.closing, told.others, fun one => stays (told.cause one)⟩

/-- A task that was not told goes to a stage where none is. -/
theorem Told.goes {w : Watch} {t : Task} {stage : Stage} (told : Told w t) (before : t.told = 0)
    (rx : ∀ rx, stage = .racing rx → rx = 0) (other : stage ≠ .closing) : Told w { t with stage } :=
  ⟨told.seen, rx, told.once, fun here => absurd here other, fun _ _ => before, told.cause⟩

theorem forall_set {α : Type*} {P : α → Prop} {l : List α} (all : ∀ a ∈ l, P a) (i : Nat) {b : α}
    (new : P b) :
    ∀ a ∈ l.set i b, P a := by
  intro a inside
  rcases List.mem_or_eq_of_mem_set inside with old | rfl
  · exact all a old
  · exact new

theorem forall_concat {α : Type*} {P : α → Prop} {l : List α} (all : ∀ a ∈ l, P a) {b : α} (new : P b) :
    ∀ a ∈ l ++ [b], P a := by
  intro a inside
  rcases List.mem_append.mp inside with old | last
  · exact all a old
  · exact List.mem_singleton.mp last ▸ new

structure Signals (s : Server ε) : Prop where
  sound : s.watch.Sound
  tasks : ∀ t ∈ s.tasks, Told s.watch t

theorem signals_init : Signals (init : Server ε) :=
  ⟨by simp [init, Watch.Sound], fun _ inside => absurd inside List.not_mem_nil⟩

theorem signals_step (signals : Signals s) (h : step s e = some s') : Signals s' := by
  have here : ∀ {i : Nat} {t : Task}, s.tasks[i]? = some t → Told s.watch t :=
    fun found => signals.tasks _ (List.mem_of_getElem? found)
  cases step_moves h with
  | accepts loop result =>
      subst result
      exact ⟨signals.sound, forall_concat signals.tasks (told_fresh (by simp) (by simp))⟩
  | leaves r loop result | drops r loop result | clones i t found live result
  | unclones i t found live more result =>
      subst result
      exact ⟨signals.sound, signals.tasks⟩
  | starts r loop result =>
      subst result
      cases none_ : s.tokens.isEmpty with
      | true => exact ⟨by simpa [none_] using signals.sound, by simpa [none_] using signals.tasks⟩
      | false =>
          refine ⟨by simp [Watch.send, Watch.Sound], fun t inside => ?_⟩
          refine (signals.tasks t inside).mono fun _ => .inl ?_
          simp [Watch.send]
  | returns r loop none_ result | abandons loop result =>
      subst result
      exact ⟨signals.sound, fun t inside => (signals.tasks t inside).mono fun _ => .inr rfl⟩
  | spawns i t stage found live fresh result =>
      subst result
      refine ⟨signals.sound, forall_concat signals.tasks ?_⟩
      rw [(here found).seen]
      rcases fresh with rfl | rfl
      · exact told_fresh (by simp) (by simp)
      · exact told_fresh (by simp) (by simp)
  | upgrades i t found stage result =>
      subst result
      have quiet := (here found).others (by simp [stage]) (by simp [stage])
      exact ⟨signals.sound, forall_set signals.tasks i ((here found).goes quiet (by simp) (by simp))⟩
  | checks i t found stage _ result =>
      subst result
      have quiet := (here found).others (by simp [stage]) (by simp [stage])
      exact ⟨signals.sound, forall_set signals.tasks i ((here found).goes quiet (by simp) (by simp))⟩
  | subscribes i t found stage result =>
      subst result
      have quiet := (here found).others (by simp [stage]) (by simp [stage])
      refine ⟨signals.sound, forall_set signals.tasks i ((here found).goes quiet ?_ (by simp))⟩
      rintro rx ⟨⟩
      exact (here found).seen
  | tells i t found stage result =>
      subst result
      have told := here found
      have quiet : t.told = 0 := by
        refine told.others ?_ ?_ <;> rcases stage with ⟨stage, _⟩ | ⟨rx, stage, _⟩ <;> simp [stage]
      have cause : s.watch.version ≠ 0 ∨ s.watch.closed = true := by
        rcases stage with ⟨_, on⟩ | ⟨rx, stage, fired⟩
        · exact .inl (signals.sound.mp on)
        · rw [told.rx rx stage] at fired
          exact Watch.changed_zero.mp fired
      refine ⟨signals.sound, forall_set signals.tasks i ⟨told.seen, by simp, ?_, ?_, by simp, fun _ => cause⟩⟩
      · exact Nat.le_of_eq (by rw [quiet])
      · exact fun _ => by rw [quiet]
  | ends i t found may result =>
      subst result
      have told := here found
      exact ⟨signals.sound, forall_set signals.tasks i
        ⟨told.seen, by simp, told.once, by simp, fun _ live => absurd rfl live, told.cause⟩⟩

/-- The points of `serve_graceful!` before it calls `graceful_shutdown`. -/
def Stage.serving : Stage → Bool
  | .before | .checked | .racing _ => true
  | _ => false

theorem step_onTask {i : Nat} {t : Task} (found : s.tasks[i]? = some t) (live : t.stage ≠ .gone)
    (act : Task → Option (Server ε)) : onTask s i act = act t := by
  simp only [onTask, found, live, if_false]

theorem setTask_found {i : Nat} {t : Task} (found : s.tasks[i]? = some t) (t' : Task) :
    (s.setTask i t').tasks[i]? = some t' :=
  List.getElem?_set_self (List.getElem?_eq_some_iff.mp found).1

/-- The shutdown a race is lost to is not missed, whichever came first. -/
theorem changed_tells {i : Nat} {t : Task} (signals : Signals s) (begun : Begun s)
    (found : s.tasks[i]? = some t) (stage : t.stage = .racing 0) :
    ∃ s', step s (.changed i) = some s' ∧ s'.tasks[i]? = some { t with stage := .closing, told := 1 } := by
  have told := signals.tasks t (List.mem_of_getElem? found)
  have quiet := told.others (by simp [stage]) (by simp [stage])
  have fired := (Watch.changed_of_begun signals.sound).mpr begun
  refine ⟨s.setTask i { t with stage := .closing, told := t.told + 1 }, ?_, ?_⟩
  · simp only [step, step_onTask found (by simp [stage] : t.stage ≠ .gone), stage, fired, if_true]
  · rw [setTask_found found, quiet]

theorem subscribe_tells {i : Nat} {t : Task} (signals : Signals s) (begun : Begun s)
    (found : s.tasks[i]? = some t) (stage : t.stage = .checked) :
    ∃ s', Machine.run step s [.subscribe i, .changed i] = some s' ∧
      s'.tasks[i]? = some { t with stage := .closing, told := 1 } := by
  have seen := (signals.tasks t (List.mem_of_getElem? found)).seen
  have first : step s (.subscribe i) = some (s.setTask i { t with stage := .racing t.seen }) := by
    simp only [step, step_onTask found (by simp [stage] : t.stage ≠ .gone), stage, if_true]
  obtain ⟨s', second, there⟩ := changed_tells (signals_step signals first) begun
    (setTask_found found { t with stage := .racing t.seen }) (by rw [seen])
  exact ⟨s', by rw [Machine.run_cons first, Machine.run_cons second, Machine.run_nil], there⟩

/-- Once draining has begun each connection that is being served gets its `graceful_shutdown`
by steps of its own, from wherever it stands. -/
theorem told_soon {i : Nat} {t : Task} (signals : Signals s) (begun : Begun s)
    (found : s.tasks[i]? = some t) (serving : t.stage.serving = true) :
    ∃ own s', own.Sublist [.check i, .subscribe i, .changed i] ∧ Machine.run step s own = some s' ∧
      s'.tasks[i]? = some { t with stage := .closing, told := 1 } := by
  have told := signals.tasks t (List.mem_of_getElem? found)
  cases stage : t.stage with
  | before =>
      have quiet := told.others (by simp [stage]) (by simp [stage])
      cases on : s.watch.value with
      | true =>
          have first : step s (.check i) =
            some (s.setTask i { t with stage := .closing, told := t.told + 1 }) := by
            simp only [step, step_onTask found (by simp [stage] : t.stage ≠ .gone), stage, on, if_true]
          refine ⟨[.check i], _, by simp, by rw [Machine.run_cons first, Machine.run_nil], ?_⟩
          rw [setTask_found found, quiet]
      | false =>
          have first : step s (.check i) = some (s.setTask i { t with stage := .checked }) := by
            simp [step, step_onTask found (by simp [stage] : t.stage ≠ .gone), stage, on]
          obtain ⟨s', rest, there⟩ := subscribe_tells (signals_step signals first) begun
            (setTask_found found { t with stage := .checked }) rfl
          exact ⟨_, s', List.Sublist.refl _, by rw [Machine.run_cons first, rest], there⟩
  | checked =>
      obtain ⟨s', ran, there⟩ := subscribe_tells signals begun found stage
      exact ⟨_, s', List.sublist_cons_self .., ran, there⟩
  | racing rx =>
      rw [told.rx rx stage] at stage
      obtain ⟨s', last, there⟩ := changed_tells signals begun found stage
      exact ⟨[.changed i], s', by simp, by rw [Machine.run_cons last, Machine.run_nil], there⟩
  | upgrading | closing | pumping | gone =>
      rw [stage] at serving
      cases serving

/-- Behind the accept loop no connection is accepted. -/
theorem left_step {n : Nat} (left : s.main ≠ .accepting ∧ s.accepted = n) (h : step s e = some s') :
    s'.main ≠ .accepting ∧ s'.accepted = n := by
  obtain ⟨left, same⟩ := left
  cases step_moves h with
  | accepts loop result | leaves r loop result => exact absurd loop left
  | drops r loop result | starts r loop result | returns r loop none_ result | abandons loop result =>
      subst result
      exact ⟨by simp, same⟩
  | clones i t found live result | unclones i t found live more result
  | spawns i t stage found live fresh result | upgrades i t found here result
  | checks i t found here quiet result | subscribes i t found here result | tells i t found here result
  | ends i t found may result =>
      subst result
      exact ⟨left, same⟩

theorem tokens_nil_iff (held : Held s) (left : s.main.holds = false) :
    s.tokens = [] ↔ ∀ t ∈ s.tasks, t.stage = .gone := by
  refine ⟨fun none_ t => held.all_gone none_, fun gone => List.eq_nil_iff_forall_not_mem.mpr ?_⟩
  rintro (_ | i) token
  · rw [held.main.mp token] at left
    cases left
  · obtain ⟨t, found, live⟩ := (held.tasks i).mp token
    exact live (gone t (List.mem_of_getElem? found))

/-- `run` waits for every task and not for itself, accepts nothing behind its loop, and a
drain reaches each connection once, whether it begins before, during or after the check
that `serve_graceful!` makes. -/
theorem run_drains {es : List (Event ε)} (h : Machine.run step init es = some s) :
    (∀ r, s.main = .returned r → ∀ t ∈ s.tasks, t.stage = .gone) ∧
      (∀ r, s.main = .finishing r → ((step s .recv).isSome = true ↔ ∀ t ∈ s.tasks, t.stage = .gone)) ∧
      (∀ (i : Nat) (t : Task), s.tasks[i]? = some t →
        t.told ≤ 1 ∧ (t.told = 1 → Begun s) ∧ (waitReady s t = true ↔ Begun s) ∧
        (Begun s → t.stage.serving = true → ∃ own s', own.Sublist [.check i, .subscribe i, .changed i] ∧
          Machine.run step s own = some s' ∧ s'.tasks[i]? = some { t with stage := .closing, told := 1 })) ∧
      ∀ front back (u : Server ε), es = front ++ back → Machine.run step init front = some u →
        u.main ≠ .accepting → s.accepted = u.accepted := by
  have held : Held s := Machine.run_invariant (fun _ _ _ => held_step) held_init h
  have signals : Signals s := Machine.run_invariant (fun _ _ _ => signals_step) signals_init h
  refine ⟨fun r back t inside => ?_, fun r waits => ?_, fun i t found => ?_, ?_⟩
  · exact held.all_gone (held.returned (by rw [back]; rfl)) inside
  · rw [← tokens_nil_iff held (by rw [waits]; rfl), ← List.isEmpty_iff]
    cases none_ : s.tokens.isEmpty <;> simp [step, waits, none_]
  · have told := signals.tasks t (List.mem_of_getElem? found)
    refine ⟨told.once, fun one => ?_, ?_, fun begun => told_soon signals begun found⟩
    · exact (told.cause one).imp signals.sound.mpr id
    · rw [waitReady, Bool.or_eq_true, told.seen, Watch.changed_of_begun signals.sound]
      exact or_iff_right_of_imp .inl
  · rintro front back u rfl reached left
    rw [Machine.run_append, reached] at h
    exact (Machine.run_invariant (I := fun s => s.main ≠ .accepting ∧ s.accepted = u.accepted)
      (fun _ _ _ => left_step) ⟨left, rfl⟩ h).2

/-- The drain starts between a connection's check and its subscription. -/
theorem run_drains_race :
    ∃ s : Server String,
      Machine.run step init [.accept, .clone 0, .check 0, .shutdown, .dropRuntime, .start, .subscribe 0,
        .changed 0, .spawn 0, .complete 0, .complete 1, .recv] = some s ∧
      ∀ t ∈ s.tasks, t.stage = .gone :=
  ⟨_, rfl, (run_drains (rfl : Machine.run step (init : Server String) [.accept, .clone 0, .check 0, .shutdown,
    .dropRuntime, .start, .subscribe 0, .changed 0, .spawn 0, .complete 0, .complete 1, .recv] =
      some _)).1 _ rfl⟩

end Steps

end GrpcWebnext.Shutdown.Rust
