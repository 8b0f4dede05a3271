import GrpcWebnext.Library.Machine

/-! Machines whose labels carry instants, with a timer that certain labels set anew. -/
namespace Watchdog
open Machine (run Along)
universe u v
variable {σ : Type u} {ε : Type v} {step : σ → Nat × ε → Option σ} {now : σ → Nat} {deadline : σ → Option Nat}
variable {beat : ε → Bool} {ok : ε → Prop} {limit : Nat}

/-- The last instant at which the timer was set, from the one at which it first was. -/
def lastBeat (beat : ε → Bool) (start : Nat) : List (Nat × ε) → Nat
  | [] => start
  | e :: es => lastBeat beat (if beat e.2 then e.1 else start) es

theorem lastBeat_append (start : Nat) (es fs : List (Nat × ε)) :
    lastBeat beat start (es ++ fs) = lastBeat beat (lastBeat beat start es) fs := by
  induction es generalizing start with
  | nil => rfl
  | cons e es ih => exact ih _

theorem lastBeat_concat (start : Nat) (es : List (Nat × ε)) (e : Nat × ε) :
    lastBeat beat start (es ++ [e]) = if beat e.2 then e.1 else lastBeat beat start es := lastBeat_append ..

/-- Time goes on with every label. -/
def Clocked (step : σ → Nat × ε → Option σ) (now : σ → Nat) : Prop :=
  ∀ s e s', step s e = some s' → now s ≤ e.1 ∧ now s' = e.1

/-- The labels that are `ok` set the timer where they beat, and leave it alone where they do not. -/
def Rearms (step : σ → Nat × ε → Option σ) (deadline : σ → Option Nat) (beat : ε → Bool)
    (ok : ε → Prop) (limit : Nat) :
    Prop :=
  ∀ s e s', step s e = some s' → ok e.2 → deadline s' = if beat e.2 then some (e.1 + limit) else deadline s

theorem Clocked.lastBeat_le (clocked : Clocked step now) {s t : σ} {es : List (Nat × ε)}
    (h : run step s es = some t) :
    ∀ {start : Nat}, start ≤ now s → start ≤ lastBeat beat start es ∧ lastBeat beat start es ≤ now t := by
  induction es generalizing s with
  | nil =>
      cases h
      exact fun first => ⟨Nat.le_refl _, first⟩
  | cons e es ih =>
      obtain ⟨u, moved, rest⟩ := Machine.run_cons_inv h
      obtain ⟨later, now_⟩ := clocked s e u moved
      intro start first
      have next : (if beat e.2 then e.1 else start) ≤ now u := by split <;> omega
      obtain ⟨low, high⟩ := ih rest next
      refine ⟨Nat.le_trans ?_ low, high⟩
      split <;> omega

/-- No beat comes after the last. -/
theorem Clocked.beat_le (clocked : Clocked step now) {s t : σ} {es : List (Nat × ε)}
    (h : run step s es = some t) :
    ∀ {start : Nat}, start ≤ now s → ∀ e ∈ es, beat e.2 = true → e.1 ≤ lastBeat beat start es := by
  induction es generalizing s with
  | nil => nofun
  | cons e es ih =>
      obtain ⟨u, moved, rest⟩ := Machine.run_cons_inv h
      obtain ⟨later, now_⟩ := clocked s e u moved
      intro start first f inside beats
      have next : (if beat e.2 then e.1 else start) ≤ now u := by split <;> omega
      rcases List.mem_cons.mp inside with rfl | behind
      · rw [if_pos beats] at next
        rw [lastBeat, if_pos beats]
        exact (clocked.lastBeat_le rest next).1
      · exact ih rest next f behind beats

/-- Along labels that are `ok` the timer stands where the last beat has put it. -/
theorem Rearms.deadline_run (rearms : Rearms step deadline beat ok limit) {s t : σ} {es : List (Nat × ε)}
    (h : run step s es = some t) (calm : ∀ e ∈ es, ok e.2) :
    ∀ {start : Nat}, deadline s = some (start + limit) →
    deadline t = some (lastBeat beat start es + limit) := by
  induction es generalizing s with
  | nil =>
      cases h
      exact fun armed => armed
  | cons e es ih =>
      obtain ⟨u, moved, rest⟩ := Machine.run_cons_inv h
      obtain ⟨here, later⟩ := List.forall_mem_cons.mp calm
      intro start armed
      refine ih rest later ?_
      rw [rearms s e u moved here]
      split
      · rfl
      · exact armed

/-- Where no label comes behind the timer's instant, time stays within the limit of a beat. -/
theorem Rearms.now_le (rearms : Rearms step deadline beat ok limit) (clocked : Clocked step now)
    {prompt : σ → Nat × ε → Prop} (waits : ∀ s e d, prompt s e → deadline s = some d → e.1 ≤ d)
    {s t : σ} {es : List (Nat × ε)}
    (h : run step s es = some t) (calm : ∀ e ∈ es, ok e.2) (prompt_ : Along step prompt s es) {start : Nat}
    (first : now s ≤ start + limit) (armed : deadline s = some (start + limit)) :
    now t ≤ lastBeat beat start es + limit := by
  induction es using List.reverseRecOn generalizing t with
  | nil =>
      cases h
      exact first
  | append_singleton es e ih =>
      obtain ⟨u, front, moved⟩ := Machine.run_concat_inv h
      obtain ⟨before, here⟩ := (Machine.along_concat front).mp prompt_
      have set_ := rearms.deadline_run front (fun f inside => calm f (List.mem_append_left _ inside)) armed
      have soon := waits u e _ here set_
      obtain ⟨later, now_⟩ := clocked u e t moved
      rw [lastBeat_concat, now_]
      split <;> omega

/-- The labels that are `ok` put the next signal at the next multiple of the period where they
are signals, and leave it alone where they are not. -/
def Ticks (step : σ → Nat × ε → Option σ) (due : σ → Option Nat) (signal : ε → Bool) (ok : ε → Prop)
    (period : Nat) :
    Prop :=
  ∀ s e s', step s e = some s' → ok e.2 → due s' = if signal e.2
    then some ((e.1 / period + 1) * period) else due s

/-- No label comes behind a signal that is due by more than the lag. -/
def Punctual (due : σ → Option Nat) (lag : Nat) (s : σ) (e : Nat × ε) : Prop :=
  ∀ d, due s = some d → e.1 ≤ d + lag

/-- Each multiple of the period that lies before the next signal has had its own, no later than
the lag behind it. -/
theorem Ticks.signalled {due : σ → Option Nat} {signal : ε → Bool} {period lag : Nat}
    (ticks : Ticks step due signal ok period) {s t : σ} {es : List (Nat × ε)} (h : run step s es = some t)
    (calm : ∀ e ∈ es, ok e.2) (punctual : Along step (Punctual due lag) s es) (first : due s = some period) :
    ∃ k, due t = some (k * period) ∧ ∀ j, 1 ≤ j → j < k →
      ∃ e ∈ es, signal e.2 = true ∧ j * period ≤ e.1 ∧ e.1 ≤ j * period + lag := by
  induction es using List.reverseRecOn generalizing t with
  | nil =>
      cases h
      exact ⟨1, by rw [first, Nat.one_mul], fun j low high => absurd high (Nat.not_lt.mpr low)⟩
  | append_singleton es e ih =>
      obtain ⟨u, front, moved⟩ := Machine.run_concat_inv h
      obtain ⟨before, here⟩ := (Machine.along_concat front).mp punctual
      obtain ⟨k, set_, sent⟩ := ih front (fun f inside => calm f (List.mem_append_left _ inside)) before
      have next := ticks u e t moved (calm e (List.mem_append_right _ List.mem_cons_self))
      have earlier : ∀ j, 1 ≤ j → j < k →
          ∃ f ∈ es ++ [e], signal f.2 = true ∧ j * period ≤ f.1 ∧ f.1 ≤ j * period + lag := by
        intro j low high
        obtain ⟨f, inside, rest⟩ := sent j low high
        exact ⟨f, List.mem_append_left _ inside, rest⟩
      cases signals : signal e.2 with
      | false =>
          rw [signals] at next
          exact ⟨k, next.trans set_, earlier⟩
      | true =>
          rw [signals] at next
          refine ⟨e.1 / period + 1, next, fun j low high => ?_⟩
          by_cases known : j < k
          · exact earlier j low known
          · -- the multiples that a late signal has passed are its own
            have reached : j * period ≤ e.1 :=
              Nat.le_trans (Nat.mul_le_mul_right period (Nat.lt_succ_iff.mp high))
                (Nat.div_mul_le_self e.1 period)
            have soon : e.1 ≤ k * period + lag := here _ set_
            have passed : k * period ≤ j * period := Nat.mul_le_mul_right period (Nat.not_lt.mp known)
            exact ⟨e, List.mem_append_right _ List.mem_cons_self, signals, reached, by omega⟩

/-- Of signals that go out every `period`, one falls behind the last beat early enough to have
been left without an answer for all of `patience`. -/
theorem exists_unanswered {period patience last t : Nat} (positive : 0 < period)
    (silent : last + (period + patience) ≤ t) :
    ∃ k, 1 ≤ k ∧ last < k * period ∧ k * period + patience ≤ t := by
  refine ⟨last / period + 1, Nat.le_add_left 1 _, ?_, ?_⟩
  · have split_ := Nat.div_add_mod last period
    have rest := Nat.mod_lt last positive
    rw [Nat.add_mul, Nat.one_mul, Nat.mul_comm]
    omega
  · have below := Nat.div_mul_le_self last period
    rw [Nat.add_mul, Nat.one_mul]
    omega

end Watchdog
