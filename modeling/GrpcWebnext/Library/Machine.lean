import Mathlib.Data.List.Induction

/-! Machines driven by labels. A label carries every choice of the environment
(which party moves, what the network delivers), so a run is a fold over labels
and a concrete run can be evaluated. -/
namespace Machine
universe u v
variable {σ : Type u} {ε : Type v}

/-- The state after the labels in order, `none` when one of them is not enabled. -/
def run (step : σ → ε → Option σ) : σ → List ε → Option σ
  | s, [] => some s
  | s, e :: es => match step s e with
    | none => none
    | some s' => run step s' es

/-- Each step taken along the labels meets `ok` in the state before it. -/
def Along (step : σ → ε → Option σ) (ok : σ → ε → Prop) : σ → List ε → Prop
  | _, [] => True
  | s, e :: es => ok s e ∧ match step s e with
    | none => True
    | some s' => Along step ok s' es

instance Along.decidable (step : σ → ε → Option σ) (ok : σ → ε → Prop)
    [∀ s e, Decidable (ok s e)] : ∀ s es, Decidable (Along step ok s es)
  | _, [] => isTrue trivial
  | s, e :: es =>
      have : Decidable (match step s e with
          | none => True
          | some s' => Along step ok s' es) :=
        match step s e with
        | none => isTrue trivial
        | some s' => Along.decidable step ok s' es
      inferInstanceAs (Decidable (_ ∧ _))

section Rules
variable {step : σ → ε → Option σ}

@[simp] theorem run_nil (s : σ) : run step s [] = some s := rfl

theorem run_cons {s s' : σ} {e : ε} {es : List ε} (first : step s e = some s') :
    run step s (e :: es) = run step s' es := by
  simp only [run, first]

theorem run_append (s : σ) (es fs : List ε) :
    run step s (es ++ fs) = (run step s es).bind fun s => run step s fs := by
  induction es generalizing s with
  | nil => rfl
  | cons e es ih =>
      simp only [List.cons_append, run]
      cases step s e with
      | none => rfl
      | some s' => exact ih s'

theorem run_cons_inv {s t : σ} {e : ε} {es : List ε} (h : run step s (e :: es) = some t) :
    ∃ s', step s e = some s' ∧ run step s' es = some t := by
  cases first : step s e with
  | none => simp only [run, first, reduceCtorEq] at h
  | some s' => exact ⟨s', rfl, by rwa [run_cons first] at h⟩

theorem run_concat_inv {s t : σ} {e : ε} {es : List ε} (h : run step s (es ++ [e]) = some t) :
    ∃ s', run step s es = some s' ∧ step s' e = some t := by
  rw [run_append] at h
  obtain ⟨s', front, last⟩ := Option.bind_eq_some_iff.mp h
  obtain ⟨t', moved, rest⟩ := run_cons_inv last
  cases rest
  exact ⟨s', front, moved⟩

theorem along_append {ok : σ → ε → Prop} {s t : σ} {es fs : List ε}
    (good : Along step ok s (es ++ fs)) (h : run step s es = some t) :
    Along step ok s es ∧ Along step ok t fs := by
  induction es generalizing s with
  | nil =>
      cases h
      exact ⟨trivial, good⟩
  | cons e es ih =>
      obtain ⟨s', first, rest⟩ := run_cons_inv h
      simp only [List.cons_append, Along, first] at good ⊢
      obtain ⟨front, back⟩ := ih good.2 rest
      exact ⟨⟨good.1, front⟩, back⟩

/-- What holds of every label may be added to what holds along the run. -/
theorem Along.and_mem {ok : σ → ε → Prop} {P : ε → Prop} {s : σ} {es : List ε}
    (good : Along step ok s es) (all : ∀ e ∈ es, P e) : Along step (fun s e => P e ∧ ok s e) s es := by
  induction es generalizing s with
  | nil => exact trivial
  | cons e es ih =>
      simp only [Along] at good ⊢
      refine ⟨⟨all e List.mem_cons_self, good.1⟩, ?_⟩
      cases first : step s e with
      | none => exact trivial
      | some s' =>
          rw [first] at good
          exact ih good.2 fun e inside => all e (List.mem_cons_of_mem _ inside)

theorem along_concat {ok : σ → ε → Prop} {s t : σ} {es : List ε} {e : ε} (h : run step s es = some t) :
    Along step ok s (es ++ [e]) ↔ Along step ok s es ∧ ok t e := by
  induction es generalizing s with
  | nil =>
      cases h
      simp only [List.nil_append, Along, true_and]
      cases first : step t e <;> simp
  | cons f es ih =>
      obtain ⟨s', first, rest⟩ := run_cons_inv h
      simp only [List.cons_append, Along, first, ih rest, and_assoc]

/-- The invariant rule for runs whose steps all meet `ok`. -/
theorem run_invariant_along {ok : σ → ε → Prop} {I : σ → Prop}
    (preserve : ∀ s e s', I s → ok s e → step s e = some s' → I s')
    {s t : σ} {es : List ε} (start : I s) (good : Along step ok s es)
    (h : run step s es = some t) : I t := by
  induction es generalizing s with
  | nil =>
      cases h
      exact start
  | cons e es ih =>
      obtain ⟨s', first, rest⟩ := run_cons_inv h
      simp only [Along, first] at good
      exact ih (preserve s e s' start good.1 first) good.2 rest

/-- The invariant rule for arbitrary runs. -/
theorem run_invariant {I : σ → Prop} (preserve : ∀ s e s', I s → step s e = some s' → I s')
    {s t : σ} {es : List ε} (start : I s) (h : run step s es = some t) : I t := by
  induction es generalizing s with
  | nil =>
      cases h
      exact start
  | cons e es ih =>
      obtain ⟨s', first, rest⟩ := run_cons_inv h
      exact ih (preserve s e s' start first) rest

/-- Of a run that starts well, a state holds up exactly when every step before it was
good, if each good step keeps it up, each other breaks it, and what is broken stays so.
`J` holds on every run. -/
theorem run_iff_along {ok : σ → ε → Prop} {J P : σ → Prop} {s t : σ} {es : List ε} (start : J s) (up : P s)
    (preserve : ∀ s e t, J s → step s e = some t → J t)
    (good : ∀ s e t, J s → P s → step s e = some t → (P t ↔ ok s e))
    (broken : ∀ s e t, J s → ¬ P s → step s e = some t → ¬ P t) (h : run step s es = some t) :
    P t ↔ Along step ok s es := by
  induction es using List.reverseRecOn generalizing t with
  | nil =>
      cases h
      exact iff_of_true up trivial
  | append_singleton es e ih =>
      obtain ⟨s', front, last⟩ := run_concat_inv h
      have kept : J s' := run_invariant preserve start front
      rw [along_concat front, ← ih front]
      by_cases up : P s'
      · rw [good s' e t kept up last, and_iff_right up]
      · exact iff_of_false (broken s' e t kept up last) fun both => up both.1

/-- Two conditions on steps come to the same along a run if they agree on every step from
a state that `J` holds of, and the second keeps `J`. -/
theorem along_iff {ok good : σ → ε → Prop} {J : σ → Prop} {s t : σ} {es : List ε} (start : J s)
    (same : ∀ s e t, J s → step s e = some t → (ok s e ↔ good s e))
    (preserve : ∀ s e t, J s → good s e → step s e = some t → J t) (h : run step s es = some t) :
    Along step ok s es ↔ Along step good s es := by
  induction es generalizing s with
  | nil => rfl
  | cons e es ih =>
      obtain ⟨s', first, rest⟩ := run_cons_inv h
      simp only [Along, first, same s e s' start first]
      exact and_congr_right fun fine => ih (preserve s e s' start fine first) rest

/-- The invariant rule where a step may use that its event is one of the run's. -/
theorem run_invariant_mem {I : σ → Prop} {s t : σ} {es : List ε}
    (preserve : ∀ s e s', e ∈ es → I s → step s e = some s' → I s') (start : I s)
    (h : run step s es = some t) : I t := by
  induction es generalizing s with
  | nil =>
      cases h
      exact start
  | cons e es ih =>
      obtain ⟨s', first, rest⟩ := run_cons_inv h
      refine ih ?_ (preserve s e s' List.mem_cons_self start first) rest
      exact fun s e s' inside => preserve s e s' (List.mem_cons_of_mem _ inside)

/-- The invariant rule where the invariant also speaks of what the labels have shown. -/
theorem run_invariant_trace {α : Type*} {shown : ε → List α} {I : List α → σ → Prop}
    (preserve : ∀ l s e s', I l s → step s e = some s' → I (l ++ shown e) s')
    {l : List α} {s t : σ} {es : List ε} (start : I l s) (h : run step s es = some t) :
    I (l ++ es.flatMap shown) t := by
  induction es generalizing l s with
  | nil =>
      cases h
      rwa [List.flatMap_nil, List.append_nil]
  | cons e es ih =>
      obtain ⟨s', first, rest⟩ := run_cons_inv h
      rw [List.flatMap_cons, ← List.append_assoc]
      exact ih (preserve l s e s' start first) rest

/-- The invariant rule where the invariant speaks of the run so far, and each step meets `ok`. -/
theorem run_invariant_history {ok : σ → ε → Prop} {I : List ε → σ → Prop} {s t : σ} {es : List ε}
    (preserve : ∀ es s e s', I es s → ok s e → step s e = some s' → I (es ++ [e]) s')
    (start : I [] s) (good : Along step ok s es) (h : run step s es = some t) : I es t := by
  induction es using List.reverseRecOn generalizing t with
  | nil =>
      cases h
      exact start
  | append_singleton es e ih =>
      obtain ⟨s', front, last⟩ := run_concat_inv h
      obtain ⟨before, here⟩ := (along_concat front).mp good
      exact preserve es s' e t (ih before front) here last

end Rules
end Machine
