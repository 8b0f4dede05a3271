import GrpcWebnext.Library.Machine

/-! What a run has passed through: a state property met at some moment of it, and the
flags that remember such a moment. -/
namespace Machine
universe u v
variable {σ : Type u} {ε : Type v} {step : σ → ε → Option σ} {P Q J L : σ → Prop}

/-- Some state of the run from `s`, its first and last among them, meets `P`. -/
def Passed (step : σ → ε → Option σ) (P : σ → Prop) (s : σ) (es : List ε) : Prop :=
  ∃ front back t, es = front ++ back ∧ run step s front = some t ∧ P t

theorem passed_nil {s : σ} : Passed step P s [] ↔ P s := by
  constructor
  · rintro ⟨front, back, t, split, reached, holds⟩
    obtain ⟨rfl, rfl⟩ := List.append_eq_nil_iff.mp split.symm
    cases reached
    exact holds
  · exact fun holds => ⟨[], [], s, rfl, rfl, holds⟩

theorem passed_concat {s t : σ} {es : List ε} {e : ε} (h : run step s (es ++ [e]) = some t) :
    Passed step P s (es ++ [e]) ↔ Passed step P s es ∨ P t := by
  constructor
  · rintro ⟨front, back, u, split, reached, holds⟩
    rcases List.eq_nil_or_concat back with rfl | ⟨back, last, rfl⟩
    · rw [List.append_nil] at split
      subst split
      cases reached.symm.trans h
      exact .inr holds
    · rw [List.concat_eq_append, ← List.append_assoc] at split
      obtain ⟨rfl, _⟩ := List.append_inj' split rfl
      exact .inl ⟨front, back, u, rfl, reached, holds⟩
  · rintro (⟨front, back, u, rfl, reached, holds⟩ | holds)
    · exact ⟨front, back ++ [e], u, List.append_assoc .., reached, holds⟩
    · exact ⟨es ++ [e], [], t, by rw [List.append_nil], h, holds⟩

theorem Passed.mono {s : σ} {es : List ε} (passed : Passed step P s es) (weaker : ∀ s, P s → Q s) :
    Passed step Q s es := by
  obtain ⟨front, back, t, split, reached, holds⟩ := passed
  exact ⟨front, back, t, split, reached, weaker t holds⟩

/-- From the moment that was passed the run goes on to its end. -/
theorem Passed.rest {s t : σ} {es : List ε} (passed : Passed step P s es) (h : run step s es = some t) :
    ∃ front back u, es = front ++ back ∧ run step s front = some u ∧ P u ∧ run step u back = some t := by
  obtain ⟨front, back, u, rfl, reached, holds⟩ := passed
  rw [run_append, reached] at h
  exact ⟨front, back, u, rfl, reached, holds, h⟩

/-- What a step never ends holds at the end if it held at a moment of the run. -/
theorem Passed.last (stays : ∀ s e t, P s → step s e = some t → P t) {s t : σ} {es : List ε}
    (passed : Passed step P s es) (h : run step s es = some t) : P t := by
  obtain ⟨_, _, _, _, _, holds, rest⟩ := passed.rest h
  exact run_invariant stays holds rest

/-- The latch rule: a flag that a step leaves set, or sets when it brings `P` about, says
at the end of a run that the run has passed `P`. `J` holds on every run. -/
theorem run_latch (preserve : ∀ s e t, J s → step s e = some t → J t)
    (latch : ∀ s e t, J s → step s e = some t → (L t ↔ L s ∨ P t)) {s t : σ} {es : List ε}
    (start : J s) (first : L s ↔ P s) (h : run step s es = some t) :
    L t ↔ Passed step P s es := by
  induction es using List.reverseRecOn generalizing t with
  | nil =>
      cases h
      rw [passed_nil, first]
  | append_singleton es e ih =>
      obtain ⟨u, front, last⟩ := run_concat_inv h
      rw [passed_concat h, ← ih front]
      exact latch u e t (run_invariant preserve start front) last

end Machine
