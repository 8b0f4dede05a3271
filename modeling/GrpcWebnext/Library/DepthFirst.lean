import Mathlib.Data.List.Nodup
import Mathlib.Logic.Relation

/-! Depth-first walks with one shared set of seen nodes. `next` gives what a node leads to;
a name it does not know is no node. The walk lists every node it finishes behind the nodes
it finished under it. -/
namespace DepthFirst
universe u
variable {α : Type u}

/-- The walk over some names, from the nodes seen before it to those seen after it and the
nodes finished on the way. -/
inductive Visits (next : α → Option (List α)) : List α → List α → List α → List α → Prop
  | nil {seen} : Visits next seen [] seen []
  | again {seen x names after order} (known : x ∈ seen) (rest : Visits next seen names after order) :
      Visits next seen (x :: names) after order
  | absent {seen x names after order} (fresh : x ∉ seen) (none : next x = none)
      (rest : Visits next (x :: seen) names after order) : Visits next seen (x :: names) after order
  | node {seen x names inner middle below after order} (fresh : x ∉ seen) (some : next x = some inner)
      (under : Visits next (x :: seen) inner middle below)
      (rest : Visits next middle names after order) :
      Visits next seen (x :: names) after (below ++ x :: order)

/-- One node leads to another; names that are no nodes do not count. -/
def Leads (next : α → Option (List α)) (x y : α) : Prop :=
  ∃ inner, next x = some inner ∧ y ∈ inner ∧ (next y).isSome

def Acyclic (next : α → Option (List α)) : Prop := ∀ x, ¬ Relation.TransGen (Leads next) x x

/-- What each node of a list leads to is done before it. -/
def Ready (next : α → Option (List α)) : List α → List α → Prop
  | _, [] => True
  | done, x :: order => (∀ y, Leads next x y → y ∈ done) ∧ Ready next (x :: done) order

theorem ready_append {next : α → Option (List α)} {done front back : List α} :
    Ready next done (front ++ back) ↔ Ready next done front ∧ Ready next (front.reverse ++ done) back := by
  induction front generalizing done with
  | nil => exact ⟨fun ready => ⟨trivial, ready⟩, And.right⟩
  | cons x front ih =>
      rw [List.cons_append, Ready, Ready, ih, and_assoc, List.reverse_cons, List.append_assoc,
        List.singleton_append]

/-- In a ready order a node stands behind everything it leads to. -/
theorem Ready.before {next : α → Option (List α)} {front back : List α} {x y : α}
    (ready : Ready next [] (front ++ x :: back)) (leads : Leads next x y) : y ∈ front := by
  have here := (ready_append.mp ready).2.1 y leads
  rwa [List.append_nil, List.mem_reverse] at here

section Walk
variable {next : α → Option (List α)} {seen names after order : List α}

theorem Visits.subset (walk : Visits next seen names after order) : seen ⊆ after := by
  induction walk with
  | nil => exact List.Subset.refl _
  | again _ _ ih => exact ih
  | absent _ _ _ ih => exact List.Subset.trans (List.subset_cons_self _ _) ih
  | node _ _ _ _ under rest =>
      exact List.Subset.trans (List.subset_cons_self _ _) (List.Subset.trans under rest)

/-- Every name of the walk is seen after it. -/
theorem Visits.covers (walk : Visits next seen names after order) : names ⊆ after := by
  induction walk with
  | nil => exact List.nil_subset _
  | again known rest ih => exact List.cons_subset.mpr ⟨rest.subset known, ih⟩
  | absent _ _ rest ih => exact List.cons_subset.mpr ⟨rest.subset List.mem_cons_self, ih⟩
  | node _ _ under rest _ ih =>
      exact List.cons_subset.mpr ⟨rest.subset (under.subset List.mem_cons_self), ih⟩

/-- A node is finished only when the walk saw it first. -/
theorem Visits.of_mem (walk : Visits next seen names after order) {x : α} (member : x ∈ order) :
    x ∉ seen ∧ x ∈ after ∧ (next x).isSome := by
  induction walk with
  | nil => cases member
  | again _ _ ih => exact ih member
  | absent _ _ _ ih =>
      obtain ⟨fresh, rest⟩ := ih member
      exact ⟨fun known => fresh (List.mem_cons_of_mem _ known), rest⟩
  | @node seen node names inner middle below after order fresh some under rest ihUnder ihRest =>
      rcases List.mem_append.mp member with first | later
      · obtain ⟨unseen, inside, isNode⟩ := ihUnder first
        exact ⟨fun known => unseen (List.mem_cons_of_mem _ known), rest.subset inside, isNode⟩
      · rcases List.mem_cons.mp later with rfl | later
        · refine ⟨fresh, rest.subset (under.subset List.mem_cons_self), ?_⟩
          rw [some]
          rfl
        · obtain ⟨unseen, inside⟩ := ihRest later
          exact ⟨fun known => unseen (under.subset (List.mem_cons_of_mem _ known)), inside⟩

/-- What the walk sees and does not finish it had seen before, or it is no node. -/
theorem Visits.finished (walk : Visits next seen names after order) {x : α} (inside : x ∈ after) :
    x ∈ seen ∨ next x = none ∨ x ∈ order := by
  induction walk with
  | nil => exact .inl inside
  | again _ _ ih => exact ih inside
  | absent _ none _ ih =>
      rcases ih inside with known | rest
      · rcases List.mem_cons.mp known with rfl | known
        · exact .inr (.inl none)
        · exact .inl known
      · exact .inr rest
  | node _ some under rest ihUnder ihRest =>
      rcases ihRest inside with middle | none | later
      · rcases ihUnder middle with known | none | below
        · rcases List.mem_cons.mp known with rfl | known
          · exact .inr (.inr (List.mem_append_right _ List.mem_cons_self))
          · exact .inl known
        · exact .inr (.inl none)
        · exact .inr (.inr (List.mem_append_left _ below))
      · exact .inr (.inl none)
      · exact .inr (.inr (List.mem_append_right _ (List.mem_cons_of_mem _ later)))

theorem Visits.nodup (walk : Visits next seen names after order) : order.Nodup := by
  induction walk with
  | nil => exact List.nodup_nil
  | again _ _ ih => exact ih
  | absent _ _ _ ih => exact ih
  | node _ _ under rest ihUnder ihRest =>
      have notLater : ∀ {y}, y ∈ _ → y ∉ _ := fun {y} seen later => (rest.of_mem later).1 seen
      refine ihUnder.append (List.nodup_cons.mpr ⟨notLater ?_, ihRest⟩) ?_
      · exact under.subset List.mem_cons_self
      · intro y below later
        rcases List.mem_cons.mp later with rfl | later
        · exact (under.of_mem below).1 List.mem_cons_self
        · exact notLater (under.of_mem below).2.1 later

/-- A walk from nothing seen finishes exactly the nodes among what it sees. -/
theorem Visits.mem_order (walk : Visits next [] names after order) {x : α} :
    x ∈ order ↔ x ∈ after ∧ (next x).isSome := by
  constructor
  · intro member
    exact (walk.of_mem member).2
  · rintro ⟨inside, isNode⟩
    rcases walk.finished inside with known | none | member
    · cases known
    · rw [none] at isNode
      cases isNode
    · exact member

theorem Visits.det {after' order' : List α} (walk : Visits next seen names after order)
    (other : Visits next seen names after' order') : after = after' ∧ order = order' := by
  induction walk generalizing after' order' with
  | nil =>
      cases other
      exact ⟨rfl, rfl⟩
  | again known _ ih =>
      cases other with
      | again _ rest => exact ih rest
      | absent fresh => exact absurd known fresh
      | node fresh => exact absurd known fresh
  | absent fresh none _ ih =>
      cases other with
      | again known => exact absurd known fresh
      | absent _ _ rest => exact ih rest
      | node _ some => cases none.symm.trans some
  | node fresh some _ _ ihUnder ihRest =>
      cases other with
      | again known => exact absurd known fresh
      | absent _ none => cases none.symm.trans some
      | node _ same under rest =>
          cases Option.some.inj (some.symm.trans same)
          obtain ⟨rfl, rfl⟩ := ihUnder under
          obtain ⟨rfl, rfl⟩ := ihRest rest
          exact ⟨rfl, rfl⟩

/-- A seen node is done, or the walk is still under it: it leads to every name to come. -/
def Active (next : α → Option (List α)) (seen done names : List α) : Prop :=
  ∀ x ∈ seen, (next x).isSome →
    x ∈ done ∨ ∀ y ∈ names, (next y).isSome → Relation.TransGen (Leads next) x y

theorem Active.under {done inner : List α} {x : α} (active : Active next seen done (x :: names))
    (some : next x = some inner) : Active next (x :: seen) done inner := by
  have isNode : (next x).isSome := by
    rw [some]
    rfl
  intro s known present
  rcases List.mem_cons.mp known with rfl | known
  · refine .inr fun y member found => ?_
    exact .single ⟨inner, some, member, found⟩
  · rcases active s known present with done | above
    · exact .inl done
    · refine .inr fun y member found => ?_
      exact (above x List.mem_cons_self isNode).tail ⟨inner, some, member, found⟩

theorem Active.tail {done : List α} {x : α} (active : Active next seen done (x :: names)) :
    Active next seen done names := by
  intro s known present
  rcases active s known present with done | above
  · exact .inl done
  · exact .inr fun y member => above y (List.mem_cons_of_mem _ member)

/-- Without cycles nothing that is still open is met again, so each node comes behind
everything it leads to. -/
theorem Visits.ready (acyclic : Acyclic next) (walk : Visits next seen names after order) :
    ∀ done, Active next seen done names → Ready next done order := by
  induction walk with
  | nil =>
      intro done _
      trivial
  | again _ _ ih =>
      intro done active
      exact ih done active.tail
  | absent _ none _ ih =>
      intro done active
      refine ih done ?_
      intro s known present
      rcases List.mem_cons.mp known with rfl | known
      · rw [none] at present
        cases present
      · exact active.tail s known present
  | @node seen x names inner middle below after order fresh some under rest ihUnder ihRest =>
      intro done active
      have inside := active.under some
      have ready := ihUnder done inside
      have met : ∀ y, Leads next x y → y ∈ below.reverse ++ done := by
        rintro y ⟨others, same, member, isNode⟩
        cases Option.some.inj (some.symm.trans same)
        rw [List.mem_append, List.mem_reverse]
        rcases under.finished (under.covers member) with known | none | finished
        · rcases inside y known isNode with before | above
          · exact .inr before
          · exact absurd (above y member isNode) (acyclic y)
        · rw [none] at isNode
          cases isNode
        · exact .inl finished
      have later : Active next middle (x :: (below.reverse ++ done)) names := by
        intro s known present
        rcases under.finished known with known | none | finished
        · rcases List.mem_cons.mp known with rfl | known
          · exact .inl List.mem_cons_self
          · refine (active.tail s known present).imp_left fun before => ?_
            exact List.mem_cons_of_mem _ (List.mem_append_right _ before)
        · rw [none] at present
          cases present
        · exact .inl (List.mem_cons_of_mem _ (List.mem_append_left _ (List.mem_reverse.mpr finished)))
      exact ready_append.mpr ⟨ready, met, ihRest _ later⟩

end Walk

end DepthFirst
