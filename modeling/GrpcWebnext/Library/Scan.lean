import Mathlib.Algebra.Group.Nat.Defs
import Mathlib.Data.List.Basic

/-! Greedy scanners. A scanner cuts items off the front of a list until none is
complete; it is run with the length of the list as fuel, which never runs out
when every cut makes the list shorter. -/
namespace Scan
universe u v
variable {α : Type u} {β : Type v}

abbrev Next (α : Type u) (β : Type v) := List β → Option (α × List β)

def scanFuel (next : Next α β) : Nat → List β → List α × List β
  | 0, bs => ([], bs)
  | n + 1, bs => match next bs with
    | none => ([], bs)
    | some (a, rest) => (a :: (scanFuel next n rest).1, (scanFuel next n rest).2)

/-- The items cut off in order, and what is left when no further one is complete. -/
def scan (next : Next α β) (bs : List β) : List α × List β := scanFuel next bs.length bs

def Shrinks (next : Next α β) : Prop :=
  ∀ bs a rest, next bs = some (a, rest) → rest.length < bs.length

/-- A complete item stays complete, and stays the same, when more input arrives. -/
def Extends (next : Next α β) : Prop :=
  ∀ bs a rest more, next bs = some (a, rest) → next (bs ++ more) = some (a, rest ++ more)

section
variable {next : Next α β}

theorem Shrinks.nil (shrinks : Shrinks next) : next [] = none := by
  cases h : next [] with
  | none => rfl
  | some item => exact absurd (shrinks [] item.1 item.2 h) (Nat.not_lt_zero _)

theorem scanFuel_enough (shrinks : Shrinks next) (n : Nat) :
    ∀ m bs, bs.length ≤ n → bs.length ≤ m → scanFuel next n bs = scanFuel next m bs := by
  induction n with
  | zero =>
      intro m bs hn hm
      obtain rfl := List.length_eq_zero_iff.mp (Nat.le_zero.mp hn)
      cases m with
      | zero => rfl
      | succ m => simp only [scanFuel, shrinks.nil]
  | succ n ih =>
      intro m bs hn hm
      cases m with
      | zero =>
          obtain rfl := List.length_eq_zero_iff.mp (Nat.le_zero.mp hm)
          simp only [scanFuel, shrinks.nil]
      | succ m =>
          simp only [scanFuel]
          cases h : next bs with
          | none => rfl
          | some item =>
              have shorter := shrinks _ _ _ h
              simp only [ih m item.2 (by omega) (by omega)]

theorem scan_none {bs : List β} (h : next bs = none) : scan next bs = ([], bs) := by
  cases bs with
  | nil => rfl
  | cons b bs => simp only [scan, List.length_cons, scanFuel, h]

theorem scan_some (shrinks : Shrinks next) {bs rest : List β} {a : α}
    (h : next bs = some (a, rest)) :
    scan next bs = (a :: (scan next rest).1, (scan next rest).2) := by
  have shorter := shrinks _ _ _ h
  cases bs with
  | nil => simp only [shrinks.nil, reduceCtorEq] at h
  | cons b bs =>
      simp only [List.length_cons] at shorter
      have enough := scanFuel_enough shrinks bs.length rest.length rest (by omega) (Nat.le_refl _)
      simp only [scan, List.length_cons, scanFuel, h, enough]

/-- Induction along the cuts of a scanner. -/
theorem scan_induct (shrinks : Shrinks next) {P : List β → Prop}
    (stop : ∀ bs, next bs = none → P bs)
    (cut : ∀ bs a rest, next bs = some (a, rest) → P rest → P bs) (bs : List β) : P bs := by
  induction size : bs.length using Nat.strongRecOn generalizing bs with
  | ind n ih =>
      subst size
      cases h : next bs with
      | none => exact stop bs h
      | some item => exact cut bs item.1 item.2 h (ih _ (shrinks _ _ _ h) _ rfl)

/-- Nothing complete is left behind. -/
theorem scan_left (shrinks : Shrinks next) (bs : List β) : next (scan next bs).2 = none := by
  induction bs using scan_induct shrinks with
  | stop bs h => rw [scan_none h]; exact h
  | cut bs a rest h ih => rw [scan_some shrinks h]; exact ih

/-- Scanning in two pieces, carrying what was left, is scanning the whole. -/
theorem scan_append (shrinks : Shrinks next) (extends_ : Extends next) (bs more : List β) :
    scan next (bs ++ more) =
      ((scan next bs).1 ++ (scan next ((scan next bs).2 ++ more)).1,
        (scan next ((scan next bs).2 ++ more)).2) := by
  induction bs using scan_induct shrinks with
  | stop bs h => simp only [scan_none h, List.nil_append]
  | cut bs a rest h ih =>
      rw [scan_some shrinks (extends_ bs a rest more h), scan_some shrinks h, ih]
      rfl

/-- A scanner whose items are read differently cuts at the same places. -/
theorem scan_map {γ : Type u} {read : Next γ β} (f : α → γ)
    (same : ∀ bs, read bs = (next bs).map fun item => (f item.1, item.2)) (shrinks : Shrinks next)
    (bs : List β) : scan read bs = ((scan next bs).1.map f, (scan next bs).2) := by
  have shorter : Shrinks read := by
    intro bs c rest h
    rw [same] at h
    obtain ⟨item, found, cut⟩ := Option.map_eq_some_iff.mp h
    cases cut
    exact shrinks bs item.1 item.2 found
  induction bs using scan_induct shrinks with
  | stop bs h =>
      have none : read bs = none := by
        rw [same, h]
        rfl
      rw [scan_none h, scan_none none]
      rfl
  | cut bs a rest h ih =>
      have some : read bs = some (f a, rest) := by
        rw [same, h]
        rfl
      rw [scan_some shrinks h, scan_some shorter some, ih]
      rfl

end

/-- What a buffer with a scanner on it is asked for: to take in more, or to give an item. -/
inductive Op (β : Type v) where
  | push (chunk : List β)
  | pull

def Op.chunk : Op β → List β
  | .push chunk => chunk
  | .pull => []

/-- All that was taken in. -/
def pushed (ops : List (Op β)) : List β := ops.flatMap Op.chunk

/-- The items given so far, and what is buffered. -/
def work (next : Next α β) : List α × List β → Op β → List α × List β
  | (given, buf), .push chunk => (given, buf ++ chunk)
  | (given, buf), .pull => match next buf with
    | some (a, rest) => (given ++ [a], rest)
    | none => (given, buf)

section
variable {next : Next α β}

/-- However takes and gives alternate, what was given and what the buffer still holds make
up the scan of all that was taken in. -/
theorem work_scan (shrinks : Shrinks next) (extends_ : Extends next) (ops : List (Op β)) :
    ∀ given buf, (ops.foldl (work next) (given, buf)).1 ++
          (scan next (ops.foldl (work next) (given, buf)).2).1 =
        given ++ (scan next (buf ++ pushed ops)).1 ∧
      (scan next (ops.foldl (work next) (given, buf)).2).2 = (scan next (buf ++ pushed ops)).2 := by
  induction ops with
  | nil =>
      intro given buf
      rw [pushed, List.flatMap_nil, List.append_nil]
      exact ⟨rfl, rfl⟩
  | cons op ops ih =>
      intro given buf
      rw [List.foldl_cons, pushed, List.flatMap_cons, ← pushed]
      cases op with
      | push chunk =>
          have later := ih given (buf ++ chunk)
          rw [List.append_assoc] at later
          exact later
      | pull =>
          rw [Op.chunk, List.nil_append]
          cases h : next buf with
          | none =>
              have stays : work next (given, buf) .pull = (given, buf) := by
                simp only [work, h]
              rw [stays]
              exact ih given buf
          | some item =>
              obtain ⟨a, rest⟩ := item
              have gives : work next (given, buf) .pull = (given ++ [a], rest) := by
                simp only [work, h]
              have whole := scan_some shrinks (extends_ buf a rest (pushed ops) h)
              obtain ⟨items, left⟩ := ih (given ++ [a]) rest
              rw [gives, items, left, whole, List.append_assoc]
              exact ⟨rfl, rfl⟩

/-- Once no item is complete, all items have been given, and the rest is buffered. -/
theorem work_drained (shrinks : Shrinks next) (extends_ : Extends next) {ops : List (Op β)}
    (drained : next (ops.foldl (work next) ([], [])).2 = none) :
    ops.foldl (work next) ([], []) = scan next (pushed ops) := by
  obtain ⟨items, left⟩ := work_scan shrinks extends_ ops [] []
  rw [scan_none drained, List.append_nil, List.nil_append, List.nil_append] at items
  rw [scan_none drained, List.nil_append] at left
  exact Prod.ext items left

/-- As many pulls as there are elements in the buffer leave no complete item. -/
theorem work_pulls (shrinks : Shrinks next) (n : Nat) :
    ∀ given buf, buf.length ≤ n →
      (List.replicate n Op.pull).foldl (work next) (given, buf) =
        (given ++ (scan next buf).1, (scan next buf).2) := by
  induction n with
  | zero =>
      intro given buf few
      obtain rfl := List.length_eq_zero_iff.mp (Nat.le_zero.mp few)
      rw [scan_none shrinks.nil]
      exact Prod.ext (List.append_nil given).symm rfl
  | succ n ih =>
      intro given buf few
      rw [List.replicate_succ, List.foldl_cons]
      cases h : next buf with
      | none =>
          have stays : ∀ m, (List.replicate m Op.pull).foldl (work next) (given, buf) = (given, buf) := by
            intro m
            induction m with
            | zero => rfl
            | succ m again =>
                rw [List.replicate_succ, List.foldl_cons]
                simp only [work, h]
                exact again
          simp only [work, h]
          rw [stays, scan_none h, List.append_nil]
      | some item =>
          obtain ⟨a, rest⟩ := item
          have shorter := shrinks _ _ _ h
          simp only [work, h]
          rw [ih (given ++ [a]) rest (by omega), scan_some shrinks h, List.append_assoc]
          rfl

end
end Scan
