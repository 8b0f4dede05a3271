import GrpcWebnext.GoDispatch.Trailers
import GrpcWebnext.Library.Machine

/-! The response writer that the Go server hands to its backend. The handler's goroutine
commits the head, writes the body into a pipe and harvests the trailers when it returns; the
reader of the pipe runs beside it. -/
namespace GrpcWebnext.GoDispatch
open Framing (Bytes)

/-- What the handler's goroutine goes on with behind a commit. -/
inductive After where
  | write (chunk : Bytes)
  | back
  | finish

/-- Where the handler's goroutine is. What a commit or the harvest computes is published in
a step of its own. -/
inductive Stage where
  | running
  | storing (after : After) (initial : Header)
  | announcing (after : After)
  | writing (chunk : Bytes)
  | harvesting
  | publishing (trailing : Header)
  | closing
  | finished

def After.stage : After → Stage
  | .write chunk => .writing chunk
  | .back => .running
  | .finish => .harvesting

/-- `grpcResponseWriter` with its pipe: `committed` is its `commitOnce`, `ready` its closed
channel, and `ended` tells that the reader has seen the end of the body. -/
structure Response where
  header : Header
  committed : Bool
  initial : Option Header
  ready : Bool
  trailing : Option Header
  stage : Stage
  readerClosed : Bool
  ended : Bool

def start : Response := ⟨∅, false, none, false, none, .running, false, false⟩

/-- What the handler does with its writer, a step of its goroutine inside a call, and what
the reader does with the pipe. -/
inductive Label where
  | assign (key : Bytes) (values : List Bytes)
  | delete (key : Bytes)
  | write (chunk : Bytes)
  | writeHeader
  | flush
  | ret
  | advance
  | read (n : Nat)
  | closeRead

def Response.commit (s : Response) (after : After) : Response :=
  if s.committed then { s with stage := after.stage }
  else { s with committed := true, stage := .storing after (splitInitial s.header) }

/-- The next step of the goroutine inside `commit`, `Write` or `finish`. A write waits for
the reader, unless the reader has closed its end. -/
def Response.advance (s : Response) : Option Response :=
  match s.stage with
  | .running => none
  | .storing after initial => some { s with initial := some initial, stage := .announcing after }
  | .announcing after => some { s with ready := true, stage := after.stage }
  | .writing _ => if s.readerClosed then some { s with stage := .running } else none
  | .harvesting => some { s with stage := .publishing (harvest s.header) }
  | .publishing trailing => some { s with trailing := some trailing, stage := .closing }
  | .closing => some { s with stage := .finished }
  | .finished => none

/-- A read takes from the chunk that is being written, or it sees that the body is closed. -/
def Response.read (s : Response) (n : Nat) : Option Response :=
  if s.readerClosed then none
  else match s.stage with
    | .writing chunk =>
        some { s with stage := if chunk.drop n = [] then .running else .writing (chunk.drop n) }
    | .finished => some { s with ended := true }
    | _ => none

/-- The handler's own steps are those of its code, between its calls. -/
def Response.handle (s : Response) : Label → Option Response
  | .assign key values => some { s with header := s.header.insert key values }
  | .delete key => some { s with header := s.header.erase key }
  | .write chunk => some (s.commit (.write chunk))
  | .writeHeader => some (s.commit .back)
  | .flush => some (s.commit .back)
  | .ret => some (s.commit .finish)
  | _ => none

def step (s : Response) (label : Label) : Option Response :=
  match label with
  | .advance => s.advance
  | .read n => s.read n
  | .closeRead => some { s with readerClosed := true }
  | label => match s.stage with
    | .running => s.handle label
    | _ => none

/-- Whether the handler commits the head, if it has not been. -/
def Label.commits : Label → Bool
  | .write _ | .writeHeader | .flush | .ret => true
  | _ => false

/-- What the handler makes of its header map. -/
def Label.mutate (h : Header) : Label → Header
  | .assign key values => h.insert key values
  | .delete key => h.erase key
  | _ => h

def headerAfter (labels : List Label) : Header := labels.foldl Label.mutate ∅

/-- The header map at the first commit. -/
def headerAtCommit (labels : List Label) : Header :=
  headerAfter (labels.takeWhile fun label => !label.commits)

theorem headerAfter_concat (labels : List Label) (label : Label) :
    headerAfter (labels ++ [label]) = label.mutate (headerAfter labels) := by
  rw [headerAfter, List.foldl_append, List.foldl_cons, List.foldl_nil, ← headerAfter]

theorem takeWhile_begun {labels : List Label} (begun : labels.any Label.commits = true) (label : Label) :
    (labels ++ [label]).takeWhile (fun label => !label.commits) = labels.takeWhile fun label =>
      !label.commits := by
  induction labels with
  | nil => cases begun
  | cons first labels ih =>
      rw [List.cons_append, List.takeWhile_cons, List.takeWhile_cons]
      cases commits : first.commits with
      | true => rfl
      | false =>
          rw [List.any_cons, commits, Bool.false_or] at begun
          rw [ih begun]

/-- The head stays what it was at the first commit. -/
theorem headerAtCommit_begun {labels : List Label} (begun : labels.any Label.commits = true) (label : Label) :
    headerAtCommit (labels ++ [label]) = headerAtCommit labels := by
  rw [headerAtCommit, takeWhile_begun begun, ← headerAtCommit]

theorem headerAtCommit_first {labels : List Label} {label : Label} (before : labels.any Label.commits = false)
    (commits : label.commits = true) : headerAtCommit (labels ++ [label]) = headerAfter labels := by
  have plain : ∀ label ∈ labels, (!label.commits) = true := by
    intro label member
    rw [Bool.not_eq_true', ← Bool.not_eq_true]
    exact List.any_eq_false.mp before label member
  rw [headerAtCommit, List.takeWhile_append_of_pos plain, List.takeWhile_cons, commits, Bool.not_true]
  exact congrArg headerAfter (List.append_nil labels)

/-- Where the initial metadata stands, by the stage of the handler's goroutine. -/
def Response.Head (first : Header) (s : Response) : Prop :=
  match s.stage with
  | .running => if s.committed then s.initial = some first else s.initial = none ∧ s.ready = false
  | .storing _ initial => s.committed = true ∧ initial = first ∧ s.initial = none ∧ s.ready = false
  | _ => s.committed = true ∧ s.initial = some first

/-- Where the trailers stand. They are in place when the body is closed. -/
def Response.Tail (s : Response) : Prop :=
  match s.stage with
  | .publishing trailing => trailing = harvest s.header ∧ s.trailing = none ∧ s.ended = false
  | .closing => s.trailing = some (harvest s.header) ∧ s.ended = false
  | .finished => s.trailing = some (harvest s.header)
  | _ => s.trailing = none ∧ s.ended = false

/-- What holds after some labels. -/
structure Told (labels : List Label) (s : Response) : Prop where
  header : s.header = headerAfter labels
  begun : s.committed = labels.any Label.commits
  head : s.Head (splitInitial (headerAtCommit labels))
  tail : s.Tail

theorem step_cases {s t : Response} {label : Label} (moved : step s label = some t) :
    (s.stage = .running ∧ s.handle label = some t) ∨ (label = .advance ∧ s.advance = some t) ∨
      (∃ n, label = .read n ∧ s.read n = some t) ∨
        (label = .closeRead ∧ { s with readerClosed := true } = t) := by
  cases label with
  | advance => exact .inr (.inl ⟨rfl, moved⟩)
  | read n => exact .inr (.inr (.inl ⟨n, rfl, moved⟩))
  | closeRead => exact .inr (.inr (.inr ⟨rfl, Option.some.inj moved⟩))
  | assign | delete | write | writeHeader | flush | ret =>
      left
      cases stage : s.stage with
      | running =>
          simp only [step, stage] at moved
          exact ⟨rfl, moved⟩
      | storing | announcing | writing | harvesting | publishing | closing | finished =>
          simp only [step, stage, reduceCtorEq] at moved

/-- What a step inside a call does, by the stage it is taken in. -/
inductive Advances (s : Response) : Response → Prop where
  | stored {after : After} {initial : Header} (at_ : s.stage = .storing after initial) :
      Advances s { s with initial := some initial, stage := .announcing after }
  | announced {after : After} (at_ : s.stage = .announcing after) :
      Advances s { s with ready := true, stage := after.stage }
  | unread {chunk : Bytes} (at_ : s.stage = .writing chunk) : Advances s { s with stage := .running }
  | harvested (at_ : s.stage = .harvesting) : Advances s { s with stage := .publishing (harvest s.header) }
  | published {trailing : Header} (at_ : s.stage = .publishing trailing) :
      Advances s { s with trailing := some trailing, stage := .closing }
  | closed (at_ : s.stage = .closing) : Advances s { s with stage := .finished }

theorem advance_cases {s t : Response} (moved : s.advance = some t) : Advances s t := by
  unfold Response.advance at moved
  cases stage : s.stage with
  | running | finished => simp only [stage, reduceCtorEq] at moved
  | storing after initial =>
      simp only [stage, Option.some.injEq] at moved
      exact moved ▸ .stored stage
  | announcing after =>
      simp only [stage, Option.some.injEq] at moved
      exact moved ▸ .announced stage
  | writing chunk =>
      simp only [stage, Option.ite_none_right_eq_some, Option.some.injEq] at moved
      exact moved.2 ▸ .unread stage
  | harvesting =>
      simp only [stage, Option.some.injEq] at moved
      exact moved ▸ .harvested stage
  | publishing trailing =>
      simp only [stage, Option.some.injEq] at moved
      exact moved ▸ .published stage
  | closing =>
      simp only [stage, Option.some.injEq] at moved
      exact moved ▸ .closed stage

/-- A step inside a call leaves the header map and the first commit alone. -/
theorem Advances.keeps {s t : Response} (advances : Advances s t) :
    t.header = s.header ∧ t.committed = s.committed := by
  cases advances <;> exact ⟨rfl, rfl⟩

theorem Advances.head {first : Header} {s t : Response} (advances : Advances s t) (head : s.Head first) :
    t.Head first := by
  unfold Response.Head at head
  cases advances with
  | stored at_ =>
      simp only [at_] at head
      obtain ⟨committed, rfl, -, -⟩ := head
      exact ⟨committed, rfl⟩
  | @announced after at_ =>
      simp only [at_] at head
      cases after with
      | write chunk => exact head
      | back => exact (if_pos head.1).mpr head.2
      | finish => exact head
  | unread at_ =>
      simp only [at_] at head
      exact (if_pos head.1).mpr head.2
  | harvested at_ | published at_ | closed at_ =>
      simp only [at_] at head
      exact head

theorem Advances.tail {s t : Response} (advances : Advances s t) (tail : s.Tail) : t.Tail := by
  unfold Response.Tail at tail
  cases advances with
  | stored at_ | unread at_ =>
      simp only [at_] at tail
      exact tail
  | @announced after at_ =>
      simp only [at_] at tail
      cases after <;> exact tail
  | harvested at_ =>
      simp only [at_] at tail
      exact ⟨rfl, tail⟩
  | published at_ =>
      simp only [at_] at tail
      obtain ⟨rfl, -, open_⟩ := tail
      exact ⟨rfl, open_⟩
  | closed at_ =>
      simp only [at_] at tail
      exact tail.1

/-- A snapshot is stored where there was none. -/
theorem Advances.snapshots {first : Header} {s t : Response} (advances : Advances s t) (head : s.Head first)
    (tail : s.Tail) :
    (s.initial = none ∨ t.initial = s.initial) ∧ (s.trailing = none ∨ t.trailing = s.trailing) := by
  unfold Response.Head at head
  unfold Response.Tail at tail
  cases advances with
  | stored at_ =>
      simp only [at_] at head
      exact ⟨.inl head.2.2.1, .inr rfl⟩
  | published at_ =>
      simp only [at_] at tail
      exact ⟨.inr rfl, .inl tail.2.1⟩
  | announced | unread | harvested | closed => exact ⟨.inr rfl, .inr rfl⟩

/-- What a read does: it ends a write, takes a part of one, or sees the end of the body. -/
inductive Reads (s : Response) : Response → Prop where
  | last {chunk : Bytes} (at_ : s.stage = .writing chunk) : Reads s { s with stage := .running }
  | part {chunk rest : Bytes} (at_ : s.stage = .writing chunk) : Reads s { s with stage := .writing rest }
  | ended (at_ : s.stage = .finished) : Reads s { s with ended := true }

theorem read_cases {s t : Response} {n : Nat} (moved : s.read n = some t) : Reads s t := by
  unfold Response.read at moved
  split at moved
  · cases moved
  · split at moved
    · rename_i chunk writing
      cases moved
      split
      · exact .last writing
      · exact .part writing
    · rename_i finished
      cases moved
      exact .ended finished
    · cases moved

theorem Reads.keeps {s t : Response} (reads : Reads s t) :
    t.header = s.header ∧ t.committed = s.committed := by
  cases reads <;> exact ⟨rfl, rfl⟩

theorem Reads.snapshots {s t : Response} (reads : Reads s t) :
    t.initial = s.initial ∧ t.trailing = s.trailing := by
  cases reads <;> exact ⟨rfl, rfl⟩

theorem Reads.head {first : Header} {s t : Response} (reads : Reads s t) (head : s.Head first) :
    t.Head first := by
  unfold Response.Head at head ⊢
  cases reads with
  | last at_ =>
      simp only [at_] at head
      exact (if_pos head.1).mpr head.2
  | part at_ | ended at_ =>
      simp only [at_] at head ⊢
      exact head

theorem Reads.tail {s t : Response} (reads : Reads s t) (tail : s.Tail) : t.Tail := by
  unfold Response.Tail at tail ⊢
  cases reads with
  | last at_ | part at_ | ended at_ =>
      simp only [at_] at tail ⊢
      exact tail

/-- A commit computes the head at once, if it is the first. -/
theorem commit_told {labels : List Label} {label : Label} {s : Response} (told : Told labels s)
    (running : s.stage = .running) (commits : label.commits = true) (keeps : ∀ h, label.mutate h = h)
    (after : After) : Told (labels ++ [label]) (s.commit after) := by
  obtain ⟨header, begun, head, tail⟩ := told
  unfold Response.Head at head
  unfold Response.Tail at tail
  simp only [running] at head tail
  have same : headerAfter (labels ++ [label]) = headerAfter labels := by rw [headerAfter_concat, keeps]
  have any : (labels ++ [label]).any Label.commits = true := by
    rw [List.any_append, List.any_cons, commits, Bool.true_or, Bool.or_true]
  unfold Response.commit
  cases committed : s.committed with
  | true =>
      rw [committed] at begun
      simp only [committed, if_true] at head
      rw [if_pos rfl]
      have stays := headerAtCommit_begun begun.symm label
      refine ⟨header.trans same.symm, any.symm, ?_, ?_⟩
      · rw [stays]
        cases after with
        | write chunk => exact ⟨rfl, head⟩
        | back => exact head
        | finish => exact ⟨rfl, head⟩
      · cases after <;> exact tail
  | false =>
      rw [committed] at begun
      simp only [committed, Bool.false_eq_true, if_false] at head
      rw [if_neg Bool.false_ne_true]
      refine ⟨header.trans same.symm, any.symm, ?_, tail⟩
      rw [headerAtCommit_first begun.symm commits]
      exact ⟨rfl, congrArg splitInitial header, head⟩

theorem Response.Head.uncommitted {first other : Header} {s : Response} (head : s.Head first)
    (none : s.committed = false) : s.Head other := by
  unfold Response.Head at head ⊢
  cases stage : s.stage with
  | running =>
      simp only [stage, none, Bool.false_eq_true, if_false] at head ⊢
      exact head
  | storing | announcing | writing | harvesting | publishing | closing | finished =>
      simp only [stage] at head
      cases none.symm.trans head.1

theorem any_concat {labels : List Label} {label : Label} (silent : label.commits = false) :
    (labels ++ [label]).any Label.commits = labels.any Label.commits := by
  rw [List.any_append, List.any_cons, silent, List.any_nil, Bool.or_false, Bool.or_false]

/-- Before the first commit it is open what the head will be, and then it is fixed. -/
theorem Told.head_concat {labels : List Label} {s : Response} (told : Told labels s) (label : Label) :
    s.Head (splitInitial (headerAtCommit (labels ++ [label]))) := by
  cases begun : labels.any Label.commits with
  | true =>
      rw [headerAtCommit_begun begun]
      exact told.head
  | false => exact told.head.uncommitted (told.begun.trans begun)

/-- What neither commits nor changes the header map leaves the record as it is. -/
theorem silent_told {labels : List Label} {label : Label} {s t : Response} (told : Told labels s)
    (silent : label.commits = false) (keeps : ∀ h, label.mutate h = h)
    (same : t.header = s.header ∧ t.committed = s.committed)
    (head : ∀ first, s.Head first → t.Head first) (tail : t.Tail) : Told (labels ++ [label]) t where
  header := by rw [same.1, headerAfter_concat, keeps, told.header]
  begun := by rw [same.2, told.begun, any_concat silent]
  head := head _ (told.head_concat label)
  tail := tail

/-- A mutation between the calls touches no snapshot. -/
theorem mutate_told {labels : List Label} {label : Label} {s : Response} (told : Told labels s)
    (running : s.stage = .running) (silent : label.commits = false) :
    Told (labels ++ [label]) { s with header := label.mutate s.header } where
  header := by rw [headerAfter_concat, told.header]
  begun := by rw [any_concat silent, ← told.begun]
  head := told.head_concat label
  tail := by
    have tail := told.tail
    unfold Response.Tail at tail ⊢
    simp only [running] at tail ⊢
    exact tail

theorem step_told {labels : List Label} {label : Label} {s t : Response} (told : Told labels s)
    (moved : step s label = some t) : Told (labels ++ [label]) t := by
  rcases step_cases moved with ⟨running, handled⟩ | ⟨rfl, advanced⟩ | ⟨n, rfl, read⟩ | ⟨rfl, rfl⟩
  · cases label with
    | assign key values =>
        cases handled
        exact mutate_told told running rfl
    | delete key =>
        cases handled
        exact mutate_told told running rfl
    | write chunk =>
        cases handled
        exact commit_told told running rfl (fun _ => rfl) _
    | writeHeader =>
        cases handled
        exact commit_told told running rfl (fun _ => rfl) _
    | flush =>
        cases handled
        exact commit_told told running rfl (fun _ => rfl) _
    | ret =>
        cases handled
        exact commit_told told running rfl (fun _ => rfl) _
    | advance => cases handled
    | read n => cases handled
    | closeRead => cases handled
  · have advances := advance_cases advanced
    exact silent_told told rfl (fun _ => rfl) advances.keeps (fun _ => advances.head)
      (advances.tail told.tail)
  · have reads := read_cases read
    exact silent_told told rfl (fun _ => rfl) reads.keeps (fun _ => reads.head) (reads.tail told.tail)
  · exact silent_told told rfl (fun _ => rfl) ⟨rfl, rfl⟩ (fun _ head => head) told.tail

theorem run_told {labels : List Label} {s : Response} (run : Machine.run step start labels = some s) :
    Told labels s := by
  have beginning : Told [] start := ⟨rfl, rfl, ⟨rfl, rfl⟩, ⟨rfl, rfl⟩⟩
  have told := Machine.run_invariant_trace (I :=
    Told) (fun _ _ _ _ told moved => step_told told moved) beginning run
  rwa [List.nil_append, List.flatMap_singleton'] at told

theorem commit_snapshots (s : Response) (after : After) :
    (s.commit after).initial = s.initial ∧ (s.commit after).trailing = s.trailing := by
  unfold Response.commit
  split <;> exact ⟨rfl, rfl⟩

theorem handle_snapshots {s t : Response} {label : Label} (handled : s.handle label = some t) :
    t.initial = s.initial ∧ t.trailing = s.trailing := by
  cases label with
  | assign | delete =>
      cases handled
      exact ⟨rfl, rfl⟩
  | write | writeHeader | flush | ret =>
      cases handled
      exact commit_snapshots s _
  | advance | read | closeRead => cases handled

theorem step_snapshots {labels : List Label} {label : Label} {s t : Response} (told : Told labels s)
    (moved : step s label = some t) :
    (s.initial = none ∨ t.initial = s.initial) ∧ (s.trailing = none ∨ t.trailing = s.trailing) := by
  rcases step_cases moved with ⟨_, handled⟩ | ⟨rfl, advanced⟩ | ⟨n, rfl, read⟩ | ⟨rfl, rfl⟩
  · exact (handle_snapshots handled).imp .inr .inr
  · exact (advance_cases advanced).snapshots told.head told.tail
  · exact (read_cases read).snapshots.imp .inr .inr
  · exact ⟨.inr rfl, .inr rfl⟩

/-- What a reader found in a snapshot it finds there ever after. -/
theorem run_snapshots {labels more : List Label} {s t : Response} (told : Told labels s)
    (run : Machine.run step s more = some t) :
    (s.initial = none ∨ t.initial = s.initial) ∧ (s.trailing = none ∨ t.trailing = s.trailing) := by
  induction more generalizing labels s with
  | nil =>
      cases run
      exact ⟨.inr rfl, .inr rfl⟩
  | cons label more ih =>
      obtain ⟨next, moved, rest⟩ := Machine.run_cons_inv run
      obtain ⟨initial, trailing⟩ := step_snapshots told moved
      obtain ⟨initial', trailing'⟩ := ih (step_told told moved) rest
      constructor
      · rcases initial with none | same
        · exact .inl none
        · rwa [same] at initial'
      · rcases trailing with none | same
        · exact .inl none
        · rwa [same] at trailing'

/-- The trailer contract: the names declared at the first commit are those declared at the
end, and declared names and prefixed keys are all different in canonical form. -/
structure Contract (atCommit atReturn : Header) : Prop where
  declared : ∀ name, name ∈ declaredTrailers atReturn ↔ name ∈ declaredTrailers atCommit
  distinct : Distinct atReturn

/-- The two snapshots of a response after some labels, and what its reader may rely on. -/
structure Splits (labels : List Label) (s : Response) : Prop where
  announced : s.ready = true → s.initial ≠ none
  initial : ∀ initial, s.initial = some initial → ∀ key, initial.lookup key =
    if key ∈ declaredTrailers (headerAtCommit labels) ∨ hasPrefix key = true then none
    else (headerAtCommit labels).lookup key
  frozen : ∀ initial, s.initial = some initial →
    ∀ more t, Machine.run step s more = some t → t.initial = some initial
  declared : Contract (headerAtCommit labels) (headerAfter labels) → ∀ trailing, s.trailing = some trailing →
    ∀ name ∈ declaredTrailers (headerAtCommit labels), ∀ values,
      (headerAfter labels).lookup name = some values → trailing.lookup name = some values
  prefixed : Distinct (headerAfter labels) → ∀ trailing, s.trailing = some trailing →
    ∀ raw values, (headerAfter labels).lookup (trailerPrefix ++ raw) = some values →
      trailing.lookup (canonicalMIMEHeaderKey raw) = some values
  both : Contract (headerAtCommit labels) (headerAfter labels) →
    ∀ initial trailing, s.initial = some initial →
    s.trailing = some trailing → ∀ key ∈ initial, key ∈ trailing →
      key ∈ headerAtCommit labels ∧ key ∉ declaredTrailers (headerAtCommit labels) ∧
        ∃ raw, canonicalMIMEHeaderKey raw = key ∧ trailerPrefix ++ raw ∈ headerAfter labels
  finished : s.stage = .finished → s.trailing ≠ none
  ended : s.ended = true → ∃ trailing, s.trailing = some trailing ∧
    ∀ more t, Machine.run step s more = some t → t.trailing = some trailing

/-- The head is in place before it is announced. -/
theorem Response.Head.snapshot {first : Header} {s : Response} (head : s.Head first) :
    s.initial = some first ∨ s.initial = none ∧ s.ready = false := by
  unfold Response.Head at head
  cases stage : s.stage with
  | running =>
      simp only [stage] at head
      split at head
      · exact .inl head
      · exact .inr head
  | storing after computed =>
      simp only [stage] at head
      exact .inr head.2.2
  | announcing | writing | harvesting | publishing | closing | finished =>
      simp only [stage] at head
      exact .inl head.2

/-- The end of the body is seen only when the trailers are in place. -/
theorem Response.Tail.snapshot {s : Response} (tail : s.Tail) :
    s.trailing = some (harvest s.header) ∨ s.trailing = none ∧ s.ended = false := by
  unfold Response.Tail at tail
  cases stage : s.stage with
  | publishing computed =>
      simp only [stage] at tail
      exact .inr tail.2
  | closing =>
      simp only [stage] at tail
      exact .inl tail.1
  | finished =>
      simp only [stage] at tail
      exact .inl tail
  | running | storing | announcing | writing | harvesting =>
      simp only [stage] at tail
      exact .inr tail

theorem Told.initial {labels : List Label} {s : Response} (told : Told labels s) {initial : Header}
    (stored : s.initial = some initial) : initial = splitInitial (headerAtCommit labels) := by
  rcases told.head.snapshot with same | ⟨none, -⟩
  · exact Option.some.inj (stored.symm.trans same)
  · cases stored.symm.trans none

theorem Told.trailing {labels : List Label} {s : Response} (told : Told labels s) {trailing : Header}
    (stored : s.trailing = some trailing) : trailing = harvest (headerAfter labels) := by
  rw [← told.header]
  rcases told.tail.snapshot with same | ⟨none, -⟩
  · exact Option.some.inj (stored.symm.trans same)
  · cases stored.symm.trans none

theorem Told.ended {labels : List Label} {s : Response} (told : Told labels s) (ended : s.ended = true) :
    s.trailing = some (harvest s.header) := by
  rcases told.tail.snapshot with same | ⟨-, unseen⟩
  · exact same
  · cases ended.symm.trans unseen

theorem Told.announced {labels : List Label} {s : Response} (told : Told labels s) (ready : s.ready = true) :
    s.initial ≠ none := by
  rcases told.head.snapshot with same | ⟨-, waiting⟩
  · rw [same]
    exact Option.some_ne_none _
  · cases ready.symm.trans waiting

theorem Told.finished {labels : List Label} {s : Response} (told : Told labels s)
    (stage : s.stage = .finished) :
    s.trailing ≠ none := by
  have tail := told.tail
  unfold Response.Tail at tail
  simp only [stage] at tail
  rw [tail]
  exact Option.some_ne_none _

theorem isSome_of_mem {h : Header} {key : Bytes} (member : key ∈ h) : ∃ values, h.lookup key = some values :=
  Option.isSome_iff_exists.mp (AList.lookup_isSome.mpr member)

theorem mem_of_lookup {h : Header} {key : Bytes} {values : List Bytes} (found : h.lookup key = some values) :
    key ∈ h := by
  apply AList.lookup_isSome.mp
  rw [found]
  rfl

/-- A key in both halves was a plain one at the first commit and came again under the prefix. -/
theorem split_both {first last : Header} (contract : Contract first last) {key : Bytes}
    (head : key ∈ splitInitial first) (tail : key ∈ harvest last) :
    key ∈ first ∧ key ∉ declaredTrailers first ∧
      ∃ raw, canonicalMIMEHeaderKey raw = key ∧ trailerPrefix ++ raw ∈ last := by
  obtain ⟨values, found⟩ := isSome_of_mem head
  obtain ⟨others, harvested⟩ := isSome_of_mem tail
  rw [splitInitial_lookup] at found
  split at found
  · cases found
  · rename_i plain
    rw [not_or] at plain
    refine ⟨mem_of_lookup found, plain.1, ?_⟩
    rcases harvest_some harvested with declared | prefixed
    · exact absurd ((contract.declared key).mp declared.1) plain.1
    · obtain ⟨raw, same, there⟩ := prefixed
      exact ⟨raw, same, mem_of_lookup there⟩

/-- In every order of the handler's and the reader's steps the response splits. -/
theorem response_splits (labels : List Label) (s : Response) (run : Machine.run step start labels = some s) :
    Splits labels s := by
  have told := run_told run
  refine ⟨told.announced, ?_, ?_, ?_, ?_, ?_, told.finished, ?_⟩
  · intro initial stored key
    rw [told.initial stored, splitInitial_lookup]
  · intro initial stored more t further
    rcases (run_snapshots told further).1 with none | same
    · cases none.symm.trans stored
    · exact same.trans stored
  · intro contract trailing stored name declared values there
    rw [told.trailing stored]
    exact harvest_declared contract.distinct ((contract.declared name).mpr declared) there
  · intro distinct trailing stored raw values there
    rw [told.trailing stored]
    exact harvest_prefixed distinct there
  · intro contract initial trailing head tail key first last
    rw [told.initial head] at first
    rw [told.trailing tail] at last
    exact split_both contract first last
  · intro ended
    have stored := told.ended ended
    refine ⟨_, stored, fun more t further => ?_⟩
    rcases (run_snapshots told further).2 with none | same
    · cases none.symm.trans stored
    · exact same.trans stored

def key : Bytes := utf8 "X"

/-- The handler sends `X` in its head and again under the trailer prefix. -/
def sentTwice : List Label :=
  [.assign key [utf8 "1"], .flush, .advance, .advance, .assign (trailerPrefix ++ key) [utf8 "2"],
    .ret, .advance,
    .advance, .advance, .read 1]

def grpcStatus : Bytes := utf8 "Grpc-Status"

/-- The handler declares `Grpc-Status`, sends its head, and drops the `Trailer` header before
it sets the value. -/
def forgotten : List Label :=
  [.assign trailer [grpcStatus], .flush, .advance, .advance, .delete trailer,
    .assign grpcStatus [utf8 "5"], .ret,
    .advance, .advance, .advance, .read 1]

theorem sentTwice_splits : ∃ s, Machine.run step start sentTwice = some s ∧ Splits sentTwice s :=
  ⟨_, rfl, response_splits sentTwice _ rfl⟩

/-- A key stands in both snapshots, and a declared name with a value stands in none of the
trailers. -/
theorem trailers_not_apart :
    (∃ s initial trailing, Machine.run step start sentTwice = some s ∧ s.ended = true ∧
      s.initial = some initial ∧ s.trailing = some trailing ∧
      Contract (headerAtCommit sentTwice) (headerAfter sentTwice) ∧ key ∈ initial ∧ key ∈ trailing) ∧
    ∃ s trailing, Machine.run step start forgotten = some s ∧ s.ended = true ∧ s.trailing = some trailing ∧
      Distinct (headerAfter forgotten) ∧ grpcStatus ∈ declaredTrailers (headerAtCommit forgotten) ∧
      (headerAfter forgotten).lookup grpcStatus = some [utf8 "5"] ∧ grpcStatus ∉ trailing := by
  constructor
  · refine ⟨_, _, _, rfl, rfl, rfl, rfl, ⟨fun name => Iff.rfl, ?_⟩, ?_, ?_⟩
    · decide
    · decide
    · decide
  · refine ⟨_, _, rfl, rfl, rfl, ?_, ?_, rfl, ?_⟩
    · decide
    · decide
    · decide

end GrpcWebnext.GoDispatch
