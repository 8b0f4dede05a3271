import GrpcWebnext.Library.Machine
import GrpcWebnext.Library.ProtoWire
import GrpcWebnext.Metadata
import GrpcWebnext.Reflect.TopoSort
import Mathlib.Data.List.Dedup
import Mathlib.Data.List.Perm.Subperm
import Mathlib.Tactic.Tauto

/-! The driver that fetches a service's files by reflection. Each file names the files it
depends on, and the driver asks for those it has not met; a count of unanswered requests
tells it when it is done. -/
namespace GrpcWebnext.Reflect
open Framing (Bytes)
open Text (Str)

structure Status where
  code : Nat
  message : Str
deriving DecidableEq

inductive MessageRequest where
  | fileContainingSymbol (symbol : Str)
  | fileByFilename (name : Str)
deriving DecidableEq

/-- An answer with another message, or with none, is passed over. -/
inductive MessageResponse where
  | fileDescriptorResponse (protos : List Bytes)
  | errorResponse (code : Int) (message : Str)
  | other
deriving DecidableEq

/-- `Code::from` of a number. -/
def codeFrom (n : Int) : Nat := if 0 ≤ n ∧ n ≤ 16 then n.toNat else Code.unknown

def channelClosed : Status := ⟨Code.internal, "reflection request channel closed".toList⟩

/-- The locals of the driver, what it sent, the requests no answer has come to, and what it
returned if it is through. -/
structure Driver where
  files : FileMap
  requested : List Str
  pending : Nat
  sent : List MessageRequest
  outstanding : List MessageRequest
  result : Option (Except Status FileMap)

def Driver.fail (s : Driver) (status : Status) : Driver := { s with result := some (.error status) }

def Driver.send (s : Driver) (request : MessageRequest) : Driver :=
  { s with pending := s.pending + 1, sent := s.sent ++ [request],
           outstanding := s.outstanding ++ [request] }

def Driver.answered (s : Driver) (request : MessageRequest) : Driver :=
  { s with pending := s.pending - 1, outstanding := s.outstanding.erase request }

/-- The driver up to its loop: the stream opens, and the first request goes out. -/
def fetch (opened : Except Status Unit) (accepted : Bool) (symbol : Str) : Driver :=
  let s : Driver := ⟨∅, [], 0, [], [], none⟩
  match opened with
  | .error status => s.fail status
  | .ok _ => if accepted then s.send (.fileContainingSymbol symbol) else s.fail channelClosed

/-- The inner loop over the dependencies of one file; `accepts` says which requests the
channel still takes. -/
def chase (accepts : Str → Bool) : List Str → Driver → Driver
  | [], s => s
  | dep :: deps, s =>
      if dep ∉ s.files ∧ s.requested.contains dep = false then
        let s := { s with requested := dep :: s.requested }
        if accepts dep then chase accepts deps (s.send (.fileByFilename dep)) else s.fail channelClosed
      else chase accepts deps s

section FileMeta
variable (fileMeta : Bytes → Except Status (Str × List Str))

/-- The loop over the files of one answer. -/
def receive (accepts : Str → Bool) : List Bytes → Driver → Driver
  | [], s => s
  | raw :: raws, s => match fileMeta raw with
    | .error status => s.fail status
    | .ok (name, deps) =>
        let s := chase accepts deps s
        if s.result.isSome then s
        else receive accepts raws { s with files := s.files.insert name ⟨raw, deps⟩ }

def handle (accepts : Str → Bool) (response : MessageResponse) (s : Driver) : Driver :=
  match response with
  | .fileDescriptorResponse protos => receive fileMeta accepts protos s
  | .errorResponse code message => s.fail ⟨codeFrom code, message⟩
  | .other => s

/-- The condition of the outer loop. -/
def Driver.proceed (s : Driver) : Driver :=
  if s.result = none ∧ s.pending = 0 then { s with result := some (.ok s.files) } else s

/-- What `message` yields: an answer to some request, a status, or the end of the stream. -/
inductive Event where
  | answer (request : MessageRequest) (response : MessageResponse) (accepts : Str → Bool)
  | failed (status : Status)
  | ended

def step (s : Driver) (event : Event) : Option Driver :=
  if s.result.isSome then none
  else match event with
    | .answer request response accepts =>
        some (handle fileMeta accepts response (s.answered request)).proceed
    | .failed status => some (s.fail status)
    | .ended => some { s with result := some (.ok s.files) }

/-- A server that answers what it was asked, and a request for a file by an error or with
that file among others. -/
def Honest (s : Driver) : Event → Prop
  | .answer request response _ => request ∈ s.outstanding ∧
      match request, response with
      | .fileByFilename name, .fileDescriptorResponse protos =>
          ∃ raw ∈ protos, ∃ deps, fileMeta raw = .ok (name, deps)
      | .fileByFilename _, .other => False
      | _, _ => True
  | _ => True

end FileMeta

/-- What one file's dependencies make of the driver, and the requests that went out. -/
structure Chased (deps added : List Str) (s t : Driver) : Prop where
  files : t.files = s.files
  sent : t.sent = s.sent ++ added.map .fileByFilename
  outstanding : t.outstanding = s.outstanding ++ added.map .fileByFilename
  pending : t.pending = s.pending + added.length
  distinct : added.Nodup
  fresh : ∀ name ∈ added, name ∉ s.requested
  noted : added ⊆ t.requested
  kept : s.requested ⊆ t.requested
  asked : ∀ name ∈ t.requested, name ∈ s.requested ∨ name ∈ deps
  out : t.result = none → ∀ name ∈ t.requested, name ∈ s.requested ∨ name ∈ added
  covered : t.result = none → ∀ dep ∈ deps, dep ∈ s.files ∨ dep ∈ t.requested
  failed : ∀ files, t.result ≠ some (.ok files)

theorem Chased.nil {s : Driver} (running : s.result = none) : Chased [] [] s s where
  files := rfl
  sent := (List.append_nil _).symm
  outstanding := (List.append_nil _).symm
  pending := rfl
  distinct := List.nodup_nil
  fresh := List.forall_mem_nil _
  noted := List.nil_subset _
  kept := List.Subset.refl _
  asked := fun _ => .inl
  out := fun _ _ => .inl
  covered := fun _ => List.forall_mem_nil _
  failed := fun files same => by rw [running] at same; cases same

/-- A name that is in the map or asked for makes no request. -/
theorem Chased.known {dep : Str} {deps added : List Str} {s t : Driver}
    (known : ¬ (dep ∉ s.files ∧ dep ∉ s.requested)) (chased : Chased deps added s t) :
    Chased (dep :: deps) added s t :=
  { chased with
    asked := fun name present => (chased.asked name present).imp_right (List.mem_cons_of_mem _)
    covered := by
      intro going name member
      rcases List.mem_cons.mp member with rfl | later
      · by_cases present : name ∈ s.files
        · exact .inl present
        · exact .inr (chased.kept (not_not.mp fun fresh => known ⟨present, fresh⟩))
      · exact chased.covered going name later }

theorem requested_or {name dep : Str} {before later : List Str}
    (known : name ∈ dep :: before ∨ name ∈ later) : name ∈ before ∨ name ∈ dep :: later := by
  rw [List.mem_cons] at known ⊢
  tauto

/-- A new name is noted and asked for, and then the others are. -/
theorem Chased.ask {dep : Str} {deps added : List Str} {s t : Driver} (fresh : dep ∉ s.requested)
    (chased : Chased deps added (Driver.send { s with requested := dep :: s.requested }
      (.fileByFilename dep)) t) : Chased (dep :: deps) (dep :: added) s t where
  files := chased.files
  sent := by
    rw [chased.sent, List.map_cons]
    exact List.append_assoc _ _ _
  outstanding := by
    rw [chased.outstanding, List.map_cons]
    exact List.append_assoc _ _ _
  pending := by
    rw [chased.pending, List.length_cons]
    exact Nat.succ_add_eq_add_succ _ _
  distinct := by
    apply List.nodup_cons.mpr
    exact ⟨fun again => chased.fresh dep again List.mem_cons_self, chased.distinct⟩
  fresh := by
    intro name member
    rcases List.mem_cons.mp member with rfl | later
    · exact fresh
    · exact fun known => chased.fresh name later (List.mem_cons_of_mem _ known)
  noted := List.cons_subset.mpr ⟨chased.kept List.mem_cons_self, chased.noted⟩
  kept := fun _ known => chased.kept (List.mem_cons_of_mem _ known)
  asked := fun name known => requested_or (chased.asked name known)
  out := fun going name known => requested_or (chased.out going name known)
  covered := by
    intro going name member
    rcases List.mem_cons.mp member with rfl | later
    · exact .inr (chased.kept List.mem_cons_self)
    · exact chased.covered going name later
  failed := chased.failed

/-- The channel takes no request any more. -/
theorem Chased.closed (dep : Str) (deps : List Str) (s : Driver) (status : Status) :
    Chased (dep :: deps) [] s (Driver.fail { s with requested := dep :: s.requested } status) where
  files := rfl
  sent := (List.append_nil _).symm
  outstanding := (List.append_nil _).symm
  pending := rfl
  distinct := List.nodup_nil
  fresh := List.forall_mem_nil _
  noted := List.nil_subset _
  kept := List.subset_cons_self _ _
  asked := by
    intro name known
    rcases List.mem_cons.mp known with rfl | before
    · exact .inr List.mem_cons_self
    · exact .inl before
  out := fun going => nomatch going
  covered := fun going => nomatch going
  failed := fun _ same => nomatch same

theorem chase_chased (accepts : Str → Bool) (deps : List Str) :
    ∀ s : Driver, s.result = none → ∃ added, Chased deps added s (chase accepts deps s) := by
  induction deps with
  | nil =>
      intro s running
      exact ⟨[], .nil running⟩
  | cons dep deps ih =>
      intro s running
      rw [chase]
      split
      · rename_i new
        have fresh : dep ∉ s.requested := mt List.contains_iff_mem.mpr (Bool.eq_false_iff.mp new.2)
        dsimp only
        split
        · obtain ⟨added, chased⟩ :=
            ih (Driver.send { s with requested := dep :: s.requested } (.fileByFilename dep)) running
          exact ⟨dep :: added, chased.ask fresh⟩
        · exact ⟨[], .closed dep deps s channelClosed⟩
      · rename_i old
        obtain ⟨added, chased⟩ := ih s running
        refine ⟨added, chased.known fun new => old ⟨new.1, ?_⟩⟩
        exact Bool.eq_false_iff.mpr (mt List.contains_iff_mem.mp new.2)

/-- The dependencies that some files name, as far as the files can be read. -/
def dependencies (fileMeta : Bytes → Except Status (Str × List Str)) (raws : List Bytes) : List Str :=
  raws.flatMap fun raw => match fileMeta raw with
    | .ok (_, deps) => deps
    | .error _ => []

/-- The last of some files that has a name. -/
def latest (fileMeta : Bytes → Except Status (Str × List Str)) (raws : List Bytes) (name : Str) :
    Option RawFile :=
  raws.foldl (fun found raw => match fileMeta raw with
    | .ok (other, deps) => if other = name then some ⟨raw, deps⟩ else found
    | .error _ => found) none

/-- The files of an answer. -/
def Event.protos : Event → List Bytes
  | .answer _ (.fileDescriptorResponse protos) _ => protos
  | _ => []

/-- Every dependency of a file of the map is in the map. -/
def FileMap.Closed (files : FileMap) : Prop :=
  ∀ name file, files.lookup name = some file → ∀ dep ∈ file.deps, dep ∈ files

section FileMeta
variable {fileMeta : Bytes → Except Status (Str × List Str)}

theorem mem_dependencies {raws : List Bytes} {raw : Bytes} {name : Str} {deps : List Str}
    (member : raw ∈ raws) (read : fileMeta raw = .ok (name, deps)) : deps ⊆ dependencies fileMeta raws := by
  intro dep inside
  refine List.mem_flatMap.mpr ⟨raw, member, ?_⟩
  rw [read]
  exact inside

theorem dependencies_mono {raws more : List Bytes} (sub : raws ⊆ more) :
    dependencies fileMeta raws ⊆ dependencies fileMeta more := by
  intro dep member
  obtain ⟨raw, inside, named⟩ := List.mem_flatMap.mp member
  exact List.mem_flatMap.mpr ⟨raw, sub inside, named⟩

theorem latest_concat {raw : Bytes} {other : Str} {deps : List Str} (read : fileMeta raw = .ok (other, deps))
    (raws : List Bytes) (name : Str) : latest fileMeta (raws ++ [raw]) name =
      if other = name then some ⟨raw, deps⟩ else latest fileMeta raws name := by
  rw [latest, List.foldl_append, List.foldl_cons, read]
  rfl

/-- What the driver has done, beside what it was sent: no name is asked for twice, each
comes from a file received, and the map holds the last file of every name. -/
structure Recorded (fileMeta : Bytes → Except Status (Str × List Str)) (received : List Bytes)
    (s : Driver) : Prop where
  sends : ∃ (first : Option Str) (names : List Str), names.Nodup ∧ names ⊆ s.requested ∧
    s.sent = first.toList.map .fileContainingSymbol ++ names.map .fileByFilename
  asked : s.requested ⊆ dependencies fileMeta received
  files : (∀ status, s.result ≠ some (.error status)) →
    ∀ name, s.files.lookup name = latest fileMeta received name
  readable : (∀ status, s.result ≠ some (.error status)) → ∀ raw ∈ received, ∃ item, fileMeta raw = .ok item

/-- A driver that runs has not failed. -/
theorem Driver.fine {s : Driver} (running : s.result = none) (status : Status) :
    s.result ≠ some (.error status) := by
  rw [running]
  exact (Option.some_ne_none _).symm

/-- What the driver returns is the map it has. -/
theorem Recorded.returns {received : List Bytes} {s : Driver} (recorded : Recorded fileMeta received s)
    (running : s.result = none) : Recorded fileMeta received { s with result := some (.ok s.files) } where
  sends := recorded.sends
  asked := recorded.asked
  files := fun _ => recorded.files (Driver.fine running)
  readable := fun _ => recorded.readable (Driver.fine running)

theorem Recorded.more {received more : List Bytes} {s : Driver} {status : Status}
    (recorded : Recorded fileMeta received s) (sub : received ⊆ more) :
    Recorded fileMeta more (s.fail status) where
  sends := recorded.sends
  asked := List.Subset.trans recorded.asked (dependencies_mono sub)
  files := fun fine => absurd rfl (fine status)
  readable := fun fine => absurd rfl (fine status)

/-- The dependencies of one file keep the record, once the file is among those received. -/
theorem Recorded.chased {received : List Bytes} {raw : Bytes} {name : Str} {deps added : List Str}
    {s t : Driver} (read : fileMeta raw = .ok (name, deps)) (recorded : Recorded fileMeta received s)
    (chased : Chased deps added s t) :
    (∃ (first : Option Str) (names : List Str), names.Nodup ∧ names ⊆ t.requested ∧
      t.sent = first.toList.map .fileContainingSymbol ++ names.map .fileByFilename) ∧
    t.requested ⊆ dependencies fileMeta (received ++ [raw]) := by
  constructor
  · obtain ⟨first, names, distinct, noted, sent⟩ := recorded.sends
    refine ⟨first, names ++ added, ?_, ?_, ?_⟩
    · apply List.nodup_append'.mpr
      refine ⟨distinct, chased.distinct, ?_⟩
      exact fun name before later => chased.fresh name later (noted before)
    · exact List.append_subset.mpr ⟨List.Subset.trans noted chased.kept, chased.noted⟩
    · rw [chased.sent, sent, List.map_append, List.append_assoc]
  · intro dep known
    rcases chased.asked dep known with before | member
    · exact dependencies_mono (List.subset_append_left _ _) (recorded.asked before)
    · exact mem_dependencies (List.mem_append_right _ List.mem_cons_self) read member

theorem receive_recorded (accepts : Str → Bool) (raws : List Bytes) :
    ∀ received s, s.result = none → Recorded fileMeta received s →
      Recorded fileMeta (received ++ raws) (receive fileMeta accepts raws s) := by
  induction raws with
  | nil =>
      intro received s _ recorded
      rwa [List.append_nil]
  | cons raw raws ih =>
      intro received s running recorded
      rw [receive]
      cases read : fileMeta raw with
      | error status => exact recorded.more (List.subset_append_left _ _)
      | ok item =>
          obtain ⟨name, deps⟩ := item
          obtain ⟨added, chased⟩ := chase_chased accepts deps s running
          obtain ⟨sends, asked⟩ := recorded.chased read chased
          have split : received ++ raw :: raws = received ++ [raw] ++ raws :=
            (List.append_cons received raw raws)
          dsimp only
          split
          · rename_i through
            obtain ⟨result, same⟩ := Option.isSome_iff_exists.mp through
            cases result with
            | ok files => exact absurd same (chased.failed files)
            | error status =>
                refine ⟨sends, ?_, fun fine => absurd same (fine status), fun fine =>
                  absurd same (fine status)⟩
                rw [split]
                exact List.Subset.trans asked (dependencies_mono (List.subset_append_left _ _))
          · rename_i going
            rw [split]
            apply ih
            · exact Option.not_isSome_iff_eq_none.mp going
            · refine ⟨sends, asked, ?_, ?_⟩
              · intro _ other
                rw [latest_concat read, ← recorded.files (Driver.fine running) other]
                dsimp only
                rw [chased.files]
                split
                · subst other
                  exact AList.lookup_insert _
                · exact AList.lookup_insert_ne (Ne.symm ‹_›)
              · intro _ other member
                rcases List.mem_append.mp member with before | last
                · exact recorded.readable (Driver.fine running) other before
                · rw [List.mem_singleton.mp last]
                  exact ⟨_, read⟩

/-- The names of some files, as far as the files can be read. -/
def names (fileMeta : Bytes → Except Status (Str × List Str)) (raws : List Bytes) : List Str :=
  raws.flatMap fun raw => match fileMeta raw with
    | .ok (name, _) => [name]
    | .error _ => []

/-- The pending count, the requested names and the map in step: what a file of the map
depends on is there or requested, and what is requested is there, yet to be answered, or
owed by the answer at hand. -/
structure Chasing (owed : List Str) (s : Driver) : Prop where
  counted : s.pending = s.outstanding.length
  covered : ∀ name file, s.files.lookup name = some file →
    ∀ dep ∈ file.deps, dep ∈ s.files ∨ dep ∈ s.requested
  awaited : ∀ name ∈ s.requested, name ∈ s.files ∨ .fileByFilename name ∈ s.outstanding ∨ name ∈ owed

theorem Chasing.chased {owed deps added : List Str} {s t : Driver} (chasing : Chasing owed s)
    (chased : Chased deps added s t) (going : t.result = none) : Chasing owed t where
  counted := by
    rw [chased.pending, chased.outstanding, List.length_append, List.length_map, chasing.counted]
  covered := by
    rw [chased.files]
    intro name file found dep member
    exact (chasing.covered name file found dep member).imp_right fun known => chased.kept known
  awaited := by
    rw [chased.files, chased.outstanding]
    intro name known
    rcases chased.out going name known with before | new
    · rcases chasing.awaited name before with present | open_ | later
      · exact .inl present
      · exact .inr (.inl (List.mem_append_left _ open_))
      · exact .inr (.inr later)
    · exact .inr (.inl (List.mem_append_right _ (List.mem_map_of_mem new)))

/-- A file goes into the map when all it depends on is there or requested. -/
theorem Chasing.insert {owed : List Str} {name : Str} {file : RawFile} {s : Driver}
    (chasing : Chasing (name :: owed) s) (named : ∀ dep ∈ file.deps, dep ∈ s.files ∨ dep ∈ s.requested) :
    Chasing owed { s with files := s.files.insert name file } where
  counted := chasing.counted
  covered := by
    intro other found same dep member
    have stays : dep ∈ s.files ∨ dep ∈ s.requested → dep ∈ s.files.insert name file ∨ dep ∈ s.requested :=
      Or.imp_left fun present => (AList.mem_insert _).mpr (.inr present)
    by_cases here : other = name
    · subst here
      cases (AList.lookup_insert s.files).symm.trans same
      exact stays (named dep member)
    · rw [AList.lookup_insert_ne here] at same
      exact stays (chasing.covered other found same dep member)
  awaited := by
    intro other known
    rcases chasing.awaited other known with present | open_ | later
    · exact .inl ((AList.mem_insert _).mpr (.inr present))
    · exact .inr (.inl open_)
    · rcases List.mem_cons.mp later with rfl | later
      · exact .inl ((AList.mem_insert _).mpr (.inl rfl))
      · exact .inr (.inr later)

theorem receive_chasing (accepts : Str → Bool) (raws : List Bytes) :
    ∀ s, s.result = none → Chasing (names fileMeta raws) s →
      (receive fileMeta accepts raws s).result = none → Chasing [] (receive fileMeta accepts raws s) := by
  induction raws with
  | nil =>
      intro s _ chasing _
      exact chasing
  | cons raw raws ih =>
      intro s running chasing
      rw [receive]
      rw [names, List.flatMap_cons, ← names] at chasing
      cases read : fileMeta raw with
      | error status => exact nofun
      | ok item =>
          obtain ⟨name, deps⟩ := item
          rw [read] at chasing
          obtain ⟨added, chased⟩ := chase_chased accepts deps s running
          dsimp only
          split
          · rename_i through
            intro going
            rw [going] at through
            cases through
          · rename_i through
            have going := Option.not_isSome_iff_eq_none.mp through
            apply ih
            · exact going
            · apply (chasing.chased chased going).insert
              rw [chased.files]
              exact chased.covered going

/-- The files of an answer end the loop with an error or not at all. -/
theorem receive_result (accepts : Str → Bool) (raws : List Bytes) :
    ∀ s files, s.result = none → (receive fileMeta accepts raws s).result ≠ some (.ok files) := by
  induction raws with
  | nil =>
      intro s files running same
      cases running.symm.trans same
  | cons raw raws ih =>
      intro s files running
      rw [receive]
      cases fileMeta raw with
      | error status => exact nofun
      | ok item =>
          obtain ⟨name, deps⟩ := item
          obtain ⟨added, chased⟩ := chase_chased accepts deps s running
          dsimp only
          split
          · exact chased.failed files
          · rename_i through
            exact ih _ files (Option.not_isSome_iff_eq_none.mp through)

theorem handle_recorded {received : List Bytes} {s : Driver} (running : s.result = none)
    (recorded : Recorded fileMeta received s) (request : MessageRequest) (response : MessageResponse)
    (accepts : Str → Bool) :
    Recorded fileMeta (received ++ (Event.answer request response accepts).protos)
      (handle fileMeta accepts response s) := by
  cases response with
  | fileDescriptorResponse protos => exact receive_recorded accepts protos received s running recorded
  | errorResponse code message => exact recorded.more (List.subset_append_left _ _)
  | other => exact (List.append_nil received).symm ▸ recorded

theorem handle_result {s : Driver} (running : s.result = none) (response : MessageResponse)
    (accepts : Str → Bool) (files : FileMap) :
    (handle fileMeta accepts response s).result ≠ some (.ok files) := by
  cases response with
  | fileDescriptorResponse protos => exact receive_result accepts protos s files running
  | errorResponse code message => exact nofun
  | other =>
      intro same
      cases running.symm.trans same

theorem mem_names {raws : List Bytes} {raw : Bytes} {name : Str} {deps : List Str}
    (member : raw ∈ raws) (read : fileMeta raw = .ok (name, deps)) : name ∈ names fileMeta raws := by
  refine List.mem_flatMap.mpr ⟨raw, member, ?_⟩
  rw [read]
  exact List.mem_cons_self

/-- A request is taken off the list by an answer that owes the name it asked for. -/
theorem Chasing.answered {owed : List Str} {s : Driver} {request : MessageRequest} (chasing : Chasing [] s)
    (open_ : request ∈ s.outstanding) (owes : ∀ name, request = .fileByFilename name → name ∈ owed) :
    Chasing owed (s.answered request) where
  counted := by rw [Driver.answered, List.length_erase_of_mem open_, ← chasing.counted]
  covered := chasing.covered
  awaited := by
    intro name known
    rcases chasing.awaited name known with present | open_ | owed
    · exact .inl present
    · by_cases same : request = .fileByFilename name
      · exact .inr (.inr (owes name same))
      · exact .inr (.inl ((List.mem_erase_of_ne (Ne.symm same)).mpr open_))
    · cases owed

/-- An honest answer pays for the request it takes off the list. -/
theorem handle_chasing {s : Driver} {request : MessageRequest} {response : MessageResponse}
    {accepts : Str → Bool} (running : s.result = none) (chasing : Chasing [] s)
    (honest : Honest fileMeta s (.answer request response accepts))
    (going : (handle fileMeta accepts response (s.answered request)).result = none) :
    Chasing [] (handle fileMeta accepts response (s.answered request)) := by
  obtain ⟨open_, answers⟩ := honest
  cases response with
  | fileDescriptorResponse protos =>
      refine receive_chasing accepts protos (s.answered request) running ?_ going
      apply chasing.answered open_
      rintro name rfl
      obtain ⟨raw, member, deps, read⟩ := answers
      exact mem_names member read
  | errorResponse code message => cases going
  | other =>
      apply chasing.answered open_
      rintro name rfl
      cases answers

/-- What the driver knows, runs on and has returned after some events. -/
structure Told (fileMeta : Bytes → Except Status (Str × List Str)) (events : List Event)
    (s : Driver) : Prop where
  recorded : Recorded fileMeta (events.flatMap Event.protos) s
  running : s.result = none → Chasing [] s ∧ 0 < s.pending ∧ .ended ∉ events
  returned : ∀ files, s.result = some (.ok files) → files = s.files
  complete : ∀ files, s.result = some (.ok files) → .ended ∉ events → files.Closed
  early : .ended ∈ events → s.outstanding ≠ [] ∧ ∃ files, s.result = some (.ok files)

theorem Chasing.closed {s : Driver} (chasing : Chasing [] s) (done : s.pending = 0) : s.files.Closed := by
  have nothing : s.outstanding = [] := List.eq_nil_of_length_eq_zero (chasing.counted.symm.trans done)
  intro name file found dep member
  rcases chasing.covered name file found dep member with present | known
  · exact present
  · rcases chasing.awaited dep known with present | open_ | owed
    · exact present
    · rw [nothing] at open_
      cases open_
    · cases owed

theorem fetch_told (opened : Except Status Unit) (accepted : Bool) (symbol : Str) :
    Told fileMeta [] (fetch opened accepted symbol) := by
  have nothing : ∀ (first : Option Str) (s : Driver), s.files = ∅ → s.requested = [] →
      s.sent = first.toList.map .fileContainingSymbol → Recorded fileMeta [] s := by
    intro first s empty none sent
    refine ⟨⟨first, [], List.nodup_nil, List.nil_subset _, ?_⟩, ?_, ?_, fun _ => List.forall_mem_nil _⟩
    · rw [sent, List.map_nil, List.append_nil]
    · rw [none]
      exact List.nil_subset _
    · intro _ name
      rw [empty]
      rfl
  cases opened with
  | error status =>
      exact ⟨nothing none _ rfl rfl rfl, nofun, nofun, nofun, nofun⟩
  | ok _ =>
      cases accepted with
      | false => exact ⟨nothing none _ rfl rfl rfl, nofun, nofun, nofun, nofun⟩
      | true =>
          refine ⟨nothing (some symbol) _ rfl rfl rfl, ?_, nofun, nofun, nofun⟩
          intro _
          exact ⟨⟨rfl, nofun, nofun⟩, Nat.one_pos, List.not_mem_nil⟩

theorem step_running {s t : Driver} {event : Event} (moved : step fileMeta s event = some t) :
    s.result = none := by
  unfold step at moved
  split at moved
  · cases moved
  · exact Option.not_isSome_iff_eq_none.mp ‹_›

theorem not_ended_concat {events : List Event} {event : Event} (before : .ended ∉ events)
    (other : event ≠ .ended) : .ended ∉ events ++ [event] := by
  rw [List.mem_append, List.mem_singleton, not_or]
  exact ⟨before, Ne.symm other⟩

theorem fail_told {events : List Event} {event : Event} {s : Driver} {status : Status}
    (recorded : Recorded fileMeta ((events ++ [event]).flatMap Event.protos) s)
    (before : .ended ∉ events) (other : event ≠ .ended) (failed : s.result = some (.error status)) :
    Told fileMeta (events ++ [event]) s where
  recorded := recorded
  running := fun going => nomatch failed.symm.trans going
  returned := fun _ same => nomatch failed.symm.trans same
  complete := fun _ same => nomatch failed.symm.trans same
  early := fun ended => absurd ended (not_ended_concat before other)

theorem proceed_told {events : List Event} {event : Event} {s : Driver}
    (recorded : Recorded fileMeta ((events ++ [event]).flatMap Event.protos) s)
    (before : .ended ∉ events) (other : event ≠ .ended) (fine : ∀ files, s.result ≠ some (.ok files))
    (chasing : s.result = none → Chasing [] s) : Told fileMeta (events ++ [event]) s.proceed := by
  have silent := not_ended_concat before other
  cases result : s.result with
  | some out =>
      cases out with
      | error status =>
          rw [Driver.proceed, if_neg (by rw [result]; exact fun both => nomatch both.1)]
          exact fail_told recorded before other result
      | ok files => exact absurd result (fine files)
  | none =>
      rw [Driver.proceed]
      split
      · rename_i done
        refine ⟨recorded.returns result, nofun, ?_, ?_, fun ended => absurd ended silent⟩
        · intro files same
          cases same
          rfl
        · intro files same _
          cases same
          exact (chasing result).closed done.2
      · rename_i going
        have more : 0 < s.pending := Nat.pos_of_ne_zero fun done => going ⟨result, done⟩
        refine ⟨recorded, fun _ => ⟨chasing result, more, silent⟩, ?_, ?_, fun ended => absurd ended silent⟩
        · exact fun files same => nomatch result.symm.trans same
        · exact fun files same => nomatch result.symm.trans same

theorem step_told {events : List Event} {event : Event} {s t : Driver} (told : Told fileMeta events s)
    (honest : Honest fileMeta s event) (moved : step fileMeta s event = some t) :
    Told fileMeta (events ++ [event]) t := by
  have running := step_running moved
  obtain ⟨chasing, more, before⟩ := told.running running
  have shown : (events ++ [event]).flatMap Event.protos = events.flatMap Event.protos ++ event.protos := by
    rw [List.flatMap_append, List.flatMap_singleton]
  have going : ¬ s.result.isSome := by
    rw [running]
    exact Bool.false_ne_true
  unfold step at moved
  rw [if_neg going] at moved
  cases event with
  | answer request response accepts =>
      cases moved
      have kept : Recorded fileMeta (events.flatMap Event.protos) (s.answered request) :=
        ⟨told.recorded.sends, told.recorded.asked, told.recorded.files, told.recorded.readable⟩
      have still : (s.answered request).result = none := running
      have recorded := handle_recorded still kept request response accepts
      rw [← shown] at recorded
      exact proceed_told recorded before nofun (handle_result still response accepts)
        (handle_chasing running chasing honest)
  | failed status =>
      cases moved
      refine fail_told ?_ before nofun rfl
      rw [shown]
      exact told.recorded.more (List.subset_append_left _ _)
  | ended =>
      cases moved
      have waiting : s.outstanding ≠ [] := by
        intro nothing
        rw [chasing.counted, nothing] at more
        exact Nat.lt_irrefl 0 more
      have ended : Event.ended ∈ events ++ [.ended] := List.mem_append_right _ List.mem_cons_self
      refine ⟨?_, nofun, ?_, fun _ _ silent => absurd ended silent, fun _ => ⟨waiting, s.files, rfl⟩⟩
      · rw [shown]
        have nothing : Event.protos .ended = [] := rfl
        rw [nothing, List.append_nil]
        exact told.recorded.returns running
      · intro files same
        cases same
        rfl

theorem run_told {opened : Except Status Unit} {accepted : Bool} {symbol : Str} {events : List Event}
    {s : Driver} (honest : Machine.Along (step fileMeta) (Honest fileMeta)
      (fetch opened accepted symbol) events)
    (run : Machine.run (step fileMeta) (fetch opened accepted symbol) events = some s) :
    Told fileMeta events s :=
  Machine.run_invariant_history (I := Told fileMeta) (fun _ _ _ _ => step_told)
    (fetch_told opened accepted symbol) honest run

/-- What a fetch is to come to, whatever the server sends. -/
structure Meets (fileMeta : Bytes → Except Status (Str × List Str)) (events : List Event)
    (s : Driver) : Prop where
  closed : ∀ files, s.result = some (.ok files) → files.Closed
  received : ∀ files, s.result = some (.ok files) → ∀ raw ∈ events.flatMap Event.protos,
    ∃ name deps, fileMeta raw = .ok (name, deps) ∧ name ∈ files
  last : ∀ files, s.result = some (.ok files) →
    ∀ name, files.lookup name = latest fileMeta (events.flatMap Event.protos) name
  once : ∀ name, s.sent.count (.fileByFilename name) ≤ 1
  requests : s.sent.length ≤ 1 + (dependencies fileMeta (events.flatMap Event.protos)).dedup.length
  early : .ended ∈ events → s.outstanding ≠ [] → ∃ status, s.result = some (.error status)

theorem latest_isSome {raws : List Bytes} {name : Str} :
    (latest fileMeta raws name).isSome ↔ name ∈ names fileMeta raws := by
  induction raws using List.reverseRecOn with
  | nil => exact iff_of_false Bool.false_ne_true List.not_mem_nil
  | append_singleton raws raw ih =>
      rw [names, List.flatMap_append, ← names, List.flatMap_singleton, List.mem_append]
      cases read : fileMeta raw with
      | error status =>
          rw [latest, List.foldl_append, List.foldl_cons, read, ← latest]
          exact ih.trans (or_iff_left List.not_mem_nil).symm
      | ok item =>
          obtain ⟨other, deps⟩ := item
          rw [latest_concat read, List.mem_singleton]
          split
          · exact iff_of_true rfl (.inr (Eq.symm ‹_›))
          · exact ih.trans (or_iff_left (Ne.symm ‹_›)).symm

theorem Recorded.once {received : List Bytes} {s : Driver} (recorded : Recorded fileMeta received s)
    (name : Str) : s.sent.count (.fileByFilename name) ≤ 1 := by
  obtain ⟨first, names, distinct, -, sent⟩ := recorded.sends
  have opening : (first.toList.map MessageRequest.fileContainingSymbol).count (.fileByFilename name) = 0 := by
    apply List.count_eq_zero.mpr
    intro member
    obtain ⟨_, _, same⟩ := List.mem_map.mp member
    cases same
  have injective : Function.Injective MessageRequest.fileByFilename := fun _ _ same => by cases same; rfl
  rw [sent, List.count_append, opening, Nat.zero_add]
  exact List.nodup_iff_count_le_one.mp (distinct.map injective) _

theorem Recorded.requests {received : List Bytes} {s : Driver} (recorded : Recorded fileMeta received s) :
    s.sent.length ≤ 1 + (dependencies fileMeta received).dedup.length := by
  obtain ⟨first, names, distinct, noted, sent⟩ := recorded.sends
  have within : names ⊆ (dependencies fileMeta received).dedup :=
    fun name member => List.mem_dedup.mpr (recorded.asked (noted member))
  have fewer := (List.subperm_of_subset distinct within).length_le
  have opening : first.toList.length ≤ 1 := by
    cases first with
    | none => exact Nat.zero_le 1
    | some symbol => exact Nat.le_refl 1
  rw [sent, List.length_append, List.length_map, List.length_map]
  omega

/-- Of a server that answers in any order and with any files besides, a fetch makes what it
is to make unless the stream ends under it: then it returns the files it has. -/
theorem fetch_meets_iff (opened : Except Status Unit) (accepted : Bool) (symbol : Str) (events : List Event)
    (s : Driver)
    (honest : Machine.Along (step fileMeta) (Honest fileMeta) (fetch opened accepted symbol) events)
    (run : Machine.run (step fileMeta) (fetch opened accepted symbol) events = some s) :
    Meets fileMeta events s ↔ .ended ∉ events := by
  have told := run_told honest run
  constructor
  · intro meets ended
    obtain ⟨waiting, files, returned⟩ := told.early ended
    obtain ⟨status, failed⟩ := meets.early ended waiting
    cases returned.symm.trans failed
  · intro silent
    have fine : ∀ files, s.result = some (.ok files) → ∀ status, s.result ≠ some (.error status) := by
      intro files done status failed
      cases done.symm.trans failed
    have lookup : ∀ files, s.result = some (.ok files) →
        ∀ name, files.lookup name = latest fileMeta (events.flatMap Event.protos) name := by
      intro files done
      rw [told.returned files done]
      exact told.recorded.files (fine files done)
    refine ⟨fun files done => told.complete files done silent, ?_, lookup, told.recorded.once,
      told.recorded.requests, fun ended => absurd ended silent⟩
    intro files done raw member
    obtain ⟨⟨name, deps⟩, read⟩ := told.recorded.readable (fine files done) raw member
    refine ⟨name, deps, read, AList.lookup_isSome.mp ?_⟩
    rw [lookup files done, latest_isSome]
    exact mem_names member read

end FileMeta

/-- A file descriptor read as far as its name and its dependencies. -/
def descriptorFields : Nat →
    Option (Str × List Str → Bytes → Option ((Str × List Str) × Bytes))
  | 10 =>
      some fun (_, deps) bytes => (ProtoWire.standard.string bytes).map fun (name, rest) =>
        ((name, deps), rest)
  | 26 => some fun (name, deps) bytes =>
      (ProtoWire.standard.string bytes).map fun (dep, rest) => ((name, deps ++ [dep]), rest)
  | _ => none

def descriptorMeta (bytes : Bytes) : Except Status (Str × List Str) :=
  match ProtoWire.readFields ProtoWire.standard descriptorFields bytes.length 0 ([], []) bytes with
  | some (item, _) => .ok item
  | none => .error ⟨Code.internal, "bad descriptor".toList⟩

example : (descriptorMeta [0x0A, 1, 97, 0x1A, 1, 98]).toOption = some (['a'], [['b']]) := by decide

/-- A file `a` that depends on `b`. -/
def fileA : Bytes := [0x0A, 1, 97, 0x1A, 1, 98]

def fileB : Bytes := [0x0A, 1, 98]

def answerA : Event := .answer (.fileContainingSymbol ['s']) (.fileDescriptorResponse [fileA]) fun _ => true

def answerB : Event := .answer (.fileByFilename ['b']) (.fileDescriptorResponse [fileB]) fun _ => true

theorem fetch_meets_iff_two : ∃ s,
    Machine.run (step descriptorMeta) (fetch (.ok ()) true ['s']) [answerA, answerB] = some s ∧
      (Meets descriptorMeta [answerA, answerB] s ↔ .ended ∉ [answerA, answerB]) := by
  refine ⟨_, rfl, fetch_meets_iff (.ok ()) true ['s'] [answerA, answerB] _ ?_ rfl⟩
  refine ⟨⟨List.mem_singleton.mpr rfl, trivial⟩, ⟨List.mem_singleton.mpr rfl, ?_⟩, trivial⟩
  exact ⟨fileB, List.mem_singleton.mpr rfl, [], rfl⟩

/-- The stream ends when `b` is asked for, and the driver returns `a` alone. -/
theorem fetch_returns_part : ∃ s files,
    Machine.Along (step descriptorMeta) (Honest descriptorMeta)
      (fetch (.ok ()) true ['s']) [answerA, .ended] ∧
      Machine.run (step descriptorMeta) (fetch (.ok ()) true ['s']) [answerA, .ended] = some s ∧
      s.result = some (.ok files) ∧ s.outstanding = [.fileByFilename ['b']] ∧ ¬ files.Closed ∧
      ¬ Meets descriptorMeta [answerA, .ended] s := by
  have part : ∀ files : FileMap, files.lookup ['a'] = some ⟨fileA, [['b']]⟩ → ['b'] ∉ files →
    ¬ files.Closed :=
    fun files found absent closed => absent (closed ['a'] _ found ['b'] List.mem_cons_self)
  refine ⟨_, _, ?_, rfl, rfl, rfl, part _ rfl (by decide), ?_⟩
  · exact ⟨⟨List.mem_singleton.mpr rfl, trivial⟩, trivial, trivial⟩
  · exact fun meets => part _ rfl (by decide) (meets.closed _ rfl)

end GrpcWebnext.Reflect
