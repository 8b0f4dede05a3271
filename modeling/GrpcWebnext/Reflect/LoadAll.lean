import GrpcWebnext.Reflect.DescriptorSet
import GrpcWebnext.Reflect.Driver

/-! A whole load of the upstream's schema, `load_all`: the services it lists, the files that
are fetched for each, and the descriptor set that their union becomes. -/
namespace GrpcWebnext.Reflect
open Framing (Bytes)
open Text (Str)

/-- Which reflection service version answered. -/
inductive Version where
  | v1
  | v1alpha
deriving DecidableEq

inductive ListMessage where
  | listServicesResponse (service : List Str)
  | errorResponse (code : Int) (message : Str)
  | other

/-- The one exchange of a `list_services` driver: the stream opens, its channel takes the
request, and a first message comes. -/
structure Listing where
  opened : Except Status Unit
  accepted : Bool
  first : Except Status (Option ListMessage)

/-- `list_services_v1` and `list_services_v1alpha`. -/
def listServices (listing : Listing) : Except Status (List Str) :=
  match listing.opened with
  | .error status => .error status
  | .ok _ =>
      if !listing.accepted then .error channelClosed
      else match listing.first with
        | .error status => .error status
        | .ok none => .error ⟨Code.internal, "reflection stream closed before response".toList⟩
        | .ok (some (.listServicesResponse service)) => .ok service
        | .ok (some (.errorResponse code message)) => .error ⟨codeFrom code, message⟩
        | .ok (some .other) =>
            .error ⟨Code.internal, "unexpected reflection response to list_services".toList⟩

/-- What the stream of one fetch brings. -/
structure Session where
  opened : Except Status Unit
  accepted : Bool
  events : List Event

/-- The upstream: how it answers the listing of each version, and the fetches that follow,
by their number. -/
structure Upstream where
  list : Version → Listing
  session : Version → Nat → Session

def Upstream.services (up : Upstream) : Except Status (List Str × Version) :=
  match listServices (up.list .v1) with
  | .ok services => .ok (services, .v1)
  | .error e =>
      if e.code = Code.unimplemented then (listServices (up.list .v1alpha)).map (·, .v1alpha) else .error e

section FileMeta
variable (fileMeta : Bytes → Except Status (Str × List Str))

/-- What `fetch_v1` or `fetch_v1alpha` returns; `none` while it waits. -/
def Session.returned (session : Session) (service : Str) : Option (Except Status FileMap) :=
  (Machine.run (step fileMeta) (fetch session.opened session.accepted service) session.events).bind
    Driver.result

/-- The loop over the services: what a fetch returns shadows what is there, and a failed one
is skipped. -/
def gather : List (Str × Session) → FileMap → Option FileMap
  | [], files => some files
  | (service, session) :: rest, files =>
      match session.returned fileMeta service with
      | none => none
      | some (.ok fetched) => gather rest (fetched ∪ files)
      | some (.error _) => gather rest files

/-- The services with the sessions of their fetches. -/
def Upstream.sessions (up : Upstream) (services : List Str) (version : Version) : List (Str × Session) :=
  services.zip ((List.range services.length).map (up.session version))

/-- `load_all`, with what the descriptor pool makes of a set; `none` while it waits. -/
def loadAll {T : Type} (build : Bytes → Except Str T) (up : Upstream) : Option (Except Status T) :=
  match up.services with
  | .error status => some (.error status)
  | .ok (services, version) =>
      (gather fileMeta (up.sessions services version) ∅).map fun files =>
        if files.keys.isEmpty then
          .error ⟨Code.unavailable, "upstream reflection returned no descriptors".toList⟩
        else match build (descriptorSet (topoSort files)) with
          | .ok transcoder => .ok transcoder
          | .error e => .error ⟨Code.internal, "build descriptor pool: ".toList ++ e⟩

/-- A server that keeps to the protocol of a fetch, and keeps the stream until it is through. -/
def Session.Faithful (session : Session) (service : Str) : Prop :=
  Machine.Along (step fileMeta) (Honest fileMeta) (fetch session.opened session.accepted service)
    session.events ∧
    .ended ∉ session.events

/-- The files of a fetch that did not fail. -/
def Session.gathered (session : Session) (service : Str) : List Bytes :=
  match session.returned fileMeta service with
  | some (.ok _) => session.events.flatMap Event.protos
  | _ => []

def gathered (sessions : List (Str × Session)) : List Bytes :=
  sessions.flatMap fun s => s.2.gathered fileMeta s.1

/-- A map that comes from some files: it has every name of theirs, for each a file of that
name, and with a file all that the file depends on. -/
structure Sourced (received : List Bytes) (files : FileMap) : Prop where
  read : ∀ name file, files.lookup name = some file →
    fileMeta file.bytes = .ok (name, file.deps) ∧ file.bytes ∈ received
  names : ∀ name, name ∈ files ↔ name ∈ names fileMeta received
  closed : files.Closed

end FileMeta

section Sources
variable {fileMeta : Bytes → Except Status (Str × List Str)}

theorem latest_read {raws : List Bytes} {name : Str} {file : RawFile}
    (found : latest fileMeta raws name = some file) :
    fileMeta file.bytes = .ok (name, file.deps) ∧ file.bytes ∈ raws := by
  induction raws using List.reverseRecOn with
  | nil => cases found
  | append_singleton raws raw ih =>
      cases read : fileMeta raw with
      | error status =>
          rw [latest, List.foldl_append, List.foldl_cons, read, ← latest] at found
          obtain ⟨same, inside⟩ := ih found
          exact ⟨same, List.mem_append_left _ inside⟩
      | ok item =>
          obtain ⟨other, deps⟩ := item
          rw [latest_concat read] at found
          split at found
          · subst other
            cases found
            exact ⟨read, List.mem_append_right _ List.mem_cons_self⟩
          · obtain ⟨same, inside⟩ := ih found
            exact ⟨same, List.mem_append_left _ inside⟩

theorem Sourced.empty : Sourced fileMeta [] ∅ where
  read := fun name file found => by cases found
  names := fun name => iff_of_false (AList.notMem_empty name) List.not_mem_nil
  closed := fun name file found => by cases found

/-- A fetch from a faithful server comes from the files it was sent. -/
theorem sourced_of_returned {session : Session} {service : Str} {files : FileMap}
    (faithful : session.Faithful fileMeta service)
    (returned : session.returned fileMeta service = some (.ok files)) :
    Sourced fileMeta (session.events.flatMap Event.protos) files := by
  obtain ⟨s, run, result⟩ := Option.bind_eq_some_iff.mp returned
  have told := run_told faithful.1 run
  have fine : ∀ status, s.result ≠ some (.error status) := fun status same => by cases result.symm.trans same
  have same := told.returned files result
  have lookup := fun name => told.recorded.files fine name
  subst same
  refine ⟨fun name file found => latest_read ((lookup name).symm.trans found), fun name => ?_,
    told.complete _ result faithful.2⟩
  rw [← AList.lookup_isSome, lookup, latest_isSome]

theorem names_append (raws more : List Bytes) :
    names fileMeta (raws ++ more) = names fileMeta raws ++ names fileMeta more :=
  List.flatMap_append

/-- One map over another comes from the files of both. -/
theorem Sourced.union {received more : List Bytes} {files fetched : FileMap}
    (below : Sourced fileMeta received files)
    (above : Sourced fileMeta more fetched) : Sourced fileMeta (received ++ more) (fetched ∪ files) := by
  have lookup : ∀ {name : Str} {file : RawFile}, (fetched ∪ files).lookup name = some file →
      fetched.lookup name = some file ∨ files.lookup name = some file := by
    intro name file found
    by_cases here : name ∈ fetched
    · rw [AList.lookup_union_left here] at found
      exact .inl found
    · rw [AList.lookup_union_right here] at found
      exact .inr found
  refine ⟨fun name file found => ?_, fun name => ?_, fun name file found dep member => AList.mem_union.mpr ?_⟩
  · rcases lookup found with new | old
    · exact (above.read name file new).imp_right (List.mem_append_right _)
    · exact (below.read name file old).imp_right (List.mem_append_left _)
  · rw [AList.mem_union, names_append, List.mem_append, above.names, below.names, or_comm]
  · rcases lookup found with new | old
    · exact .inl (above.closed name file new dep member)
    · exact .inr (below.closed name file old dep member)

theorem gather_sourced {sessions : List (Str × Session)}
    (faithful : ∀ s ∈ sessions, s.2.Faithful fileMeta s.1) :
    ∀ {received : List Bytes} {files result : FileMap}, Sourced fileMeta received files →
      gather fileMeta sessions files = some result →
      Sourced fileMeta (received ++ gathered fileMeta sessions) result := by
  induction sessions with
  | nil =>
      intro received files result sourced gathers
      cases gathers
      rwa [gathered, List.flatMap_nil, List.append_nil]
  | cons first rest ih =>
      intro received files result sourced gathers
      obtain ⟨here, later⟩ := List.forall_mem_cons.mp faithful
      rw [gathered, List.flatMap_cons, ← gathered, ← List.append_assoc]
      simp only [gather] at gathers
      cases returned : first.2.returned fileMeta first.1 with
      | none =>
          rw [returned] at gathers
          cases gathers
      | some outcome =>
          rw [returned] at gathers
          cases outcome with
          | error status =>
              have nothing : first.2.gathered fileMeta first.1 = [] := by rw [Session.gathered, returned]
              rw [nothing, List.append_nil]
              exact ih later sourced gathers
          | ok fetched =>
              have all : first.2.gathered fileMeta first.1 = first.2.events.flatMap Event.protos := by
                rw [Session.gathered, returned]
              rw [all]
              exact ih later (sourced.union (sourced_of_returned here returned)) gathers

/-- One file uses another by its name. -/
def Uses (entries : List (Str × RawFile)) (name dep : Str) : Prop :=
  ∃ file, (name, file) ∈ entries ∧ dep ∈ file.deps

/-- The files that go to the descriptor pool: one for each name received, with all that any
of them depends on, and where no file depends on itself each behind its dependencies. -/
structure PoolOrder (fileMeta : Bytes → Except Status (Str × List Str)) (received : List Bytes)
    (entries : List (Str × RawFile)) : Prop where
  distinct : (entries.map Prod.fst).Nodup
  read : ∀ e ∈ entries, fileMeta e.2.bytes = .ok (e.1, e.2.deps) ∧ e.2.bytes ∈ received
  names : ∀ name, name ∈ entries.map Prod.fst ↔ name ∈ names fileMeta received
  closed : ∀ e ∈ entries, ∀ dep ∈ e.2.deps, dep ∈ entries.map Prod.fst
  ordered : (∀ name, ¬ Relation.TransGen (Uses entries) name name) →
    ∀ front e back, entries = front ++ e :: back → ∀ dep ∈ e.2.deps, dep ∈ front.map Prod.fst

/-- The entries of a map under some of its names. -/
def FileMap.entriesOf (files : FileMap) (order : List Str) : List (Str × RawFile) :=
  order.filterMap fun name => (files.lookup name).map fun file => (name, file)

theorem entriesOf_mem {files : FileMap} {order : List Str} {e : Str × RawFile}
    (inside : e ∈ files.entriesOf order) :
    e.1 ∈ order ∧ files.lookup e.1 = some e.2 := by
  obtain ⟨name, member, found⟩ := List.mem_filterMap.mp inside
  obtain ⟨file, here, rfl⟩ := Option.map_eq_some_iff.mp found
  exact ⟨member, here⟩

theorem entriesOf_names {files : FileMap} {order : List Str} (present : ∀ name ∈ order, name ∈ files) :
    (files.entriesOf order).map Prod.fst = order := by
  induction order with
  | nil => rfl
  | cons name order ih =>
      obtain ⟨here, later⟩ := List.forall_mem_cons.mp present
      obtain ⟨file, found⟩ := Option.isSome_iff_exists.mp (AList.lookup_isSome.mpr here)
      simp only [FileMap.entriesOf, List.filterMap_cons, found, Option.map_some, List.map_cons]
      exact congrArg (name :: ·) (ih later)

theorem entriesOf_bytes (files : FileMap) (order : List Str) :
    (files.entriesOf order).map (fun e => e.2.bytes) = order.filterMap files.bytesOf := by
  rw [FileMap.entriesOf, List.map_filterMap]
  congr 1
  funext name
  rw [FileMap.bytesOf, Option.map_map]
  rfl

theorem topoSort_pool {received : List Bytes} {files : FileMap} (sourced : Sourced fileMeta received files) :
    ∃ entries, PoolOrder fileMeta received entries ∧ topoSort files = entries.map fun e => e.2.bytes := by
  obtain ⟨after, order, walk, put⟩ := topoSort_visits files
  have perm := order_perm walk
  have present : ∀ name ∈ order, name ∈ files :=
    fun name member => AList.mem_keys.mpr (perm.mem_iff.mp member)
  have everyName : ∀ name, name ∈ order ↔ name ∈ files := fun name =>
    perm.mem_iff.trans AList.mem_keys.symm
  have keys := entriesOf_names present
  refine ⟨files.entriesOf order, ⟨?_, fun e inside => ?_, fun name => ?_, fun e inside dep member => ?_,
    fun acyclic front e back split dep member => ?_⟩, put.trans (entriesOf_bytes files order).symm⟩
  · rw [keys]
    exact walk.nodup
  · exact sourced.read e.1 e.2 (entriesOf_mem inside).2
  · rw [keys, everyName, sourced.names]
  · rw [keys, everyName]
    exact sourced.closed e.1 e.2 (entriesOf_mem inside).2 dep member
  · have uses : ∀ name other, files.DependsOn name other → Uses (files.entriesOf order) name other := by
      rintro name other ⟨file, found, named, _⟩
      have isThere : name ∈ order := (everyName name).mpr (AList.lookup_isSome.mp (by rw [found]; rfl))
      exact ⟨file, List.mem_filterMap.mpr ⟨name, isThere, by rw [found, Option.map_some]⟩, named⟩
    have noCycle : DepthFirst.Acyclic files.next := by
      intro name cycle
      rw [leads_eq] at cycle
      exact acyclic name (Relation.TransGen.mono uses _ _ cycle)
    have inside : e ∈ files.entriesOf order := by
      rw [split]
      exact List.mem_append_right _ List.mem_cons_self
    have found := (entriesOf_mem inside).2
    have leads : DepthFirst.Leads files.next e.1 dep := by
      rw [leads_eq]
      exact ⟨e.2, found, member, sourced.closed e.1 e.2 found dep member⟩
    have nothing : DepthFirst.Active files.next [] [] (files.keys.insertionSort byteLe) :=
      fun x known => absurd known List.not_mem_nil
    have ready := walk.ready noCycle [] nothing
    rw [← keys, split, List.map_append, List.map_cons] at ready
    exact ready.before leads

/-- A load that succeeds has given the descriptor pool a set that parses to one file for
each name that the services' fetches brought, the whole closure of each under its
dependencies, and in their order unless there is a cycle. -/
theorem load_all_pool {T : Type} {build : Bytes → Except Str T} {up : Upstream} {transcoder : T}
    (loaded : loadAll fileMeta build up = some (.ok transcoder))
    (faithful : ∀ services version, up.services = .ok (services, version) →
      ∀ s ∈ up.sessions services version, s.2.Faithful fileMeta s.1)
    (small : ∀ services version, up.services = .ok (services, version) →
      ∀ raw ∈ gathered fileMeta (up.sessions services version), raw.length < 2 ^ 64) :
    ∃ services version set entries, up.services = .ok (services, version) ∧ build set = .ok transcoder ∧
      entries ≠ [] ∧ PoolOrder fileMeta (gathered fileMeta (up.sessions services version)) entries ∧
      ProtoWire.readRepeated 1 set = some (entries.map fun e => e.2.bytes) := by
  unfold loadAll at loaded
  split at loaded
  · cases loaded
  · rename_i services version listed
    obtain ⟨files, gathers, built⟩ := Option.map_eq_some_iff.mp loaded
    have sourced := gather_sourced (faithful services version listed) Sourced.empty gathers
    rw [List.nil_append] at sourced
    obtain ⟨entries, pool, sorted⟩ := topoSort_pool sourced
    split at built
    · cases built
    · rename_i some_
      split at built
      · rename_i result build_
        cases built
        refine ⟨services, version, _, entries, listed, build_, ?_, pool, ?_⟩
        · rintro rfl
          obtain ⟨name, key⟩ := List.exists_mem_of_ne_nil _ (mt List.isEmpty_iff.mpr some_)
          exact List.not_mem_nil ((pool.names name).mpr ((sourced.names name).mp (AList.mem_keys.mpr key)))
        · have tag : 8 * 1 + 2 < 2 ^ 64 := by decide
          have fits : ∀ raw ∈ entries.map (fun e => e.2.bytes), raw.length < 2 ^ 64 := by
            intro raw member
            obtain ⟨e, inside, rfl⟩ := List.mem_map.mp member
            exact small services version listed _ (pool.read e inside).2
          rw [sorted, descriptorSet, foldl_pushFileDescriptor fits []]
          exact ProtoWire.readRepeated_encodeRepeated tag fits
      · cases built

end Sources

/-- An upstream of the older version with two services, of which the second cannot be fetched. -/
def olderUpstream : Upstream where
  list
    | .v1 => ⟨.error ⟨Code.unimplemented, []⟩, true, .ok none⟩
    | .v1alpha => ⟨.ok (), true, .ok (some (.listServicesResponse [['s'], ['t']]))⟩
  session
    | .v1alpha, 0 => ⟨.ok (), true, [answerA, answerB]⟩
    | _, _ => ⟨.error ⟨Code.unavailable, []⟩, true, []⟩

theorem load_all_pool_older :
    ∃ services version set entries, olderUpstream.services = .ok (services, version) ∧
    (fun _ => .ok ()) set = (.ok () : Except Str Unit) ∧ entries ≠ [] ∧
    PoolOrder descriptorMeta (gathered descriptorMeta (olderUpstream.sessions services version)) entries ∧
    ProtoWire.readRepeated 1 set = some (entries.map fun e => e.2.bytes) := by
  refine load_all_pool (show loadAll descriptorMeta (fun _ => .ok ()) olderUpstream = some (.ok ())
    from rfl) ?_ ?_
  · rintro services version ⟨⟩ s inside
    rcases List.mem_cons.mp inside with rfl | inside
    · have silent : Event.ended ∉ [answerA, answerB] := by simp [answerA, answerB]
      refine ⟨⟨⟨List.mem_singleton.mpr rfl, trivial⟩, ⟨List.mem_singleton.mpr rfl, ?_⟩, trivial⟩, silent⟩
      exact ⟨fileB, List.mem_singleton.mpr rfl, [], rfl⟩
    · rw [List.mem_singleton.mp inside]
      exact ⟨trivial, List.not_mem_nil⟩
  · rintro services version ⟨⟩
    decide

end GrpcWebnext.Reflect
