import GrpcWebnext.HttpRule.FieldPath
import GrpcWebnext.HttpRule.QueryText
import GrpcWebnext.Library.ProtoWire

/-! Path variables against the query string: when a bound path variable keeps its value
whatever the query says. -/
namespace GrpcWebnext.HttpRule
open Framing (Bytes)
open Text (Str)

section
variable {T Msg : Type} [DecidableEq T] (d : Dialect T) (store : Store T Msg)

/-- The number parsers and the JSON decoder give a field that takes a text more than one
value. -/
def Varied : Prop :=
  ∀ type f raw v, f ∈ store.fields type →
    (f.kind = .float ∨ f.kind = .double ∨ f.kind = .bytes ∨ ∃ inner, f.kind = .message inner) →
    boundValue d store type f raw = some v →
    ∃ raw' v', boundValue d store type f raw' = some v' ∧ v' ≠ v

def Bindable (type : T) (r : List (Field T)) : Prop :=
  ∃ raw v, boundAt d store type r raw = some v

/-- The path names a singular field that takes a text. -/
def NamesSingular (type : T) (path : List T) : Prop :=
  ∃ p leaf, resolve store type path = some p ∧ Bindable d store type p ∧
    p.getLast? = some leaf ∧ leaf.shape = .singular

/-- No query overrides a path variable, whatever was captured: any two runs read the
captured value at every variable. -/
def QuerySafe (binding : Binding T) (paths : List (List T)) : Prop :=
  ∀ vars : List (List T × T), vars.map Prod.fst = paths →
    ∀ body query₁ query₂ msg₁ msg₂,
      bindMessage d store binding vars query₁ body = some (.ok msg₁) →
      bindMessage d store binding vars query₂ body = some (.ok msg₂) →
      ∀ var ∈ vars, ∀ p v, resolve store binding.input var.1 = some p →
        boundAt d store binding.input p var.2 = some v →
        readAt store msg₁ p = readAt store msg₂ p ∧ readAt store msg₁ p = some v

/-- The fields of the path variables are apart from each other, and from every field that
a query key not spelled like one of them can bind. -/
def Unshadowed (type : T) (paths : List (List T)) : Prop :=
  (∀ path ∈ paths, ∀ later ∈ paths, path ≠ later → ∀ p r, resolve store type path = some p →
    resolve store type later = some r → Apart r p) ∧
  ∀ key, d.splitDots key ∉ paths → ∀ r, resolve store type (d.splitDots key) = some r →
    Bindable d store type r → ∀ path ∈ paths, ∀ p, resolve store type path = some p → Apart r p

variable {d store}

section
variable (lawful : store.Lawful)
include lawful

/-- An assignment that went through, taken apart. -/
theorem overlay_cons_ok {path : List T} {raw : T} {rest : List (List T × T)} {msg msg' : Msg}
    (done : overlay d store ((path, raw) :: rest) msg = some (.ok msg')) :
    ∃ r v, resolve store (store.descriptor msg) path = some r ∧
      boundAt d store (store.descriptor msg) r raw = some v ∧
      overlay d store rest (write store v msg r) = some (.ok msg') := by
  rw [overlay] at done
  split at done
  case h_1 middle assigned =>
      obtain ⟨r, v, resolved, bound, rfl⟩ := (assign_ok_iff lawful).mp assigned
      exact ⟨r, v, resolved, bound, done⟩
  case h_2 notOk => exact (notOk msg' done).elim

theorem overlay_descriptor {params : List (List T × T)} {msg msg' : Msg}
    (done : overlay d store params msg = some (.ok msg')) :
    store.descriptor msg' = store.descriptor msg := by
  induction params generalizing msg with
  | nil =>
      cases done
      rfl
  | cons param params ih =>
      obtain ⟨r, v, _, _, rest⟩ := overlay_cons_ok lawful done
      rw [ih rest, descriptor_write lawful]

/-- Assignments that are all apart from a path leave it alone. -/
theorem overlay_frame {params : List (List T × T)} {msg msg' : Msg} {p : List (Field T)}
    (leads : Leads store (store.descriptor msg) p)
    (apart : ∀ param ∈ params, ∀ r, resolve store (store.descriptor msg) param.1 = some r →
      Bindable d store (store.descriptor msg) r → Apart r p)
    (done : overlay d store params msg = some (.ok msg')) :
    readAt store msg' p = readAt store msg p := by
  induction params generalizing msg with
  | nil =>
      cases done
      rfl
  | cons param params ih =>
      obtain ⟨r, v, resolved, bound, rest⟩ := overlay_cons_ok lawful done
      have typed : store.descriptor (write store v msg r) = store.descriptor msg :=
        descriptor_write lawful
      have here := apart param List.mem_cons_self r resolved ⟨_, v, bound⟩
      calc readAt store msg' p = readAt store (write store v msg r) p := by
            refine ih (typed ▸ leads) ?_ rest
            rw [typed]
            exact fun later inside => apart later (List.mem_cons_of_mem _ inside)
        _ = readAt store msg p := readAt_write_apart lawful (resolve_leads resolved) leads here

theorem readAt_write_singular {msg : Msg} {p : List (Field T)} {raw : T} {v : Value T Msg}
    {leaf : Field T} (leads : Leads store (store.descriptor msg) p)
    (bound : boundAt d store (store.descriptor msg) p raw = some v)
    (last : p.getLast? = some leaf) (singular : leaf.shape = .singular) :
    readAt store (write store v msg p) p = some v := by
  obtain ⟨f, old, last', _, after⟩ := readAt_write lawful leads bound
  cases last.symm.trans last'
  rw [after, settled_of_not_list (by simp [singular])]

/-- Path variables on fields apart from each other all read as they were bound. -/
theorem overlay_reads {type : T} {vars : List (List T × T)} {msg msg' : Msg}
    (typed : store.descriptor msg = type)
    (singular : ∀ var ∈ vars, NamesSingular d store type var.1)
    (distinct : (vars.map Prod.fst).Nodup)
    (apart : ∀ path ∈ vars.map Prod.fst, ∀ later ∈ vars.map Prod.fst, path ≠ later →
      ∀ p r, resolve store type path = some p → resolve store type later = some r → Apart r p)
    (done : overlay d store vars msg = some (.ok msg')) :
    ∀ var ∈ vars, ∀ p v, resolve store type var.1 = some p →
      boundAt d store type p var.2 = some v → readAt store msg' p = some v := by
  induction vars generalizing msg with
  | nil =>
      intro var inside
      cases inside
  | cons first vars ih =>
      subst typed
      obtain ⟨path, raw⟩ := first
      obtain ⟨r, w, resolved, bound, rest⟩ := overlay_cons_ok lawful done
      have typed : store.descriptor (write store w msg r) = store.descriptor msg :=
        descriptor_write lawful
      rw [List.map_cons, List.nodup_cons] at distinct
      intro var inside p v resolved' bound'
      rcases List.mem_cons.mp inside with rfl | inside
      · cases resolved.symm.trans resolved'
        cases bound.symm.trans bound'
        obtain ⟨_, leaf, resolved'', _, last, shape⟩ := singular _ List.mem_cons_self
        cases resolved.symm.trans resolved''
        have written := readAt_write_singular lawful (resolve_leads resolved) bound last shape
        refine Eq.trans (overlay_frame lawful ?_ ?_ rest) written
        · rw [typed]
          exact resolve_leads resolved
        · rw [typed]
          intro param later q resolvedLater _
          have member := List.mem_map_of_mem (f := Prod.fst) later
          refine apart _ List.mem_cons_self _ (List.mem_cons_of_mem _ member) ?_ _ _ resolved
            resolvedLater
          rintro rfl
          exact distinct.1 member
      · refine ih typed (fun var inside => singular var (List.mem_cons_of_mem _ inside)) distinct.2
          ?_ rest var inside p v resolved' bound'
        intro path inside later inside'
        exact apart path (List.mem_cons_of_mem _ inside) later (List.mem_cons_of_mem _ inside')

theorem seed_descriptor {binding : Binding T} {body : Bytes} {msg : Msg}
    (declared : binding.body ≠ .wildcard) (seeded : seed d store binding body = .ok msg) :
    store.descriptor msg = binding.input := by
  have fresh := lawful.descriptor_new binding.input
  unfold seed at seeded
  split at seeded
  case h_1 wildcard => exact (declared wildcard).elim
  case h_2 name _ =>
      split at seeded
      case isTrue =>
          cases seeded
          exact fresh
      case isFalse =>
          unfold setMessageField at seeded
          split at seeded
          case h_1 => cases seeded
          case h_2 f _ =>
              split at seeded
              case h_1 => cases seeded
              case h_2 text _ =>
                  obtain ⟨v, _, rfl⟩ := except_map_ok_iff.mp seeded
                  rw [lawful.descriptor_set, fresh]
  case h_3 =>
      cases seeded
      exact fresh

/-- A binding that went through: the seed, the path variables, then query parameters none
of which is spelled like a path variable. -/
theorem bindMessage_ok {binding : Binding T} {vars : List (List T × T)} {query : Option T}
    {body : Bytes} {msg : Msg} (declared : binding.body ≠ .wildcard)
    (built : bindMessage d store binding vars query body = some (.ok msg)) :
    ∃ start bound params, store.descriptor start = binding.input ∧
      overlay d store vars start = some (.ok bound) ∧
      overlay d store params bound = some (.ok msg) ∧
      ∀ param ∈ params, param.1 ∉ vars.map Prod.fst ∧ ∃ key, d.splitDots key = param.1 := by
  unfold bindMessage at built
  split at built
  case h_1 => cases built
  case h_2 => cases built
  case h_3 start seeded =>
      have typed := seed_descriptor lawful declared (returned_ok_iff.mp seeded)
      split at built
      case h_2 notOk => exact (notOk _ built).elim
      case h_1 bound overlaid =>
          rw [if_neg declared] at built
          split at built
          case h_1 =>
              cases built
              exact ⟨start, msg, [], typed, overlaid, rfl, by simp⟩
          case h_2 q =>
              split at built
              case h_1 => cases built
              case h_2 pairs _ =>
                  refine ⟨start, bound, _, typed, overlaid, built, ?_⟩
                  intro param inside
                  obtain ⟨member, unlike⟩ := List.mem_filter.mp inside
                  obtain ⟨pair, _, rfl⟩ := List.mem_map.mp member
                  refine ⟨?_, pair.1, rfl⟩
                  intro spelled
                  obtain ⟨var, isVar, same⟩ := List.mem_map.mp spelled
                  simp only [Bool.not_eq_true', List.any_eq_false, decide_eq_true_eq] at unlike
                  exact unlike var isVar same

theorem querySafe_of_unshadowed {binding : Binding T} {paths : List (List T)}
    (declared : binding.body ≠ .wildcard)
    (singular : ∀ path ∈ paths, NamesSingular d store binding.input path) (distinct : paths.Nodup)
    (unshadowed : Unshadowed d store binding.input paths) : QuerySafe d store binding paths := by
  rintro vars rfl body query₁ query₂ msg₁ msg₂ built₁ built₂ var inside p v resolved bound
  have reads : ∀ query msg, bindMessage d store binding vars query body = some (.ok msg) →
      readAt store msg p = some v := by
    intro query msg built
    obtain ⟨start, middle, params, typed, overlaid, queried, unlike⟩ :=
      bindMessage_ok lawful declared built
    have typed' : store.descriptor middle = binding.input :=
      (overlay_descriptor lawful overlaid).trans typed
    have before := overlay_reads lawful typed
      (fun var inside => singular _ (List.mem_map_of_mem inside)) distinct unshadowed.1 overlaid
      var inside p v resolved bound
    refine Eq.trans (overlay_frame lawful ?_ ?_ queried) before
    · rw [typed']
      exact resolve_leads resolved
    · rw [typed']
      intro param isParam r resolvedParam bindable
      obtain ⟨unspelled, key, split⟩ := unlike param isParam
      rw [← split] at unspelled resolvedParam
      exact unshadowed.2 key unspelled r resolvedParam bindable _ (List.mem_map_of_mem inside) p
        resolved
  have first := reads query₁ msg₁ built₁
  exact ⟨first.trans (reads query₂ msg₂ built₂).symm, first⟩

end

/-- The kinds that are coerced without the library take two different values. -/
theorem coerce_two (store : Store T Msg) (fluent : d.Fluent) {f : Field T}
    (own : ¬ (f.kind = .float ∨ f.kind = .double ∨ f.kind = .bytes ∨
      ∃ inner, f.kind = .message inner)) :
    ∃ raw v raw' v', (coerce d store f raw).toOption = some v ∧
      (coerce d store f raw').toOption = some v' ∧ v ≠ v' := by
  have signed : ∀ bits ∈ [32, 64], parseSigned bits ['0'] = some 0 ∧
      parseSigned bits ['1'] = some 1 := by decide
  cases kind : f.kind with
  | string =>
      refine ⟨d.word "true", .string (d.word "true"), d.word "false", .string (d.word "false"),
        ?_, ?_, by simp [fluent.true_ne_false]⟩ <;> simp [coerce, kind, Except.toOption]
  | bool =>
      refine ⟨d.word "true", .bool true, d.word "false", .bool false, ?_, ?_, by simp⟩
      · simp [coerce, kind, Except.toOption]
      · simp [coerce, kind, Except.toOption, fluent.true_ne_false.symm, fluent.one_ne_false.symm]
  | int32 =>
      refine ⟨d.word "0", .i32 0, d.word "1", .i32 1, ?_, ?_, by simp⟩ <;>
        simp [coerce, kind, Except.toOption, fluent.zero, fluent.one, signed]
  | int64 =>
      refine ⟨d.word "0", .i64 0, d.word "1", .i64 1, ?_, ?_, by simp⟩ <;>
        simp [coerce, kind, Except.toOption, fluent.zero, fluent.one, signed]
  | uint32 =>
      refine ⟨d.word "0", .u32 0, d.word "1", .u32 1, ?_, ?_, by simp⟩ <;>
        simp [coerce, kind, Except.toOption, fluent.zero, fluent.one, fluent.unsigned_zero,
          fluent.unsigned_one, Option.filter]
  | uint64 =>
      refine ⟨d.word "0", .u64 0, d.word "1", .u64 1, ?_, ?_, by simp⟩ <;>
        simp [coerce, kind, Except.toOption, fluent.zero, fluent.one, fluent.unsigned_zero,
          fluent.unsigned_one, Option.filter]
  | enum values =>
      refine ⟨d.word "0", .enumNumber 0, d.word "1", .enumNumber 1, ?_, ?_, by simp⟩ <;>
        simp [coerce, kind, Except.toOption, fluent.zero, fluent.one, signed]
  | float => simp [kind] at own
  | double => simp [kind] at own
  | bytes => simp [kind] at own
  | message inner => simp [kind] at own

theorem boundValue_varied (fluent : d.Fluent) (varied : Varied d store) {type : T} {f : Field T}
    {raw : T} {v : Value T Msg} (member : f ∈ store.fields type)
    (bound : boundValue d store type f raw = some v) :
    ∃ raw' v', boundValue d store type f raw' = some v' ∧ v' ≠ v := by
  by_cases library : f.kind = .float ∨ f.kind = .double ∨ f.kind = .bytes ∨
      ∃ inner, f.kind = .message inner
  · exact varied type f raw v member library bound
  · obtain ⟨raw₁, v₁, raw₂, v₂, bound₁, bound₂, different⟩ :=
      coerce_two store fluent library
    have coerced : ∀ raw, boundValue d store type f raw = (coerce d store f raw).toOption := by
      intro raw
      refine boundValue_coerce (fun kind => library ?_) (fun inner kind => (library ?_).elim)
      · simp [kind]
      · simp [kind]
    by_cases same : v₁ = v
    · exact ⟨raw₂, v₂, (coerced raw₂).trans bound₂, fun same' => different (same.trans same'.symm)⟩
    · exact ⟨raw₁, v₁, (coerced raw₁).trans bound₁, same⟩

theorem boundAt_varied (fluent : d.Fluent) (varied : Varied d store) {type : T}
    {r : List (Field T)} (leads : Leads store type r) (bindable : Bindable d store type r)
    (x : Option (Value T Msg)) : ∃ raw v, boundAt d store type r raw = some v ∧ some v ≠ x := by
  have another : ∀ raw v, boundAt d store type r raw = some v →
      ∃ raw' v', boundAt d store type r raw' = some v' ∧ v' ≠ v := by
    clear bindable
    induction r generalizing type with
    | nil => exact leads.elim
    | cons f r ih =>
        intro raw v bound
        cases r with
        | nil => exact boundValue_varied fluent varied leads bound
        | cons g r =>
            obtain ⟨_, _, inner, kind, deeper⟩ := leads
            have skip : ∀ raw, boundAt d store type (f :: g :: r) raw =
                boundAt d store inner (g :: r) raw :=
              fun raw => boundAt_cons (List.cons_ne_nil g r) kind
            simp only [skip] at bound ⊢
            exact ih deeper raw v bound
  obtain ⟨raw, v, bound⟩ := bindable
  by_cases same : some v = x
  · obtain ⟨raw', v', bound', different⟩ := another raw v bound
    refine ⟨raw', v', bound', ?_⟩
    rw [← same]
    simpa using different
  · exact ⟨raw, v, bound, same⟩

/-- The captures of a template, one text for each of its paths. -/
def captured (paths : List (List T)) (pick : List T → T) : List (List T × T) :=
  paths.map fun path => (path, pick path)

variable (d store) in
/-- Texts that coerce, for every path of a template. -/
def Coerces (type : T) (paths : List (List T)) (pick : List T → T) : Prop :=
  ∀ path ∈ paths, ∃ p v, resolve store type path = some p ∧
    boundAt d store type p (pick path) = some v

omit [DecidableEq T] in
theorem map_fst_captured (paths : List (List T)) (pick : List T → T) :
    (captured paths pick).map Prod.fst = paths := by
  rw [captured, List.map_map]
  exact List.map_id paths

theorem exists_coerces {type : T} {paths : List (List T)}
    (singular : ∀ path ∈ paths, NamesSingular d store type path) :
    ∃ pick, Coerces d store type paths pick := by
  have each : ∀ path, ∃ raw, path ∈ paths → ∃ p v, resolve store type path = some p ∧
      boundAt d store type p raw = some v := by
    intro path
    by_cases inside : path ∈ paths
    · obtain ⟨p, _, resolved, ⟨raw, v, bound⟩, _⟩ := singular path inside
      exact ⟨raw, fun _ => ⟨p, v, resolved, bound⟩⟩
    · exact ⟨d.word "", fun inside' => (inside inside').elim⟩
  choose pick picked using each
  exact ⟨pick, picked⟩

theorem Coerces.update {type : T} {paths : List (List T)} {pick : List T → T} {path : List T}
    {p : List (Field T)} {raw : T} {v : Value T Msg} (coerces : Coerces d store type paths pick)
    (resolved : resolve store type path = some p) (bound : boundAt d store type p raw = some v) :
    Coerces d store type paths (Function.update pick path raw) := by
  intro other inside
  by_cases same : other = path
  · subst same
    rw [Function.update_self]
    exact ⟨p, v, resolved, bound⟩
  · rw [Function.update_of_ne same]
    exact coerces other inside

section
variable (lawful : store.Lawful)
include lawful

theorem overlay_captured {paths : List (List T)} {pick : List T → T} {msg : Msg}
    (coerces : Coerces d store (store.descriptor msg) paths pick) :
    ∃ msg', overlay d store (captured paths pick) msg = some (.ok msg') := by
  induction paths generalizing msg with
  | nil => exact ⟨msg, rfl⟩
  | cons path paths ih =>
      obtain ⟨p, v, resolved, bound⟩ := coerces path List.mem_cons_self
      have assigned := (assign_ok_iff lawful).mpr ⟨p, v, resolved, bound, rfl⟩
      have typed : store.descriptor (write store v msg p) = store.descriptor msg :=
        descriptor_write lawful
      have rest : Coerces d store (store.descriptor (write store v msg p)) paths pick := by
        rw [typed]
        exact fun path inside => coerces path (List.mem_cons_of_mem _ inside)
      obtain ⟨msg', done⟩ := ih rest
      refine ⟨msg', ?_⟩
      rw [captured, List.map_cons, overlay, assigned]
      exact done

/-- Texts that coerce build a message, and so does a query with one parameter that binds. -/
theorem bindMessage_captured (fluent : d.Fluent) {binding : Binding T} {paths : List (List T)}
    {pick : List T → T} (declared : binding.body ≠ .wildcard)
    (coerces : Coerces d store binding.input paths pick) :
    ∃ msg, store.descriptor msg = binding.input ∧
      bindMessage d store binding (captured paths pick) none [] = some (.ok msg) ∧
      ∀ key raw r v, d.splitDots key ∉ paths →
        resolve store binding.input (d.splitDots key) = some r →
        boundAt d store binding.input r raw = some v →
        ∃ query, bindMessage d store binding (captured paths pick) (some query) [] =
          some (.ok (write store v msg r)) := by
  have fresh := lawful.descriptor_new binding.input
  rw [← fresh] at coerces
  obtain ⟨msg, done⟩ := overlay_captured lawful coerces
  have typed : store.descriptor msg = binding.input := (overlay_descriptor lawful done).trans fresh
  have seeded : seed d store binding [] = .ok (store.new binding.input) := by
    unfold seed
    split
    · rfl
    · rfl
    · rfl
  refine ⟨msg, typed, ?_, ?_⟩
  · simp only [bindMessage, seeded, returned, done, if_neg declared]
  · intro key raw r v unspelled resolved bound
    obtain ⟨query, parsed⟩ := fluent.carries key raw
    refine ⟨query, ?_⟩
    have bind : unguarded d (captured paths pick) [(key, raw)] = [(d.splitDots key, raw)] := by
      simp only [unguarded, List.map_cons, List.map_nil, List.filter_cons, List.filter_nil]
      rw [if_pos]
      simp only [Bool.not_eq_true', List.any_eq_false, decide_eq_true_eq]
      intro var inside same
      rw [← same, ← map_fst_captured paths pick] at unspelled
      exact unspelled (List.mem_map_of_mem inside)
    rw [← typed] at resolved bound
    have assigned := (assign_ok_iff lawful).mpr ⟨r, v, resolved, bound, rfl⟩
    simp only [bindMessage, seeded, returned, done, if_neg declared, parsed, bind, overlay, assigned]

/-- What a safe template promises for texts that coerce. -/
theorem QuerySafe.run (fluent : d.Fluent) {binding : Binding T} {paths : List (List T)}
    {pick : List T → T} (declared : binding.body ≠ .wildcard) (safe : QuerySafe d store binding paths)
    (coerces : Coerces d store binding.input paths pick) :
    ∃ msg, store.descriptor msg = binding.input ∧
      (∀ path ∈ paths, ∀ p v, resolve store binding.input path = some p →
        boundAt d store binding.input p (pick path) = some v → readAt store msg p = some v) ∧
      ∀ key raw r w, d.splitDots key ∉ paths →
        resolve store binding.input (d.splitDots key) = some r →
        boundAt d store binding.input r raw = some w →
        ∀ path ∈ paths, ∀ p v, resolve store binding.input path = some p →
          boundAt d store binding.input p (pick path) = some v →
          readAt store (write store w msg r) p = some v := by
  obtain ⟨msg, typed, built, queried⟩ := bindMessage_captured lawful fluent declared coerces
  have safe := safe _ (map_fst_captured paths pick) []
  refine ⟨msg, typed, ?_, ?_⟩
  · intro path inside p v resolved bound
    exact (safe none none msg msg built built (path, pick path)
      (List.mem_map_of_mem (f := fun path => (path, pick path)) inside) p v resolved bound).2
  · intro key raw r w unspelled resolvedKey boundKey path inside p v resolved bound
    obtain ⟨query, built'⟩ := queried key raw r w unspelled resolvedKey boundKey
    exact (safe (some query) none _ msg built' built (path, pick path)
      (List.mem_map_of_mem (f := fun path => (path, pick path)) inside) p v resolved bound).2

theorem exists_write_ne (fluent : d.Fluent) (varied : Varied d store) {msg : Msg}
    {r : List (Field T)} (leads : Leads store (store.descriptor msg) r)
    (bindable : Bindable d store (store.descriptor msg) r) (x : Option (Value T Msg)) :
    ∃ raw w, boundAt d store (store.descriptor msg) r raw = some w ∧
      readAt store (write store w msg r) r ≠ x := by
  obtain ⟨raw, w, bound⟩ := bindable
  obtain ⟨f, old, last, before, after⟩ := readAt_write lawful leads bound
  by_cases same : readAt store (write store w msg r) r = x
  · obtain ⟨raw', w', bound', unlike⟩ :=
      boundAt_varied fluent varied leads ⟨raw, w, bound⟩ (some w)
    obtain ⟨f', old', last', before', after'⟩ := readAt_write lawful leads bound'
    cases last.symm.trans last'
    cases before.symm.trans before'
    refine ⟨raw', w', bound', ?_⟩
    rw [← same, after, after']
    intro settledSame
    exact unlike (congrArg some (settled_injective (Option.some.inj settledSame)))
  · exact ⟨raw, w, bound, same⟩

section
variable (fluent : d.Fluent) (varied : Varied d store) {binding : Binding T}
  {paths : List (List T)} (declared : binding.body ≠ .wildcard)
  (singular : ∀ path ∈ paths, NamesSingular d store binding.input path)
  (safe : QuerySafe d store binding paths)
include fluent varied declared singular safe

-- the values of the two variables are chosen independently, the others stay fixed
theorem QuerySafe.apart_variables {path later : List T} {p r : List (Field T)}
    (inside : path ∈ paths) (inside' : later ∈ paths) (different : path ≠ later)
    (resolved : resolve store binding.input path = some p)
    (resolved' : resolve store binding.input later = some r) : Apart r p := by
  obtain ⟨base, coerces⟩ := exists_coerces singular
  have bindable : ∀ path ∈ paths, ∀ p, resolve store binding.input path = some p →
      Bindable d store binding.input p := by
    intro path inside p resolved
    obtain ⟨_, v, again, bound⟩ := coerces path inside
    cases resolved.symm.trans again
    exact ⟨_, v, bound⟩
  have choose_p := boundAt_varied fluent varied (resolve_leads resolved) (bindable _ inside _ resolved)
  have choose_r := boundAt_varied fluent varied (resolve_leads resolved')
    (bindable _ inside' _ resolved')
  have run : ∀ raw v raw' v', boundAt d store binding.input p raw = some v →
      boundAt d store binding.input r raw' = some v' →
      ∃ msg, store.descriptor msg = binding.input ∧ readAt store msg p = some v ∧
        readAt store msg r = some v' := by
    intro raw v raw' v' bound bound'
    obtain ⟨msg, typed, reads, _⟩ := safe.run lawful fluent declared
      ((coerces.update resolved bound).update resolved' bound')
    refine ⟨msg, typed, reads path inside p v resolved ?_, reads later inside' r v' resolved' ?_⟩
    · rwa [Function.update_of_ne different, Function.update_self]
    · rwa [Function.update_self]
  obtain ⟨raw₁, v₁, bound₁, set₁⟩ := choose_p (readAt store (store.new binding.input) p)
  obtain ⟨raw₂, v₂, bound₂, unlike₂⟩ := choose_p (some v₁)
  obtain ⟨raw₃, v₃, bound₃, set₃⟩ := choose_r (readAt store (store.new binding.input) r)
  obtain ⟨raw₄, v₄, bound₄, unlike₄⟩ := choose_r (some v₃)
  obtain ⟨msg, typed, readsP, readsR⟩ := run raw₁ v₁ raw₃ v₃ bound₁ bound₃
  refine apart_of_free lawful (resolve_leads resolved') (resolve_leads resolved) ?_ ?_ ?_
  · obtain ⟨msg', typed', readsP', readsR'⟩ := run raw₁ v₁ raw₄ v₄ bound₁ bound₄
    exact ⟨msg', msg, typed', typed, readsP'.trans readsP.symm, by rw [readsR', readsR]; exact unlike₄⟩
  · intro _
    obtain ⟨msg', typed', readsP', readsR'⟩ := run raw₂ v₂ raw₃ v₃ bound₂ bound₃
    exact ⟨msg', msg, typed', typed, readsR'.trans readsR.symm, by rw [readsP', readsP]; exact unlike₂⟩
  · exact ⟨msg, typed, by rw [readsR]; exact set₃, by rw [readsP]; exact set₁⟩

theorem QuerySafe.apart_query {key : T} {path : List T} {p r : List (Field T)}
    (unspelled : d.splitDots key ∉ paths)
    (resolvedKey : resolve store binding.input (d.splitDots key) = some r)
    (bindable : Bindable d store binding.input r) (inside : path ∈ paths)
    (resolved : resolve store binding.input path = some p) : Apart r p := by
  obtain ⟨base, coerces⟩ := exists_coerces singular
  obtain ⟨_, leaf, again, bindableP, last, shape⟩ := singular path inside
  cases resolved.symm.trans again
  have leads := resolve_leads resolved
  have leadsKey := resolve_leads resolvedKey
  have choose_p := boundAt_varied fluent varied leads bindableP
  have run : ∀ raw v, boundAt d store binding.input p raw = some v →
      ∃ msg, store.descriptor msg = binding.input ∧ readAt store msg p = some v ∧
        ∀ raw' w, boundAt d store binding.input r raw' = some w →
          readAt store (write store w msg r) p = some v := by
    intro raw v bound
    obtain ⟨msg, typed, reads, queried⟩ := safe.run lawful fluent declared
      (coerces.update resolved bound)
    have picked : boundAt d store binding.input p (Function.update base path raw path) = some v := by
      rwa [Function.update_self]
    exact ⟨msg, typed, reads path inside p v resolved picked, fun raw' w boundKey =>
      queried key raw' r w unspelled resolvedKey boundKey path inside p v resolved picked⟩
  obtain ⟨raw₁, v₁, bound₁, set₁⟩ := choose_p (readAt store (store.new binding.input) p)
  obtain ⟨raw₂, v₂, bound₂, unlike₂⟩ := choose_p (some v₁)
  obtain ⟨msg, typed, reads, queried⟩ := run raw₁ v₁ bound₁
  have avoid := fun x => exists_write_ne lawful fluent varied (typed.symm ▸ leadsKey)
    (typed.symm ▸ bindable) x
  rw [typed] at avoid
  have written : ∀ w, store.descriptor (write store w msg r) = binding.input := by
    intro w
    rw [descriptor_write lawful, typed]
  refine apart_of_free lawful leadsKey leads ?_ ?_ ?_
  · obtain ⟨raw, w, bound, changed⟩ := avoid (readAt store msg r)
    exact ⟨_, msg, written w, typed, (queried raw w bound).trans reads.symm, changed⟩
  · rintro ⟨more, rfl⟩
    obtain ⟨msg', typed', reads', queried'⟩ := run raw₂ v₂ bound₂
    obtain ⟨raw, w, bound⟩ := bindable
    obtain ⟨f, _, lastKey, _⟩ := readAt_write lawful (typed.symm ▸ leadsKey) (typed.symm ▸ bound)
    have shapeKey := leads.singular_of_append lastKey last shape
    refine ⟨write store w msg' r, write store w msg r, ?_, written w, ?_, ?_⟩
    · rw [descriptor_write lawful, typed']
    · rw [readAt_write_singular lawful (typed'.symm ▸ leadsKey) (typed'.symm ▸ bound) lastKey shapeKey,
        readAt_write_singular lawful (typed.symm ▸ leadsKey) (typed.symm ▸ bound) lastKey shapeKey]
    · rw [queried raw w bound, queried' raw w bound]
      exact unlike₂
  · obtain ⟨raw, w, bound, set⟩ := avoid (readAt store (store.new binding.input) r)
    exact ⟨_, written w, set, by rw [queried raw w bound]; exact set₁⟩

end

theorem querySafe_iff (fluent : d.Fluent) (varied : Varied d store) {binding : Binding T}
    {paths : List (List T)} (declared : binding.body ≠ .wildcard)
    (singular : ∀ path ∈ paths, NamesSingular d store binding.input path) (distinct : paths.Nodup) :
    QuerySafe d store binding paths ↔ Unshadowed d store binding.input paths := by
  constructor
  · intro safe
    constructor
    · intro path inside later inside' different p r resolved resolved'
      exact safe.apart_variables lawful fluent varied declared singular inside inside' different
        resolved resolved'
    · intro key unspelled r resolvedKey bindable path inside p resolved
      exact safe.apart_query lawful fluent varied declared singular unspelled resolvedKey bindable
        inside resolved
  · exact querySafe_of_unshadowed lawful declared singular distinct

end

end

/-- In both servers a template's path variables keep their captured values under every
query exactly when no other spelling reaches their fields. -/
theorem query_keeps_path_variables_iff (Msg : Type) :
    (∀ (debug : Str → String) (store : Store Str Msg) (binding : Binding Str)
        (paths : List (List Str)),
      store.Lawful → Varied (Rust.dialect debug) store → binding.body ≠ .wildcard →
      (∀ path ∈ paths, NamesSingular (Rust.dialect debug) store binding.input path) →
      paths.Nodup →
      (QuerySafe (Rust.dialect debug) store binding paths ↔
        Unshadowed (Rust.dialect debug) store binding.input paths)) ∧
    (∀ (debug : Bytes → String) (store : Store Bytes Msg) (binding : Binding Bytes)
        (paths : List (List Bytes)),
      store.Lawful → Varied (Go.dialect debug) store → binding.body ≠ .wildcard →
      (∀ path ∈ paths, NamesSingular (Go.dialect debug) store binding.input path) →
      paths.Nodup →
      (QuerySafe (Go.dialect debug) store binding paths ↔
        Unshadowed (Go.dialect debug) store binding.input paths)) := by
  constructor
  · intro debug store binding paths lawful varied declared singular distinct
    exact querySafe_iff lawful (Rust.dialect_fluent debug) varied declared singular distinct
  · intro debug store binding paths lawful varied declared singular distinct
    exact querySafe_iff lawful (Go.dialect_fluent debug) varied declared singular distinct

/-- The request `message Page { string user_id = 1; string token = 2; }`, for the texts of
either language. -/
inductive Page (T : Type) where
  | mk (type : T) (userId token : Value T (Page T))

section
variable {T : Type} [DecidableEq T] (word : String → T) (bytes : T → Bytes)

def userIdField : Field T := ⟨1, word "user_id", word "userId", .string, .singular, []⟩
def tokenField : Field T := ⟨2, word "token", word "token", .string, .singular, []⟩

def pages : Store T (Page T) where
  fields type := if type = word "Page" then [userIdField word, tokenField word] else []
  new type := .mk type (.string (word "")) (.string (word ""))
  descriptor | .mk type _ _ => type
  get | .mk _ userId token, f => if f.number = 1 then userId else token
  set | .mk type userId token, f, v => if f.number = 1 then .mk type v token else .mk type userId v
  readOnly _ _ := false
  deserialize _ _ := .error "expected value"
  quote text := text
  parseF32 _ := none
  parseF64 _ := none
  encode
    | .mk _ (.string userId) (.string token) =>
        let present := [(10, bytes userId), (18, bytes token)].filter fun field => field.2 ≠ []
        .ok (ProtoWire.encodeFields (present.map fun field => (field.1, ProtoWire.delimited field.2)))
    | _ => .error "type mismatch"

variable {word bytes}

theorem pages_fields {type : T} {f : Field T} (member : f ∈ (pages word bytes).fields type) :
    type = word "Page" ∧ (f = userIdField word ∨ f = tokenField word) := by
  simp only [pages] at member
  split at member
  case isTrue same => exact ⟨same, by simpa using member⟩
  case isFalse => cases member

theorem pages_lawful : (pages word bytes).Lawful where
  descriptor_new type := rfl
  descriptor_set := by
    rintro ⟨type, userId, token⟩ f v
    by_cases one : f.number = 1 <;> simp [pages, one]
  descriptor_deserialize _ _ _ done := by cases done
  get_fits msg f member := by
    obtain ⟨_, rfl | rfl⟩ := pages_fields member <;> simp [Fits, userIdField, tokenField]
  get_set := by
    rintro ⟨type, userId, token⟩ f v member _
    obtain ⟨_, rfl | rfl⟩ := pages_fields member <;> simp [pages, userIdField, tokenField]
  get_set_other := by
    rintro ⟨type, userId, token⟩ f g v member member' different _
    obtain ⟨_, rfl | rfl⟩ := pages_fields member <;> obtain ⟨_, rfl | rfl⟩ := pages_fields member' <;>
      simp_all [pages, userIdField, tokenField]
  oneof msg f g member member' different sibling := by
    obtain ⟨_, rfl | rfl⟩ := pages_fields member <;> simp [userIdField, tokenField] at sibling
  new_message type f inner member kind _ := by
    obtain ⟨_, rfl | rfl⟩ := pages_fields member <;> simp [userIdField, tokenField] at kind

theorem pages_varied (d : Dialect T) : Varied d (pages word bytes) := by
  intro type f raw v member library
  obtain ⟨_, rfl | rfl⟩ := pages_fields member <;> simp [userIdField, tokenField] at library

theorem pages_resolve_token {type : T} (page : type = word "Page")
    (spelled : word "user_id" ≠ word "token") :
    resolve (pages word bytes) type [word "token"] = some [tokenField word] := by
  simp [resolve, fieldByAnyName, pages, page, userIdField, tokenField, spelled]

theorem pages_names_token (d : Dialect T) (spelled : word "user_id" ≠ word "token") :
    NamesSingular d (pages word bytes) (word "Page") [word "token"] := by
  refine ⟨[tokenField word], tokenField word, pages_resolve_token rfl spelled, ?_, rfl, rfl⟩
  exact ⟨word "", .string (word ""), rfl⟩

/-- The token has one spelling only, and is in no oneof. -/
theorem pages_unshadowed (d : Dialect T) (spelled : word "user_id" ≠ word "token") :
    Unshadowed d (pages word bytes) (word "Page") [[word "token"]] := by
  constructor
  · intro path inside later inside' different
    rw [List.mem_singleton] at inside inside'
    exact (different (inside.trans inside'.symm)).elim
  · intro key unspelled r resolvedKey _ path inside p resolved
    rw [List.mem_singleton.mp inside, pages_resolve_token rfl spelled] at resolved
    cases resolved
    cases split : d.splitDots key with
    | nil => simp [split, resolve] at resolvedKey
    | cons name rest =>
        rw [split, resolve] at resolvedKey
        obtain ⟨f, found, resolvedKey⟩ := Option.bind_eq_some_iff.mp resolvedKey
        obtain ⟨_, field⟩ := pages_fields (fieldByAnyName_mem found)
        cases rest with
        | cons next rest =>
            rcases field with rfl | rfl <;> cases resolvedKey
        | nil =>
            cases resolvedKey
            rcases field with rfl | rfl
            · simp [Apart, userIdField, tokenField]
            · have named : word "token" = name := fieldByAnyName_named found ⟨rfl, rfl⟩
              simp [split, named] at unspelled

end

/-- The variable `token` is safe in both servers. -/
theorem token_query_safe :
    QuerySafe (Rust.dialect fun _ => "") (pages String.toList Utf8.encode) ⟨.none, "Page".toList⟩
        [["token".toList]] ∧
      QuerySafe (Go.dialect fun _ => "") (pages utf8 id) ⟨.none, utf8 "Page"⟩ [[utf8 "token"]] := by
  constructor
  · refine ((query_keeps_path_variables_iff _).1 _ _ _ _ pages_lawful (pages_varied _) (by simp) ?_
      (by simp)).mpr (pages_unshadowed _ (by decide))
    intro path inside
    rw [List.mem_singleton.mp inside]
    exact pages_names_token _ (by decide)
  · refine ((query_keeps_path_variables_iff _).2 _ _ _ _ pages_lawful (pages_varied _) (by simp) ?_
      (by simp)).mpr (pages_unshadowed _ (by decide))
    intro path inside
    rw [List.mem_singleton.mp inside]
    exact pages_names_token _ (by decide)

/-- The variable `user_id` is not: its JSON name passes the guard and binds the same field. -/
theorem user_id_overridden_by_json_name :
    (∃ msg msg', bindMessage (Rust.dialect fun _ => "") (pages String.toList Utf8.encode)
      ⟨.none, "Page".toList⟩
        [(["user_id".toList], "5".toList)] none [] = some (.ok msg) ∧
      bindMessage (Rust.dialect fun _ => "") (pages String.toList Utf8.encode) ⟨.none, "Page".toList⟩
        [(["user_id".toList], "5".toList)] (some "userId=6".toList) [] = some (.ok msg') ∧
      readAt (pages String.toList Utf8.encode) msg [userIdField String.toList] = some (.string "5".toList) ∧
      readAt (pages String.toList Utf8.encode) msg' [userIdField String.toList] = some (.string "6".toList)) ∧
    (∃ msg msg', bindMessage (Go.dialect fun _ => "") (pages utf8 id) ⟨.none, utf8 "Page"⟩
        [([utf8 "user_id"], utf8 "5")] (some []) [] = some (.ok msg) ∧
      bindMessage (Go.dialect fun _ => "") (pages utf8 id) ⟨.none, utf8 "Page"⟩
        [([utf8 "user_id"], utf8 "5")] (some (utf8 "userId=6")) [] = some (.ok msg') ∧
      readAt (pages utf8 id) msg [userIdField utf8] = some (.string (utf8 "5")) ∧
      readAt (pages utf8 id) msg' [userIdField utf8] = some (.string (utf8 "6"))) := by
  constructor
  · exact ⟨_, _, rfl, rfl, rfl, rfl⟩
  · exact ⟨_, _, rfl, rfl, rfl, rfl⟩

end GrpcWebnext.HttpRule
