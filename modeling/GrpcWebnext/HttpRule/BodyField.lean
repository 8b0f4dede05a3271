import GrpcWebnext.HttpRule.PathVariables

/-! A query parameter on the field that the body supplies: what `build_message` refuses,
and what it lets through. -/
namespace GrpcWebnext.HttpRule
open Framing (Bytes)
open Text (Str)

theorem except_map_error_iff {ε α β : Type} {e : Except ε α} {g : α → β} {fault : ε} :
    e.map g = .error fault ↔ e = .error fault := by
  cases e <;> simp [Except.map]

theorem returned_error_iff {α : Type} {e : Except Fault α} {text : String} :
    returned e = some (.error text) ↔ e = .error (.error text) := by
  cases e with
  | ok value => simp [returned]
  | error fault => cases fault <;> simp [returned]

section
variable {T Msg : Type} [DecidableEq T] (d : Dialect T) (store : Store T Msg)

/-- The path names a field of the type that takes the text. -/
def Binds (type : T) (param : List T × T) : Prop :=
  ∃ r v, resolve store type param.1 = some r ∧ boundAt d store type r param.2 = some v

/-- The assignment is refused with an error, on an empty message as on any other. -/
def RefusesParam (type : T) (param : List T × T) : Prop :=
  ∃ e, assign d store (store.new type) param.1 param.2 = some (.error e)

/-- The first of the assignments that is not made is refused with an error. -/
def RefusesAll (type : T) (params : List (List T × T)) : Prop :=
  ∃ front param back, params = front ++ param :: back ∧ (∀ before ∈ front, Binds d store type before) ∧
    RefusesParam d store type param

/-- Some parameter of the query has a path that starts at the field of the body. -/
def NamesBodyField (binding : Binding T) (query : Option T) : Prop :=
  ∃ name field q pairs pair head rest, binding.body = .field name ∧
    fieldByAnyName store binding.input name = some field ∧
    query = some q ∧ d.parseQuery q = some pairs ∧ pair ∈ pairs ∧
    d.splitDots pair.1 = head :: rest ∧ fieldByAnyName store binding.input head = some field

/-- `build_message` returns an error. -/
def ReturnsError (binding : Binding T) (vars : List (List T × T)) (query : Option T) (body : Bytes) :
    Prop :=
  ∃ e, buildMessage d store binding vars query body = some (.error e)

/-- The assignments of the query: none of them under a wildcard body. -/
def queryParams (binding : Binding T) (vars : List (List T × T)) (query : Option T) :
    Option (List (List T × T)) :=
  if binding.body = .wildcard then some []
  else match query with
    | none => some []
    | some q => (d.parseQuery q).map (unguarded d vars)

/-- The path starts at the field of the body. -/
def OnBodyField (binding : Binding T) (param : List T × T) : Prop :=
  ∃ name field head rest, binding.body = .field name ∧ fieldByAnyName store binding.input name = some field ∧
    param.1 = head :: rest ∧ fieldByAnyName store binding.input head = some field

/-- The request is refused before a parameter on the field of the body is assigned: the body
is no value of the field, or a path variable is refused, or, of the parameters of the query,
the first that is not made, with none on that field before it. -/
inductive RefusedFirst (binding : Binding T) (vars : List (List T × T)) (query : Option T)
    (body : Bytes) : Prop where
  | body (e : String) (refused : seed d store binding body = .error (.error e))
  | path (start : Msg) (seeded : seed d store binding body = .ok start)
      (refused : RefusesAll d store binding.input vars)
  | query (start : Msg) (seeded : seed d store binding body = .ok start)
      (bound : ∀ var ∈ vars, Binds d store binding.input var)
      (front : List (List T × T)) (param : List T × T) (back : List (List T × T))
      (params : queryParams d binding vars query = some (front ++ param :: back))
      (before : ∀ other ∈ front, Binds d store binding.input other ∧ ¬ OnBodyField store binding other)
      (refused : RefusesParam d store binding.input param)

/-- The body is a value of its field, and every path variable and every parameter of the
query names a field that takes its text. -/
structure AllBound (binding : Binding T) (vars : List (List T × T)) (query : Option T)
    (body : Bytes) : Prop where
  seeded : ∃ start, seed d store binding body = .ok start
  params : ∃ params, queryParams d binding vars query = some params ∧
    ∀ param ∈ vars ++ params, Binds d store binding.input param

variable {d store}

omit [DecidableEq T] in
theorem fits_message (lawful : store.Lawful) {msg msg' : Msg} {f : Field T} {inner : T}
    (typed : store.descriptor msg = store.descriptor msg')
    (member : f ∈ store.fields (store.descriptor msg)) (kind : f.kind = .message inner)
    (shape : f.shape = .singular) :
    ∃ sub sub', store.get msg f = .message sub ∧ store.get msg' f = .message sub' ∧
      store.descriptor sub = store.descriptor sub' := by
  obtain ⟨sub, holds, here⟩ := (lawful.get_fits msg f member).2 inner kind shape
  obtain ⟨sub', holds', there⟩ := (lawful.get_fits msg' f (typed ▸ member)).2 inner kind shape
  exact ⟨sub, sub', holds, holds', here.trans there.symm⟩

theorem setLeaf_fault {msg msg' : Msg} (typed : store.descriptor msg = store.descriptor msg')
    (f : Field T) (raw : T) {fault : Fault} (failed : setLeaf d store msg f raw = .error fault) :
    setLeaf d store msg' f raw = .error fault := by
  unfold setLeaf at failed ⊢
  split at failed
  · rw [setFromJson, except_map_error_iff] at failed ⊢
    rw [← typed]
    exact failed
  · split at failed
    · rw [setFromJson, except_map_error_iff] at failed ⊢
      rw [← typed]
      exact failed
    · rw [setFromJson, except_map_error_iff] at failed ⊢
      rw [← typed]
      exact failed
    · exact failed
  · rw [except_map_error_iff] at failed ⊢
    exact failed
  · rw [except_map_error_iff] at failed ⊢
    exact failed

/-- Whether and how an assignment fails depends on the type of the message only. -/
theorem setByPath_fault (lawful : store.Lawful) {msg msg' : Msg}
    (typed : store.descriptor msg = store.descriptor msg') (raw name : T) (rest : List T)
    {fault : Fault} (failed : setByPath d store msg raw name rest = .error fault) :
    setByPath d store msg' raw name rest = .error fault := by
  induction rest generalizing msg msg' name with
  | nil =>
      rw [setByPath] at failed ⊢
      rw [← typed]
      cases found : fieldByAnyName store (store.descriptor msg) name with
      | none =>
          rw [found] at failed
          exact failed
      | some f =>
          rw [found] at failed
          exact setLeaf_fault typed f raw failed
  | cons next rest ih =>
      rw [setByPath] at failed ⊢
      rw [← typed]
      cases found : fieldByAnyName store (store.descriptor msg) name with
      | none =>
          rw [found] at failed
          exact failed
      | some f =>
          rw [found] at failed
          have member := fieldByAnyName_mem found
          by_cases isMessage : ∃ inner, f.kind = .message inner ∧ f.shape = .singular
          · obtain ⟨inner, kind, shape⟩ := isMessage
            obtain ⟨sub, sub', holds, holds', same⟩ := fits_message lawful typed member kind shape
            simp only [kind, shape, holds, holds', except_map_error_iff] at failed ⊢
            exact ih same next failed
          · simp only at failed ⊢
            split at failed
            · rename_i inner sub kind shape holds
              exact absurd ⟨inner, kind, shape⟩ isMessage
            · split
              · rename_i inner sub kind shape holds
                exact absurd ⟨inner, kind, shape⟩ isMessage
              · exact failed

theorem assign_error_iff (lawful : store.Lawful) {msg msg' : Msg}
    (typed : store.descriptor msg = store.descriptor msg') {path : List T} {raw : T} {e : String} :
    assign d store msg path raw = some (.error e) ↔ assign d store msg' path raw = some (.error e) := by
  cases path with
  | nil => simp [assign]
  | cons name rest =>
      simp only [assign, returned_error_iff]
      exact ⟨setByPath_fault lawful typed raw name rest,
        setByPath_fault lawful typed.symm raw name rest⟩

theorem refusesParam_iff (lawful : store.Lawful) {msg : Msg} {param : List T × T} :
    RefusesParam d store (store.descriptor msg) param ↔
      ∃ e, assign d store msg param.1 param.2 = some (.error e) := by
  have typed := lawful.descriptor_new (store.descriptor msg)
  simp only [RefusesParam, assign_error_iff lawful typed]

theorem binds_iff (lawful : store.Lawful) {msg : Msg} {param : List T × T} :
    Binds d store (store.descriptor msg) param ↔
      ∃ msg', assign d store msg param.1 param.2 = some (.ok msg') := by
  simp only [Binds, assign_ok_iff lawful]
  constructor
  · rintro ⟨r, v, resolved, bound⟩
    exact ⟨_, r, v, resolved, bound, rfl⟩
  · rintro ⟨_, r, v, resolved, bound, _⟩
    exact ⟨r, v, resolved, bound⟩

theorem assign_descriptor (lawful : store.Lawful) {msg msg' : Msg} {path : List T} {raw : T}
    (done : assign d store msg path raw = some (.ok msg')) :
    store.descriptor msg' = store.descriptor msg := by
  obtain ⟨r, v, _, _, rfl⟩ := (assign_ok_iff lawful).mp done
  exact descriptor_write lawful

theorem overlay_error_iff (lawful : store.Lawful) {params : List (List T × T)} {msg : Msg} :
    (∃ e, overlay d store params msg = some (.error e)) ↔
      RefusesAll d store (store.descriptor msg) params := by
  induction params generalizing msg with
  | nil => simp [overlay, RefusesAll]
  | cons param params ih =>
      obtain ⟨path, raw⟩ := param
      rw [overlay]
      cases assigned : assign d store msg path raw with
      | none =>
          refine iff_of_false (by simp) ?_
          rintro ⟨front, param, back, split, bound, refused⟩
          cases front with
          | nil =>
              cases split
              obtain ⟨e, fails⟩ := (refusesParam_iff lawful).mp refused
              rw [assigned] at fails
              cases fails
          | cons first front =>
              cases split
              obtain ⟨msg', done⟩ := (binds_iff lawful).mp (bound _ List.mem_cons_self)
              rw [assigned] at done
              cases done
      | some outcome =>
          cases outcome with
          | error e =>
              refine iff_of_true ⟨e, rfl⟩ ⟨[], (path, raw), params, rfl, by simp, ?_⟩
              exact (refusesParam_iff lawful).mpr ⟨e, assigned⟩
          | ok middle =>
              have typed := assign_descriptor lawful assigned
              have first : Binds d store (store.descriptor msg) (path, raw) :=
                (binds_iff lawful).mpr ⟨middle, assigned⟩
              simp only [ih, typed]
              constructor
              · rintro ⟨front, param, back, rfl, bound, refused⟩
                exact ⟨(path, raw) :: front, param, back, rfl, List.forall_mem_cons.mpr ⟨first, bound⟩,
                  refused⟩
              · rintro ⟨front, param, back, split, bound, refused⟩
                cases front with
                | nil =>
                    cases split
                    obtain ⟨e, fails⟩ := (refusesParam_iff lawful).mp refused
                    rw [assigned] at fails
                    cases fails
                | cons other front =>
                    cases split
                    exact ⟨front, param, back, rfl, (List.forall_mem_cons.mp bound).2, refused⟩

theorem overlay_append (front back : List (List T × T)) (msg : Msg) :
    overlay d store (front ++ back) msg = match overlay d store front msg with
      | some (.ok msg) => overlay d store back msg
      | other => other := by
  induction front generalizing msg with
  | nil => rfl
  | cons param front ih =>
      rw [List.cons_append, overlay, overlay]
      split
      · exact ih _
      · rename_i other notOk
        split
        · exact absurd ‹_› (notOk _)
        · rfl

/-- The body first, then the path variables and the query parameters as one list. -/
theorem bindMessage_eq {binding : Binding T} {vars : List (List T × T)} {query : Option T}
    {body : Bytes} {start : Msg} {params : List (List T × T)}
    (seeded : seed d store binding body = .ok start)
    (parsed : queryParams d binding vars query = some params) :
    bindMessage d store binding vars query body = overlay d store (vars ++ params) start := by
  rw [overlay_append]
  simp only [bindMessage, seeded, returned]
  cases overlaid : overlay d store vars start with
  | none => rfl
  | some outcome =>
      cases outcome with
      | error e => rfl
      | ok middle =>
          simp only
          unfold queryParams at parsed
          split at parsed
          · cases parsed
            rw [if_pos ‹_›]
            rfl
          · rw [if_neg ‹_›]
            cases query with
            | none =>
                cases parsed
                rfl
            | some q =>
                obtain ⟨pairs, read, rfl⟩ := Option.map_eq_some_iff.mp parsed
                simp only [read]

theorem buildMessage_error_iff {binding : Binding T} {vars : List (List T × T)} {query : Option T}
    {body : Bytes} : ReturnsError d store binding vars query body ↔
      (∃ e, bindMessage d store binding vars query body = some (.error e)) ∨
        ∃ msg e, bindMessage d store binding vars query body = some (.ok msg) ∧
          store.encode msg = .error e := by
  unfold ReturnsError buildMessage
  cases bindMessage d store binding vars query body with
  | none => simp
  | some built => cases built <;> simp

theorem not_error_of_ok {binding : Binding T} {vars : List (List T × T)} {query : Option T}
    {body encoded : Bytes}
    (built : buildMessage d store binding vars query body = some (.ok encoded)) :
    ¬ ReturnsError d store binding vars query body := by
  rintro ⟨e, failed⟩
  rw [built] at failed
  cases failed

theorem seed_typed (lawful : store.Lawful) {binding : Binding T} {body : Bytes} {start : Msg}
    (seeded : seed d store binding body = .ok start) : store.descriptor start = binding.input := by
  by_cases declared : binding.body = .wildcard
  · unfold seed at seeded
    rw [declared] at seeded
    simp only at seeded
    split at seeded
    · cases seeded
      exact lawful.descriptor_new _
    · split at seeded
      · cases seeded
        exact lawful.descriptor_deserialize _ _ _ ‹_›
      · cases seeded
  · exact seed_descriptor lawful declared seeded

theorem bindMessage_body_refused {binding : Binding T} {vars : List (List T × T)} {query : Option T}
    {body : Bytes} {e : String} (refused : seed d store binding body = .error (.error e)) :
    bindMessage d store binding vars query body = some (.error e) := by
  rw [bindMessage, refused]
  rfl

/-- A refused path variable is an error, whatever the query. -/
theorem bindMessage_path_refused (lawful : store.Lawful) {binding : Binding T} {vars : List (List T × T)}
    {query : Option T} {body : Bytes} {start : Msg} (seeded : seed d store binding body = .ok start)
    (refused : RefusesAll d store binding.input vars) :
    ∃ e, bindMessage d store binding vars query body = some (.error e) := by
  rw [← seed_typed lawful seeded] at refused
  obtain ⟨e, overlaid⟩ := (overlay_error_iff lawful).mpr refused
  refine ⟨e, ?_⟩
  simp only [bindMessage, seeded, returned, overlaid]

theorem RefusedFirst.returnsError (lawful : store.Lawful) {binding : Binding T}
    {vars : List (List T × T)} {query : Option T} {body : Bytes}
    (first : RefusedFirst d store binding vars query body) :
    ReturnsError d store binding vars query body := by
  refine buildMessage_error_iff.mpr (.inl ?_)
  cases first with
  | body e refused => exact ⟨e, bindMessage_body_refused refused⟩
  | path start seeded refused => exact bindMessage_path_refused lawful seeded refused
  | query start seeded bound front param back params before refused =>
      have all : RefusesAll d store binding.input (vars ++ (front ++ param :: back)) := by
        refine ⟨vars ++ front, param, back, by simp, fun other member => ?_, refused⟩
        rcases List.mem_append.mp member with var | earlier
        · exact bound other var
        · exact (before other earlier).1
      rw [← seed_typed lawful seeded] at all
      rw [bindMessage_eq seeded params]
      exact (overlay_error_iff lawful).mpr all

theorem overlay_bound (lawful : store.Lawful) {params : List (List T × T)} {msg : Msg}
    (bound : ∀ param ∈ params, Binds d store (store.descriptor msg) param) :
    ∃ msg', overlay d store params msg = some (.ok msg') := by
  induction params generalizing msg with
  | nil => exact ⟨msg, rfl⟩
  | cons param params ih =>
      obtain ⟨first, rest⟩ := List.forall_mem_cons.mp bound
      obtain ⟨middle, assigned⟩ := (binds_iff lawful).mp first
      rw [← assign_descriptor lawful assigned] at rest
      obtain ⟨last, overlaid⟩ := ih rest
      refine ⟨last, ?_⟩
      rw [overlay, assigned]
      exact overlaid

/-- Where all is bound, only the encoding of the message can fail, whatever the parameters
are on. -/
theorem AllBound.returnsError_iff (lawful : store.Lawful) {binding : Binding T}
    {vars : List (List T × T)} {query : Option T} {body : Bytes}
    (all : AllBound d store binding vars query body) :
    ∃ msg, bindMessage d store binding vars query body = some (.ok msg) ∧
      (ReturnsError d store binding vars query body ↔ ∃ e, store.encode msg = .error e) := by
  obtain ⟨start, seeded⟩ := all.seeded
  obtain ⟨params, read, bound⟩ := all.params
  rw [← seed_typed lawful seeded] at bound
  obtain ⟨msg, overlaid⟩ := overlay_bound lawful bound
  have built := (bindMessage_eq seeded read).trans overlaid
  refine ⟨msg, built, ?_⟩
  rw [buildMessage_error_iff, built]
  simp

end

/-- In both servers nothing looks whether a query parameter is on the field of the body. A
query with such a parameter is refused if the request fails before one of them is assigned,
and is not if everything binds. -/
theorem query_on_body_field_refused (Msg : Type) :
    (∀ (debug : Str → String) (store : Store Str Msg) (binding : Binding Str)
        (vars : List (List Str × Str)) (query : Option Str) (body : Bytes), store.Lawful →
      (¬ NamesBodyField (Rust.dialect debug) store binding query ∨
          RefusedFirst (Rust.dialect debug) store binding vars query body →
        NamesBodyField (Rust.dialect debug) store binding query →
          ReturnsError (Rust.dialect debug) store binding vars query body) ∧
      (AllBound (Rust.dialect debug) store binding vars query body →
        ∃ msg, bindMessage (Rust.dialect debug) store binding vars query body = some (.ok msg) ∧
          (ReturnsError (Rust.dialect debug) store binding vars query body ↔
            ∃ e, store.encode msg = .error e))) ∧
    (∀ (debug : Bytes → String) (store : Store Bytes Msg) (binding : Binding Bytes)
        (vars : List (List Bytes × Bytes)) (query : Option Bytes) (body : Bytes), store.Lawful →
      (¬ NamesBodyField (Go.dialect debug) store binding query ∨
          RefusedFirst (Go.dialect debug) store binding vars query body →
        NamesBodyField (Go.dialect debug) store binding query →
          ReturnsError (Go.dialect debug) store binding vars query body) ∧
      (AllBound (Go.dialect debug) store binding vars query body →
        ∃ msg, bindMessage (Go.dialect debug) store binding vars query body = some (.ok msg) ∧
          (ReturnsError (Go.dialect debug) store binding vars query body ↔
            ∃ e, store.encode msg = .error e))) := by
  constructor
  · intro debug store binding vars query body lawful
    constructor
    · rintro (absent | first) names
      · exact absurd names absent
      · exact first.returnsError lawful
    · exact fun all => all.returnsError_iff lawful
  · intro debug store binding vars query body lawful
    constructor
    · rintro (absent | first) names
      · exact absurd names absent
      · exact first.returnsError lawful
    · exact fun all => all.returnsError_iff lawful

section
variable {T : Type} [DecidableEq T] (word : String → T) (bytes : T → Bytes) (append : T → T → T)

/-- The pages with a decoder for the one document that the body `"5"` is made into. -/
def decodedPages : Store T (Page T) :=
  { pages word bytes with
    quote := fun text => append (append (word "\"") text) (word "\"")
    deserialize := fun type text =>
      if type = word "Page" ∧ text = utf8 "\x7b\"userId\":\"5\"\x7d" then
        .ok (.mk type (.string (word "5")) (.string (word "")))
      else .error "expected value" }

variable {word bytes append}

theorem decodedPages_lawful : (decodedPages word bytes append).Lawful :=
  { (pages_lawful : (pages word bytes).Lawful) with
    descriptor_deserialize := by
      intro type text msg done
      simp only [decodedPages] at done
      split at done
      · cases done
        rfl
      · cases done }

end

/-- With `body: "user_id"` a query on a field below it is refused, for the field is no
message; a query on the field itself binds. -/
theorem below_user_id_refused :
    (ReturnsError (Rust.dialect fun _ => "") (decodedPages String.toList Utf8.encode (· ++ ·))
        ⟨.field "user_id".toList, "Page".toList⟩ [] (some "user_id.x=6".toList) (utf8 "\"5\"") ∧
      ∃ msg, bindMessage (Rust.dialect fun _ => "") (decodedPages String.toList Utf8.encode (· ++ ·))
        ⟨.field "user_id".toList, "Page".toList⟩ [] (some "userId=6".toList) (utf8 "\"5\"") =
          some (.ok msg)) ∧
      ReturnsError (Go.dialect fun _ => "") (decodedPages utf8 id (· ++ ·))
        ⟨.field (utf8 "user_id"), utf8 "Page"⟩ [] (some (utf8 "user_id.x=6")) (utf8 "\"5\"") ∧
      ∃ msg, bindMessage (Go.dialect fun _ => "") (decodedPages utf8 id (· ++ ·))
        ⟨.field (utf8 "user_id"), utf8 "Page"⟩ [] (some (utf8 "userId=6")) (utf8 "\"5\"") =
          some (.ok msg) := by
  refine ⟨⟨?_, ?_⟩, ?_, ?_⟩
  · refine ((query_on_body_field_refused _).1 _ _ _ _ _ _ decodedPages_lawful).1
      (.inr (.query _ rfl (by simp) [] (["user_id".toList, "x".toList], "6".toList) [] rfl (by simp)
        ⟨_, rfl⟩)) ?_
    exact ⟨_, userIdField String.toList, _, [("user_id.x".toList, "6".toList)], _, "user_id".toList,
      ["x".toList], rfl, rfl, rfl, rfl, List.mem_singleton_self _, rfl, rfl⟩
  · obtain ⟨msg, built, _⟩ := ((query_on_body_field_refused _).1 (fun _ => "")
      (decodedPages String.toList Utf8.encode (· ++ ·)) ⟨.field "user_id".toList, "Page".toList⟩ []
      (some "userId=6".toList) (utf8 "\"5\"") decodedPages_lawful).2
      ⟨⟨_, rfl⟩, [(["userId".toList], "6".toList)], rfl,
        List.forall_mem_singleton.mpr ⟨[userIdField String.toList], _, rfl, rfl⟩⟩
    exact ⟨msg, built⟩
  · refine ((query_on_body_field_refused _).2 _ _ _ _ _ _ decodedPages_lawful).1
      (.inr (.query _ rfl (by simp) [] ([utf8 "user_id", utf8 "x"], utf8 "6") [] rfl (by simp) ⟨_, rfl⟩)) ?_
    exact ⟨_, userIdField utf8, _, [(utf8 "user_id.x", utf8 "6")], _, utf8 "user_id",
      [utf8 "x"], rfl, rfl, rfl, rfl, List.mem_singleton_self _, rfl, rfl⟩
  · obtain ⟨msg, built, _⟩ := ((query_on_body_field_refused _).2 (fun _ => "")
      (decodedPages utf8 id (· ++ ·)) ⟨.field (utf8 "user_id"), utf8 "Page"⟩ []
      (some (utf8 "userId=6")) (utf8 "\"5\"") decodedPages_lawful).2
      ⟨⟨_, rfl⟩, [([utf8 "userId"], utf8 "6")], rfl,
        List.forall_mem_singleton.mpr ⟨[userIdField utf8], _, rfl, rfl⟩⟩
    exact ⟨msg, built⟩

/-- With `body: "user_id"`, the body `"5"` and the query `userId=6` both servers accept the
request, and the field is what the query says. -/
theorem body_field_overwritten :
    (buildMessage (Rust.dialect fun _ => "") (decodedPages String.toList Utf8.encode (· ++ ·))
        ⟨.field "user_id".toList, "Page".toList⟩ [] none (utf8 "\"5\"") = some (.ok [10, 1, 53]) ∧
      buildMessage (Rust.dialect fun _ => "") (decodedPages String.toList Utf8.encode (· ++ ·))
        ⟨.field "user_id".toList, "Page".toList⟩ [] (some "userId=6".toList) (utf8 "\"5\"") =
          some (.ok [10, 1, 54]) ∧
      ¬ (NamesBodyField (Rust.dialect fun _ => "") (decodedPages String.toList Utf8.encode (· ++ ·))
          ⟨.field "user_id".toList, "Page".toList⟩ (some "userId=6".toList) →
        ReturnsError (Rust.dialect fun _ => "") (decodedPages String.toList Utf8.encode (· ++ ·))
          ⟨.field "user_id".toList, "Page".toList⟩ [] (some "userId=6".toList) (utf8 "\"5\""))) ∧
    (buildMessage (Go.dialect fun _ => "") (decodedPages utf8 id (· ++ ·))
        ⟨.field (utf8 "user_id"), utf8 "Page"⟩ [] none (utf8 "\"5\"") = some (.ok [10, 1, 53]) ∧
      buildMessage (Go.dialect fun _ => "") (decodedPages utf8 id (· ++ ·))
        ⟨.field (utf8 "user_id"), utf8 "Page"⟩ [] (some (utf8 "userId=6")) (utf8 "\"5\"") =
          some (.ok [10, 1, 54]) ∧
      ¬ (NamesBodyField (Go.dialect fun _ => "") (decodedPages utf8 id (· ++ ·))
          ⟨.field (utf8 "user_id"), utf8 "Page"⟩ (some (utf8 "userId=6")) →
        ReturnsError (Go.dialect fun _ => "") (decodedPages utf8 id (· ++ ·))
          ⟨.field (utf8 "user_id"), utf8 "Page"⟩ [] (some (utf8 "userId=6")) (utf8 "\"5\""))) := by
  refine ⟨⟨rfl, rfl, fun refuses => ?_⟩, rfl, rfl, fun refuses => ?_⟩
  · refine not_error_of_ok rfl (refuses ?_)
    exact ⟨_, userIdField String.toList, _, [("userId".toList, "6".toList)], _, "userId".toList, [],
      rfl, rfl, rfl, rfl, List.mem_singleton_self _, rfl, rfl⟩
  · refine not_error_of_ok rfl (refuses ?_)
    exact ⟨_, userIdField utf8, _, [(utf8 "userId", utf8 "6")], _, utf8 "userId", [],
      rfl, rfl, rfl, rfl, List.mem_singleton_self _, rfl, rfl⟩

end GrpcWebnext.HttpRule
