import GrpcWebnext.HttpRule.BodyField
import GrpcWebnext.Library.Fallible

/-! Repeated query parameters on a repeated field: what the list holds behind what the body
and the path put there. -/
namespace GrpcWebnext.HttpRule
open Framing (Bytes)
open Text (Str)

section
variable {T Msg : Type} [DecidableEq T] (d : Dialect T) (store : Store T Msg)

/-- No member of a oneof is repeated. -/
def ListsOutsideOneofs : Prop :=
  ∀ type, ∀ f ∈ store.fields type, ∀ g ∈ store.fields type, f.shape = .list → f.number ∉ g.siblings

/-- The decoder takes no string for a repeated field. -/
def StringIsNoList : Prop :=
  ∀ type f raw, f.shape = .list →
    ∃ e, store.deserialize type (d.bytes (document d store f (store.quote raw))) = .error e

/-- The list element that a text stands for. The text of bytes is their base64 form. -/
def elementOf (base64 : T → Option Bytes) (field : Field T) (raw : T) : Option (Value T Msg) :=
  match field.kind with
  | .bytes => (base64 raw).map .bytes
  | _ => (coerce d store field raw).toOption

/-- The texts of the parameters that name the field, in the order of the query. -/
def occurrences (type : T) (p : List (Field T)) (params : List (List T × T)) : List T :=
  (params.filter fun param => resolve store type param.1 = some p).map Prod.snd

/-- No other parameter is on a message around the field, or on a oneof sibling of such a
message. A field of the request message itself has neither. -/
def Undisturbed (binding : Binding T) (vars : List (List T × T)) (query : Option T)
    (p : List (Field T)) : Prop :=
  p.length = 1 ∨ ∀ params, queryParams d binding vars query = some params →
    ∀ param ∈ params, ∀ r, resolve store binding.input param.1 = some r → r ≠ p → Apart r p

/-- A request whose body, path variables and query parameters all bind and whose texts for
one repeated field of a scalar kind are all values of it. -/
structure Repeats (base64 : T → Option Bytes) (binding : Binding T) (vars : List (List T × T))
    (query : Option T) (body : Bytes) (p : List (Field T)) (field : Field T)
    (items values : List (Value T Msg)) : Prop where
  leads : Leads store binding.input p
  last : p.getLast? = some field
  repeated : field.shape = .list
  scalar : ∀ inner, field.kind ≠ .message inner
  supplied : ∃ start base, seed d store binding body = .ok start ∧
    overlay d store vars start = some (.ok base) ∧ readAt store base p = some (.list items)
  queried : ∃ params, queryParams d binding vars query = some params ∧
    (occurrences store binding.input p params).mapM (elementOf d store base64 field) = some values ∧
    ∀ param ∈ params, resolve store binding.input param.1 ≠ some p →
      Binds d store binding.input param

/-- The field ends as the list that body and path supplied with the values behind it. -/
def Accumulates (binding : Binding T) (vars : List (List T × T)) (query : Option T) (body : Bytes)
    (p : List (Field T)) (items values : List (Value T Msg)) : Prop :=
  ∃ msg, bindMessage d store binding vars query body = some (.ok msg) ∧
    readAt store msg p = some (.list (items ++ values))

variable {d store}

/-- What binds at the end of a path is what binds at its last field. -/
theorem boundAt_last {type : T} {p : List (Field T)} {field : Field T} (leads : Leads store type p)
    (last : p.getLast? = some field) :
    ∃ inner, field ∈ store.fields inner ∧
      ∀ raw, boundAt d store type p raw = boundValue d store inner field raw := by
  induction p generalizing type with
  | nil => exact leads.elim
  | cons f p ih =>
      cases p with
      | nil =>
          cases last
          exact ⟨type, leads, fun raw => rfl⟩
      | cons g p =>
          obtain ⟨_, _, inner, kind, deeper⟩ := leads
          obtain ⟨owner, member, same⟩ := ih deeper last
          refine ⟨owner, member, fun raw => ?_⟩
          rw [boundAt_cons (List.cons_ne_nil g p) kind]
          exact same raw

theorem boundAt_scalar {type : T} {p : List (Field T)} {field : Field T} (leads : Leads store type p)
    (last : p.getLast? = some field) (scalar : ∀ inner, field.kind ≠ .message inner)
    (notBytes : field.kind ≠ .bytes) (base64 : T → Option Bytes) (raw : T) :
    boundAt d store type p raw = elementOf d store base64 field raw := by
  obtain ⟨owner, _, same⟩ := boundAt_last leads last
  rw [same, boundValue_coerce notBytes fun inner kind => absurd kind (scalar inner)]
  unfold elementOf
  split
  · exact absurd ‹_› notBytes
  · rfl

theorem boundAt_bytes {type : T} {p : List (Field T)} {field : Field T} (leads : Leads store type p)
    (last : p.getLast? = some field) (kind : field.kind = .bytes) (repeated : field.shape = .list)
    (strings : StringIsNoList d store) (raw : T) : boundAt d store type p raw = none := by
  obtain ⟨owner, _, same⟩ := boundAt_last leads last
  obtain ⟨e, failed⟩ := strings owner field raw repeated
  rw [same]
  simp only [boundValue, kind, valueFromJson, failed, Except.toOption]

theorem overlay_ok_iff (lawful : store.Lawful) {params : List (List T × T)} {msg : Msg} :
    (∃ msg', overlay d store params msg = some (.ok msg')) ↔
      ∀ param ∈ params, Binds d store (store.descriptor msg) param := by
  induction params generalizing msg with
  | nil => simp [overlay]
  | cons param params ih =>
      rw [List.forall_mem_cons]
      constructor
      · rintro ⟨msg', done⟩
        obtain ⟨r, v, resolved, bound, rest⟩ := overlay_cons_ok lawful done
        have later := ih.mp ⟨msg', rest⟩
        rw [descriptor_write lawful] at later
        exact ⟨⟨r, v, resolved, bound⟩, later⟩
      · rintro ⟨first, later⟩
        obtain ⟨middle, assigned⟩ := (binds_iff lawful).mp first
        rw [← assign_descriptor lawful assigned] at later
        obtain ⟨msg', rest⟩ := ih.mpr later
        exact ⟨msg', by rw [overlay, assigned]; exact rest⟩

theorem apart_of_undisturbed (lists : ListsOutsideOneofs store) {type : T} {p : List (Field T)}
    {field : Field T} {params : List (List T × T)} (leads : Leads store type p)
    (last : p.getLast? = some field) (repeated : field.shape = .list)
    (undisturbed : p.length = 1 ∨
      ∀ param ∈ params, ∀ r, resolve store type param.1 = some r → r ≠ p → Apart r p) :
    ∀ param ∈ params, ∀ r, resolve store type param.1 = some r → r ≠ p → Apart r p := by
  rcases undisturbed with top | apart
  · intro param _ r resolved other
    obtain ⟨f, rfl⟩ := List.length_eq_one_iff.mp top
    rw [List.getLast?_singleton, Option.some.injEq] at last
    subst last
    have other_leads := resolve_leads resolved
    cases r with
    | nil => exact other_leads.elim
    | cons g r =>
        rw [Apart]
        split
        case isTrue same =>
            subst same
            cases r with
            | nil => exact absurd rfl other
            | cons h r =>
                have singular := other_leads.2.1
                rw [repeated] at singular
                cases singular
        case isFalse => exact lists type f leads g other_leads.mem repeated
  · exact apart

/-- The values of a parameter list go behind the list, one after the other. -/
theorem overlay_accumulates (lawful : store.Lawful) {params : List (List T × T)} {msg msg' : Msg}
    {p : List (Field T)} {field : Field T} {base64 : T → Option Bytes} {items values : List (Value T Msg)}
    (leads : Leads store (store.descriptor msg) p) (last : p.getLast? = some field)
    (repeated : field.shape = .list) (scalar : ∀ inner, field.kind ≠ .message inner)
    (ready : field.kind ≠ .bytes ∨ occurrences store (store.descriptor msg) p params = [])
    (apart : ∀ param ∈ params, ∀ r, resolve store (store.descriptor msg) param.1 = some r → r ≠ p →
      Apart r p)
    (reads : readAt store msg p = some (.list items))
    (elements : (occurrences store (store.descriptor msg) p params).mapM
      (elementOf d store base64 field) = some values)
    (done : overlay d store params msg = some (.ok msg')) :
    readAt store msg' p = some (.list (items ++ values)) := by
  induction params generalizing msg items values with
  | nil =>
      cases done
      have none : values = [] := (Option.some.inj elements).symm
      rw [none, List.append_nil]
      exact reads
  | cons param params ih =>
      obtain ⟨r, v, resolved, bound, rest⟩ := overlay_cons_ok lawful done
      have typed : store.descriptor (write store v msg r) = store.descriptor msg :=
        descriptor_write lawful
      obtain ⟨apartHere, apartLater⟩ := List.forall_mem_cons.mp apart
      by_cases here : r = p
      · subst here
        have first : occurrences store (store.descriptor msg) r (param :: params) =
            param.2 :: occurrences store (store.descriptor msg) r params := by
          simp [occurrences, resolved]
        have notBytes : field.kind ≠ .bytes := by
          rcases ready with kind | none
          · exact kind
          · rw [first] at none
            cases none
        rw [first, List.mapM_cons] at elements
        have coerced := (boundAt_scalar leads last scalar notBytes base64 param.2).symm.trans bound
        obtain ⟨w, coerced', elements⟩ := Option.bind_eq_some_iff.mp elements
        obtain ⟨tail, later, same⟩ := Option.bind_eq_some_iff.mp elements
        cases same
        cases coerced.symm.trans coerced'
        obtain ⟨leaf, old, last', before, after⟩ := readAt_write lawful leads bound
        cases last.symm.trans last'
        rw [reads] at before
        cases before
        rw [settled_list notBytes repeated] at after
        rw [← typed] at leads apartLater later
        have grown := ih leads (.inl notBytes) apartLater after later rest
        rw [grown, List.append_assoc]
        rfl
      · have skip : occurrences store (store.descriptor msg) p (param :: params) =
            occurrences store (store.descriptor msg) p params := by
          simp [occurrences, resolved, here]
        have kept := readAt_write_apart (v := v) lawful (resolve_leads resolved) leads
          (apartHere r resolved here)
        rw [skip] at ready elements
        rw [← typed] at leads apartLater ready elements
        exact ih leads ready apartLater (kept.trans reads) elements rest

theorem occurrences_eq_nil {type : T} {p : List (Field T)} {params : List (List T × T)}
    {base64 : T → Option Bytes} {field : Field T} {values : List (Value T Msg)}
    (elements : (occurrences store type p params).mapM (elementOf d store base64 field) = some values) :
    occurrences store type p params = [] ↔ values = [] := by
  have same := (Fallible.mapM_eq_some_iff.mp elements).length_eq.symm
  rw [← List.length_eq_zero_iff, ← same, List.length_eq_zero_iff]

theorem mem_occurrences {type : T} {p : List (Field T)} {params : List (List T × T)} {raw : T}
    (member : raw ∈ occurrences store type p params) :
    ∃ param ∈ params, resolve store type param.1 = some p := by
  obtain ⟨param, inside, _⟩ := List.mem_map.mp member
  obtain ⟨within, names⟩ := List.mem_filter.mp inside
  exact ⟨param, within, of_decide_eq_true names⟩

theorem Repeats.built (lawful : store.Lawful) {base64 : T → Option Bytes} {binding : Binding T}
    {vars : List (List T × T)} {query : Option T} {body : Bytes} {p : List (Field T)}
    {field : Field T} {items values : List (Value T Msg)}
    (request : Repeats d store base64 binding vars query body p field items values) :
    ∃ params base, queryParams d binding vars query = some params ∧
      (occurrences store binding.input p params).mapM (elementOf d store base64 field) = some values ∧
      (∀ param ∈ params, resolve store binding.input param.1 ≠ some p →
        Binds d store binding.input param) ∧
      store.descriptor base = binding.input ∧ readAt store base p = some (.list items) ∧
      bindMessage d store binding vars query body = overlay d store params base := by
  obtain ⟨start, base, seeded, overlaid, reads⟩ := request.supplied
  obtain ⟨params, read, elements, others⟩ := request.queried
  refine ⟨params, base, read, elements, others, ?_, reads, ?_⟩
  · exact (overlay_descriptor lawful overlaid).trans (seed_typed lawful seeded)
  · rw [bindMessage_eq seeded read, overlay_append, overlaid]

/-- The text of bytes is bound at no repeated field. -/
theorem not_bytes_of_accumulates (lawful : store.Lawful) (strings : StringIsNoList d store)
    {base64 : T → Option Bytes} {binding : Binding T} {vars : List (List T × T)} {query : Option T}
    {body : Bytes} {p : List (Field T)} {field : Field T} {items values : List (Value T Msg)}
    (request : Repeats d store base64 binding vars query body p field items values)
    (accumulates : Accumulates d store binding vars query body p items values) :
    field.kind ≠ .bytes ∨ values = [] := by
  obtain ⟨params, base, _, elements, _, typed, _, built⟩ := request.built lawful
  obtain ⟨msg, done, _⟩ := accumulates
  rw [built] at done
  by_cases kind : field.kind = .bytes
  · right
    rw [← occurrences_eq_nil elements]
    apply List.eq_nil_iff_forall_not_mem.mpr
    intro raw member
    obtain ⟨param, inside, names⟩ := mem_occurrences member
    have binds := (overlay_ok_iff lawful).mp ⟨msg, done⟩ param inside
    rw [typed] at binds
    obtain ⟨r, v, resolved, bound⟩ := binds
    cases names.symm.trans resolved
    rw [boundAt_bytes request.leads request.last kind request.repeated strings] at bound
    cases bound
  · exact .inl kind

theorem accumulates_of_undisturbed (lawful : store.Lawful) (lists : ListsOutsideOneofs store)
    {base64 : T → Option Bytes} {binding : Binding T} {vars : List (List T × T)} {query : Option T}
    {body : Bytes} {p : List (Field T)} {field : Field T} {items values : List (Value T Msg)}
    (request : Repeats d store base64 binding vars query body p field items values)
    (ready : field.kind ≠ .bytes ∨ values = [])
    (undisturbed : Undisturbed d store binding vars query p) :
    Accumulates d store binding vars query body p items values := by
  obtain ⟨params, base, read, elements, others, typed, reads, built⟩ := request.built lawful
  have binds : ∀ param ∈ params, Binds d store (store.descriptor base) param := by
    intro param inside
    rw [typed]
    by_cases names : resolve store binding.input param.1 = some p
    · have member : param.2 ∈ occurrences store binding.input p params := by
        apply List.mem_map_of_mem
        exact List.mem_filter.mpr ⟨inside, decide_eq_true names⟩
      have notBytes : field.kind ≠ .bytes := by
        rcases ready with kind | none
        · exact kind
        · rw [← occurrences_eq_nil elements] at none
          rw [none] at member
          cases member
      have all := Fallible.mapM_isSome_iff.mp (Option.isSome_of_eq_some elements)
      obtain ⟨v, coerced⟩ := Option.isSome_iff_exists.mp (all _ member)
      refine ⟨p, v, names, ?_⟩
      rw [boundAt_scalar request.leads request.last request.scalar notBytes base64]
      exact coerced
    · exact others param inside names
  obtain ⟨msg, done⟩ := (overlay_ok_iff lawful).mpr binds
  refine ⟨msg, built.trans done, ?_⟩
  have apart := apart_of_undisturbed lists request.leads request.last request.repeated
    (undisturbed.imp_right fun all => all params read)
  rw [← occurrences_eq_nil elements] at ready
  rw [← typed] at apart elements ready
  exact overlay_accumulates lawful (typed.symm ▸ request.leads) request.last request.repeated
    request.scalar ready apart reads elements done

end

/-- In both servers the values of a repeated parameter go behind the list that body and
path supplied, whatever stands between them, if the field is not of bytes or there are none
and, where it is below another, no parameter falls on what is around it. For bytes they
never do: their text is handed to the decoder as a string, where it expects an array. -/
theorem repeated_parameters_accumulate_iff (Msg : Type) :
    (∀ (debug : Str → String) (store : Store Str Msg) (base64 : Str → Option Bytes)
        (binding : Binding Str) (vars : List (List Str × Str)) (query : Option Str) (body : Bytes)
        (p : List (Field Str)) (field : Field Str) (items values : List (Value Str Msg)),
      store.Lawful → ListsOutsideOneofs store → StringIsNoList (Rust.dialect debug) store →
      Repeats (Rust.dialect debug) store base64 binding vars query body p field items values →
      (Accumulates (Rust.dialect debug) store binding vars query body p items values →
        field.kind ≠ .bytes ∨ values = []) ∧
      (Undisturbed (Rust.dialect debug) store binding vars query p →
        (Accumulates (Rust.dialect debug) store binding vars query body p items values ↔
          field.kind ≠ .bytes ∨ values = []))) ∧
    (∀ (debug : Bytes → String) (store : Store Bytes Msg) (base64 : Bytes → Option Bytes)
        (binding : Binding Bytes) (vars : List (List Bytes × Bytes)) (query : Option Bytes)
        (body : Bytes) (p : List (Field Bytes)) (field : Field Bytes)
        (items values : List (Value Bytes Msg)),
      store.Lawful → ListsOutsideOneofs store → StringIsNoList (Go.dialect debug) store →
      Repeats (Go.dialect debug) store base64 binding vars query body p field items values →
      (Accumulates (Go.dialect debug) store binding vars query body p items values →
        field.kind ≠ .bytes ∨ values = []) ∧
      (Undisturbed (Go.dialect debug) store binding vars query p →
        (Accumulates (Go.dialect debug) store binding vars query body p items values ↔
          field.kind ≠ .bytes ∨ values = []))) := by
  constructor
  · intro debug store base64 binding vars query body p field items values lawful lists strings request
    have refused := not_bytes_of_accumulates lawful strings request
    exact ⟨refused, fun undisturbed =>
      ⟨refused, fun ready => accumulates_of_undisturbed lawful lists request ready undisturbed⟩⟩
  · intro debug store base64 binding vars query body p field items values lawful lists strings request
    have refused := not_bytes_of_accumulates lawful strings request
    exact ⟨refused, fun undisturbed =>
      ⟨refused, fun ready => accumulates_of_undisturbed lawful lists request ready undisturbed⟩⟩

/-- The request `message Bag { repeated bytes blobs = 1; repeated uint32 marks = 2; }`. -/
inductive Bag (T : Type) where
  | mk (type : T) (blobs marks : List (Value T (Bag T)))

section
variable {T : Type} [DecidableEq T] (word : String → T)

def blobsField : Field T := ⟨1, word "blobs", word "blobs", .bytes, .list, []⟩
def marksField : Field T := ⟨2, word "marks", word "marks", .uint32, .list, []⟩

def bags : Store T (Bag T) where
  fields type := if type = word "Bag" then [blobsField word, marksField word] else []
  new type := .mk type [] []
  descriptor | .mk type _ _ => type
  get | .mk _ blobs marks, f => .list (if f.number = 1 then blobs else marks)
  set
    | .mk type blobs marks, f, .list items =>
        if f.number = 1 then .mk type items marks else .mk type blobs items
    | bag, _, _ => bag
  readOnly _ _ := false
  deserialize _ _ := .error "expected an array"
  quote text := text
  parseF32 _ := none
  parseF64 _ := none
  encode
    | .mk _ blobs marks =>
        let raw := blobs.filterMap fun value => match value with
          | .bytes raw => some (10, ProtoWire.delimited raw)
          | _ => none
        let packed := marks.flatMap fun value => match value with
          | .u32 n => ProtoWire.varint n
          | _ => []
        .ok (ProtoWire.encodeFields (raw ++ if packed = [] then [] else
          [(18, ProtoWire.delimited packed)]))

variable {word}

theorem bags_fields {type : T} {f : Field T} (member : f ∈ (bags word).fields type) :
    type = word "Bag" ∧ (f = blobsField word ∨ f = marksField word) := by
  simp only [bags] at member
  split at member
  case isTrue same => exact ⟨same, by simpa using member⟩
  case isFalse => cases member

theorem bags_lawful : (bags word).Lawful where
  descriptor_new type := rfl
  descriptor_set := by
    rintro ⟨type, blobs, marks⟩ f v
    by_cases one : f.number = 1 <;> cases v <;> simp [bags, one]
  descriptor_deserialize _ _ _ done := by cases done
  get_fits := by
    rintro ⟨type, blobs, marks⟩ f member
    obtain ⟨_, rfl | rfl⟩ := bags_fields member <;> simp [Fits, bags, blobsField, marksField]
  get_set := by
    rintro ⟨type, blobs, marks⟩ f v member fits
    obtain ⟨_, rfl | rfl⟩ := bags_fields member <;> obtain ⟨items, rfl⟩ := fits.1 rfl <;> rfl
  get_set_other := by
    rintro ⟨type, blobs, marks⟩ f g v member member' different _
    obtain ⟨_, rfl | rfl⟩ := bags_fields member <;> obtain ⟨_, rfl | rfl⟩ := bags_fields member'
    · exact absurd rfl different
    · cases v <;> rfl
    · cases v <;> rfl
    · exact absurd rfl different
  oneof msg f g member member' different sibling := by
    obtain ⟨_, rfl | rfl⟩ := bags_fields member <;> simp [blobsField, marksField] at sibling
  new_message type f inner member kind _ := by
    obtain ⟨_, rfl | rfl⟩ := bags_fields member <;> simp [blobsField, marksField] at kind

theorem bags_lists : ListsOutsideOneofs (bags word) := by
  intro type f member g member' _
  obtain ⟨_, rfl | rfl⟩ := bags_fields member' <;> simp [blobsField, marksField]

theorem bags_strings (d : Dialect T) : StringIsNoList d (bags word) :=
  fun _ _ _ _ => ⟨_, rfl⟩

theorem bags_resolve_blobs :
    resolve (bags word) (word "Bag") [word "blobs"] = some [blobsField word] := by
  simp [resolve, fieldByAnyName, bags, blobsField]

theorem bags_resolve_marks (spelled : word "blobs" ≠ word "marks") :
    resolve (bags word) (word "Bag") [word "marks"] = some [marksField word] := by
  simp [resolve, fieldByAnyName, bags, blobsField, marksField, spelled]

/-- A query whose parameters are all on one field. -/
theorem bags_repeats {d : Dialect T} {base64 : T → Option Bytes} {name : T} {field : Field T}
    {query : T} {texts : List T} {values : List (Value T (Bag T))}
    (read : (d.parseQuery query).map (unguarded d []) = some (texts.map fun text => ([name], text)))
    (resolved : resolve (bags word) (word "Bag") [name] = some [field])
    (member : field = blobsField word ∨ field = marksField word)
    (elements : texts.mapM (elementOf d (bags word) base64 field) = some values) :
    Repeats d (bags word) base64 ⟨.none, word "Bag"⟩ [] (some query) [] [field] field [] values where
  leads := by simpa [Leads, bags] using member
  last := rfl
  repeated := by rcases member with rfl | rfl <;> rfl
  scalar inner := by rcases member with rfl | rfl <;> simp [blobsField, marksField]
  supplied := by
    refine ⟨_, _, rfl, rfl, ?_⟩
    rcases member with rfl | rfl <;> rfl
  queried := by
    refine ⟨_, read, ?_, ?_⟩
    · have every : occurrences (bags word) (word "Bag") [field]
          (texts.map fun text => ([name], text)) = texts := by
        clear elements read
        induction texts with
        | nil => rfl
        | cons text texts ih =>
            simp only [occurrences, List.map_cons, List.filter_cons, resolved, decide_true, if_true] at ih ⊢
            rw [ih]
      rw [every]
      exact elements
    · intro param inside other
      obtain ⟨text, _, rfl⟩ := List.mem_map.mp inside
      exact absurd resolved other

end

theorem rust_marks : Repeats (Rust.dialect fun _ => "") (bags String.toList) (fun _ => none)
    ⟨.none, "Bag".toList⟩ [] (some "marks=1&marks=2".toList) [] [marksField String.toList]
    (marksField String.toList) [] [.u32 1, .u32 2] := by
  have texts : ["1".toList, "2".toList].mapM (elementOf (Rust.dialect fun _ => "") (bags String.toList)
      (fun _ => none) (marksField String.toList)) = some [.u32 1, .u32 2] := rfl
  exact bags_repeats rfl (bags_resolve_marks (by decide)) (.inr rfl) texts

theorem go_marks : Repeats (Go.dialect fun _ => "") (bags utf8) (fun _ => none)
    ⟨.none, utf8 "Bag"⟩ [] (some (utf8 "marks=1&marks=2")) [] [marksField utf8]
    (marksField utf8) [] [.u32 1, .u32 2] := by
  have texts : [utf8 "1", utf8 "2"].mapM (elementOf (Go.dialect fun _ => "") (bags utf8)
      (fun _ => none) (marksField utf8)) = some [.u32 1, .u32 2] := rfl
  exact bags_repeats rfl (bags_resolve_marks (by decide)) (.inr rfl) texts

/-- The query `marks=1&marks=2` on the marks. -/
theorem marks_accumulate :
    Accumulates (Rust.dialect fun _ => "") (bags String.toList) ⟨.none, "Bag".toList⟩ []
        (some "marks=1&marks=2".toList) [] [marksField String.toList] [] [.u32 1, .u32 2] ∧
      Accumulates (Go.dialect fun _ => "") (bags utf8) ⟨.none, utf8 "Bag"⟩ []
        (some (utf8 "marks=1&marks=2")) [] [marksField utf8] [] [.u32 1, .u32 2] := by
  constructor
  · exact (((repeated_parameters_accumulate_iff _).1 _ _ _ _ _ _ _ _ _ _ _ bags_lawful bags_lists
      (bags_strings _) rust_marks).2 (.inl rfl)).mpr (.inl (by simp [marksField]))
  · exact (((repeated_parameters_accumulate_iff _).2 _ _ _ _ _ _ _ _ _ _ _ bags_lawful bags_lists
      (bags_strings _) go_marks).2 (.inl rfl)).mpr (.inl (by simp [marksField]))

/-- The base64 of one byte. -/
def base64OfA {T : Type} [DecidableEq T] (word : String → T) (text : T) : Option Bytes :=
  if text = word "QQ==" then some [65] else none

/-- The query `blobs=QQ==` on the blobs is refused: the decoder is given a string for a
repeated field. -/
theorem repeated_bytes_refused :
    (Repeats (Rust.dialect fun _ => "") (bags String.toList) (base64OfA String.toList)
        ⟨.none, "Bag".toList⟩ [] (some "blobs=QQ==".toList) [] [blobsField String.toList]
        (blobsField String.toList) [] [.bytes [65]] ∧
      bindMessage (Rust.dialect fun _ => "") (bags String.toList) ⟨.none, "Bag".toList⟩ []
        (some "blobs=QQ==".toList) [] = some (.error "invalid value for blobs: expected an array") ∧
      ¬ Accumulates (Rust.dialect fun _ => "") (bags String.toList) ⟨.none, "Bag".toList⟩ []
        (some "blobs=QQ==".toList) [] [blobsField String.toList] [] [.bytes [65]]) ∧
    (Repeats (Go.dialect fun _ => "") (bags utf8) (base64OfA utf8)
        ⟨.none, utf8 "Bag"⟩ [] (some (utf8 "blobs=QQ==")) [] [blobsField utf8]
        (blobsField utf8) [] [.bytes [65]] ∧
      bindMessage (Go.dialect fun _ => "") (bags utf8) ⟨.none, utf8 "Bag"⟩ []
        (some (utf8 "blobs=QQ==")) [] = some (.error "invalid value for blobs: expected an array") ∧
      ¬ Accumulates (Go.dialect fun _ => "") (bags utf8) ⟨.none, utf8 "Bag"⟩ []
        (some (utf8 "blobs=QQ==")) [] [blobsField utf8] [] [.bytes [65]]) := by
  have rust : bindMessage (Rust.dialect fun _ => "") (bags String.toList) ⟨.none, "Bag".toList⟩ []
      (some "blobs=QQ==".toList) [] = some (.error "invalid value for blobs: expected an array") := rfl
  have go : bindMessage (Go.dialect fun _ => "") (bags utf8) ⟨.none, utf8 "Bag"⟩ []
      (some (utf8 "blobs=QQ==")) [] = some (.error "invalid value for blobs: expected an array") := rfl
  refine ⟨⟨?_, rust, ?_⟩, ?_, go, ?_⟩
  · have texts : ["QQ==".toList].mapM (elementOf (Rust.dialect fun _ => "") (bags String.toList)
        (base64OfA String.toList) (blobsField String.toList)) = some [.bytes [65]] := rfl
    exact bags_repeats rfl bags_resolve_blobs (.inl rfl) texts
  · rintro ⟨msg, built, _⟩
    rw [rust] at built
    cases built
  · have texts : [utf8 "QQ=="].mapM (elementOf (Go.dialect fun _ => "") (bags utf8)
        (base64OfA utf8) (blobsField utf8)) = some [.bytes [65]] := rfl
    exact bags_repeats rfl bags_resolve_blobs (.inl rfl) texts
  · rintro ⟨msg, built, _⟩
    rw [go] at built
    cases built

end GrpcWebnext.HttpRule
