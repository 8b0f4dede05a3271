import GrpcWebnext.HttpRule.Bind

/-! Field paths of dynamic messages: what an assignment by path writes, and which other
paths it can disturb. -/
namespace GrpcWebnext.HttpRule

section
variable {T Msg : Type}

/-- What a field of a message can hold. -/
def Fits (store : Store T Msg) (field : Field T) (value : Value T Msg) : Prop :=
  (field.shape = .list → ∃ items, value = .list items) ∧
    ∀ inner, field.kind = .message inner → field.shape = .singular →
      ∃ sub, value = .message sub ∧ store.descriptor sub = inner

/-- The contract of the reflection library: a field reads as it was set, a set touches
nothing but the field and its oneof, and a oneof holds one member at most. -/
structure Store.Lawful (store : Store T Msg) : Prop where
  descriptor_new : ∀ type, store.descriptor (store.new type) = type
  descriptor_set : ∀ msg f v, store.descriptor (store.set msg f v) = store.descriptor msg
  descriptor_deserialize : ∀ type text msg,
    store.deserialize type text = .ok msg → store.descriptor msg = type
  get_fits : ∀ msg f, f ∈ store.fields (store.descriptor msg) → Fits store f (store.get msg f)
  get_set : ∀ msg f v, f ∈ store.fields (store.descriptor msg) → Fits store f v →
    store.get (store.set msg f v) f = v
  get_set_other : ∀ msg f g v, f ∈ store.fields (store.descriptor msg) →
    g ∈ store.fields (store.descriptor msg) → f ≠ g → g.number ∉ f.siblings →
    store.get (store.set msg f v) g = store.get msg g
  oneof : ∀ msg f g, f ∈ store.fields (store.descriptor msg) →
    g ∈ store.fields (store.descriptor msg) → f ≠ g → g.number ∈ f.siblings →
    store.get msg f = store.get (store.new (store.descriptor msg)) f ∨
      store.get msg g = store.get (store.new (store.descriptor msg)) g
  new_message : ∀ type f inner, f ∈ store.fields type → f.kind = .message inner →
    f.shape = .singular → store.get (store.new type) f = .message (store.new inner)

/-- A path of fields into messages of a type: singular messages all the way to the end. -/
def Leads (store : Store T Msg) : T → List (Field T) → Prop
  | _, [] => False
  | type, [f] => f ∈ store.fields type
  | type, f :: g :: rest => f ∈ store.fields type ∧ f.shape = .singular ∧
      ∃ inner, f.kind = .message inner ∧ Leads store inner (g :: rest)

def readAt (store : Store T Msg) : Msg → List (Field T) → Option (Value T Msg)
  | _, [] => none
  | msg, [f] => some (store.get msg f)
  | msg, f :: g :: rest => match store.get msg f with
    | .message sub => readAt store sub (g :: rest)
    | _ => none

/-- What a bound value makes of the one before it: repeated fields grow. -/
def settled (field : Field T) (value old : Value T Msg) : Value T Msg :=
  match field.kind, field.shape, old with
  | .bytes, _, _ => value
  | _, .list, .list items => .list (items ++ [value])
  | _, _, _ => value

theorem settled_bytes {f : Field T} {v old : Value T Msg} (kind : f.kind = .bytes) :
    settled f v old = v := by
  simp only [settled, kind]

theorem settled_list {f : Field T} {v : Value T Msg} {items : List (Value T Msg)}
    (notBytes : f.kind ≠ .bytes) (repeated : f.shape = .list) :
    settled f v (.list items) = .list (items ++ [v]) := by
  unfold settled
  split
  case h_1 kind => exact (notBytes kind).elim
  case h_2 same _ => cases same; rfl
  case h_3 other => exact (other items repeated rfl).elim

theorem settled_of_not_list {f : Field T} {v old : Value T Msg} (notList : f.shape ≠ .list) :
    settled f v old = v := by
  unfold settled
  split
  case h_1 => rfl
  case h_2 repeated _ => exact (notList repeated).elim
  case h_3 => rfl

/-- Two bound values leave two different values behind. -/
theorem settled_injective {f : Field T} {v w old : Value T Msg}
    (same : settled f v old = settled f w old) : v = w := by
  unfold settled at same
  split at same
  case h_1 => exact same
  case h_2 =>
      injection same with grown
      simpa using List.append_cancel_left grown
  case h_3 => exact same

def write (store : Store T Msg) (value : Value T Msg) : Msg → List (Field T) → Msg
  | msg, [] => msg
  | msg, [f] => store.set msg f (settled f value (store.get msg f))
  | msg, f :: g :: rest => match store.get msg f with
    | .message sub => store.set msg f (.message (write store value sub (g :: rest)))
    | _ => msg

variable {store : Store T Msg}

theorem Leads.ne_nil {type : T} {r : List (Field T)} (leads : Leads store type r) : r ≠ [] := by
  cases r with
  | nil => exact leads.elim
  | cons f r => exact List.cons_ne_nil f r

theorem Leads.mem {type : T} {f : Field T} {r : List (Field T)}
    (leads : Leads store type (f :: r)) : f ∈ store.fields type := by
  cases r with
  | nil => exact leads
  | cons g r => exact leads.1

theorem leads_cons {type inner : T} {f : Field T} {r : List (Field T)} (nonempty : r ≠ [])
    (kind : f.kind = .message inner) :
    Leads store type (f :: r) ↔
      f ∈ store.fields type ∧ f.shape = .singular ∧ Leads store inner r := by
  cases r with
  | nil => exact (nonempty rfl).elim
  | cons g r => simp [Leads, kind]

theorem Leads.singular_of_append {type : T} {r more : List (Field T)} {f leaf : Field T}
    (leads : Leads store type (r ++ more)) (last : r.getLast? = some f)
    (lastMore : (r ++ more).getLast? = some leaf) (shape : leaf.shape = .singular) :
    f.shape = .singular := by
  induction r generalizing type with
  | nil => cases last
  | cons g r ih =>
      cases r with
      | nil =>
          cases last
          cases more with
          | nil =>
              cases lastMore
              exact shape
          | cons h more => exact leads.2.1
      | cons h r =>
          obtain ⟨_, _, inner, _, deeper⟩ := leads
          exact ih deeper last lastMore

theorem readAt_cons {msg sub : Msg} {f : Field T} {r : List (Field T)} (nonempty : r ≠ [])
    (holds : store.get msg f = .message sub) : readAt store msg (f :: r) = readAt store sub r := by
  cases r with
  | nil => exact (nonempty rfl).elim
  | cons g r => simp only [readAt, holds]

theorem write_cons {msg sub : Msg} {f : Field T} {r : List (Field T)} {v : Value T Msg}
    (nonempty : r ≠ []) (holds : store.get msg f = .message sub) :
    write store v msg (f :: r) = store.set msg f (.message (write store v sub r)) := by
  cases r with
  | nil => exact (nonempty rfl).elim
  | cons g r => simp only [write, holds]

end

section
variable {T Msg : Type} [DecidableEq T] (d : Dialect T) (store : Store T Msg)

/-- The fields a dotted path names. -/
def resolve (type : T) : List T → Option (List (Field T))
  | [] => none
  | name :: rest => (fieldByAnyName store type name).bind fun f => match rest with
    | [] => some [f]
    | next :: rest => match f.kind, f.shape with
      | .message inner, .singular => (resolve inner (next :: rest)).map (f :: ·)
      | _, _ => none

/-- The value a raw text has at a field, by coercion or through the JSON decoder. -/
def boundValue (type : T) (field : Field T) (raw : T) : Option (Value T Msg) :=
  match field.kind, field.shape with
  | .bytes, _ => (valueFromJson d store type field (store.quote raw)).toOption
  | .message inner, .singular => (wktJsonShape d inner).bind fun quoted =>
      (valueFromJson d store type field (if quoted then store.quote raw else raw)).toOption
  | _, _ => (coerce d store field raw).toOption

def boundAt (type : T) : List (Field T) → T → Option (Value T Msg)
  | [], _ => none
  | [f], raw => boundValue d store type f raw
  | f :: g :: rest, raw => match f.kind with
    | .message inner => boundAt inner (g :: rest) raw
    | _ => none

/-- A write to the first path cannot show at the second: the paths part, and not within
one oneof. -/
def Apart : List (Field T) → List (Field T) → Prop
  | f :: r, g :: p => if f = g then Apart r p else g.number ∉ f.siblings
  | _, _ => False

/-- The paths part within one oneof. -/
def Rival : List (Field T) → List (Field T) → Prop
  | f :: r, g :: p => if f = g then Rival r p else g.number ∈ f.siblings
  | _, _ => False

variable {d store}

theorem boundAt_cons {type inner : T} {f : Field T} {r : List (Field T)} {raw : T}
    (nonempty : r ≠ []) (kind : f.kind = .message inner) :
    boundAt d store type (f :: r) raw = boundAt d store inner r raw := by
  cases r with
  | nil => exact (nonempty rfl).elim
  | cons g r => simp only [boundAt, kind]

theorem fieldByAnyName_mem {type name : T} {f : Field T}
    (found : fieldByAnyName store type name = some f) : f ∈ store.fields type := by
  unfold fieldByAnyName at found
  rcases Option.or_eq_some_iff.mp found with byName | ⟨_, byJsonName⟩
  · exact List.mem_of_find?_eq_some byName
  · exact List.mem_of_find?_eq_some byJsonName

theorem fieldByAnyName_named {type name spelling : T} {f : Field T}
    (found : fieldByAnyName store type name = some f)
    (only : f.name = spelling ∧ f.jsonName = spelling) : spelling = name := by
  unfold fieldByAnyName at found
  rcases Option.or_eq_some_iff.mp found with byName | ⟨_, byJsonName⟩
  · exact only.1.symm.trans (by simpa using List.find?_some byName)
  · exact only.2.symm.trans (by simpa using List.find?_some byJsonName)

theorem resolve_leads {type : T} {path : List T} {r : List (Field T)}
    (resolved : resolve store type path = some r) : Leads store type r := by
  induction path generalizing type r with
  | nil => simp only [resolve, reduceCtorEq] at resolved
  | cons name rest ih =>
      rw [resolve] at resolved
      obtain ⟨f, found, resolved⟩ := Option.bind_eq_some_iff.mp resolved
      have member := fieldByAnyName_mem found
      cases rest with
      | nil =>
          cases resolved
          exact member
      | cons next rest =>
          simp only at resolved
          split at resolved
          case h_2 => cases resolved
          case h_1 inner kind shape =>
              obtain ⟨tail, deeper, rfl⟩ := Option.map_eq_some_iff.mp resolved
              have leads := ih deeper
              cases tail with
              | nil => exact leads.elim
              | cons g tail => exact ⟨member, shape, inner, kind, leads⟩

theorem except_map_ok_iff {ε α β : Type} {e : Except ε α} {g : α → β} {b : β} :
    e.map g = .ok b ↔ ∃ a, e = .ok a ∧ b = g a := by
  cases e with
  | error e => simp [Except.map]
  | ok a => simp [Except.map, eq_comm]

theorem except_mapError_ok_iff {ε ε' α : Type} {e : Except ε α} {g : ε → ε'} {a : α} :
    e.mapError g = .ok a ↔ e = .ok a := by
  cases e <;> simp [Except.mapError]

theorem returned_ok_iff {α : Type} {e : Except Fault α} {a : α} :
    returned e = some (.ok a) ↔ e = .ok a := by
  cases e with
  | ok value => simp [returned]
  | error fault => cases fault <;> simp [returned]

theorem toOption_some_iff {ε α : Type} {e : Except ε α} {a : α} :
    e.toOption = some a ↔ e = .ok a := by
  cases e <;> simp [Except.toOption]

omit [DecidableEq T] in
theorem valueFromJson_fits (lawful : store.Lawful) {type : T} {f : Field T} {text : T}
    {v : Value T Msg} (member : f ∈ store.fields type)
    (decoded : (valueFromJson d store type f text).toOption = some v) : Fits store f v := by
  unfold valueFromJson at decoded
  cases done : store.deserialize type (d.bytes (document d store f text)) with
  | error e => simp only [done, Except.toOption, reduceCtorEq] at decoded
  | ok scratch =>
      simp only [done] at decoded
      split at decoded
      · cases decoded
      · cases decoded
        have same := lawful.descriptor_deserialize _ _ _ done
        exact lawful.get_fits scratch f (same ▸ member)

theorem boundValue_coerce {type : T} {f : Field T} {raw : T} (notBytes : f.kind ≠ .bytes)
    (notMessage : ∀ inner, f.kind = .message inner → f.shape ≠ .singular) :
    boundValue d store type f raw = (coerce d store f raw).toOption := by
  unfold boundValue
  split
  case h_1 kind => exact (notBytes kind).elim
  case h_2 inner kind shape => exact (notMessage inner kind shape).elim
  case h_3 => rfl

theorem settled_fits (lawful : store.Lawful) {type : T} {f : Field T} {raw : T}
    {v old : Value T Msg} (member : f ∈ store.fields type) (before : Fits store f old)
    (bound : boundValue d store type f raw = some v) : Fits store f (settled f v old) := by
  unfold boundValue at bound
  split at bound
  case h_1 kind =>
      rw [settled_bytes kind]
      exact valueFromJson_fits lawful member bound
  case h_2 inner kind shape =>
      obtain ⟨quoted, _, bound⟩ := Option.bind_eq_some_iff.mp bound
      rw [settled_of_not_list (by simp [shape])]
      exact valueFromJson_fits lawful member bound
  case h_3 notBytes notMessage =>
      constructor
      · intro repeated
        obtain ⟨items, rfl⟩ := before.1 repeated
        exact ⟨_, settled_list notBytes repeated⟩
      · intro inner kind shape
        exact (notMessage inner kind shape).elim

theorem setLeaf_ok_iff (lawful : store.Lawful) {msg msg' : Msg} {f : Field T} {raw : T}
    (member : f ∈ store.fields (store.descriptor msg)) :
    setLeaf d store msg f raw = .ok msg' ↔
      ∃ v, boundValue d store (store.descriptor msg) f raw = some v ∧
        msg' = store.set msg f (settled f v (store.get msg f)) := by
  unfold setLeaf
  split
  case h_1 kind =>
      simp only [setFromJson, except_map_ok_iff, toOption_some_iff, boundValue, kind, settled_bytes kind]
  case h_2 inner kind shape =>
      have replaced : f.shape ≠ .list := by simp [shape]
      simp only [boundValue, kind, shape, settled_of_not_list replaced]
      cases wktJsonShape d inner with
      | none => simp
      | some quoted => cases quoted <;> simp [setFromJson, except_map_ok_iff, toOption_some_iff]
  case h_3 repeated notBytes =>
      have notMessage : ∀ inner, f.kind = .message inner → f.shape ≠ .singular := by simp [repeated]
      have pushed : ∀ v, pushValue store msg f v =
          store.set msg f (settled f v (store.get msg f)) := by
        intro v
        obtain ⟨items, holds⟩ := (lawful.get_fits msg f member).1 repeated
        simp only [pushValue, holds, settled_list notBytes repeated]
      simp only [except_map_ok_iff, except_mapError_ok_iff, toOption_some_iff, pushed,
        boundValue_coerce notBytes notMessage]
  case h_4 notBytes notList notMessage =>
      simp only [except_map_ok_iff, except_mapError_ok_iff, toOption_some_iff,
        settled_of_not_list notList, boundValue_coerce notBytes notMessage]

/-- An assignment resolves its path, binds its text and writes the value there. -/
theorem setByPath_ok_iff (lawful : store.Lawful) {msg msg' : Msg} {raw name : T} {rest : List T} :
    setByPath d store msg raw name rest = .ok msg' ↔
      ∃ r v, resolve store (store.descriptor msg) (name :: rest) = some r ∧
        boundAt d store (store.descriptor msg) r raw = some v ∧ msg' = write store v msg r := by
  induction rest generalizing msg msg' name with
  | nil =>
      rw [setByPath, resolve]
      cases found : fieldByAnyName store (store.descriptor msg) name with
      | none => simp
      | some f => simp [setLeaf_ok_iff lawful (fieldByAnyName_mem found), boundAt, write]
  | cons next rest ih =>
      rw [setByPath, resolve]
      cases found : fieldByAnyName store (store.descriptor msg) name with
      | none => simp
      | some f =>
          have member := fieldByAnyName_mem found
          simp only [Option.bind_some]
          by_cases isMessage : ∃ inner, f.kind = .message inner ∧ f.shape = .singular
          · obtain ⟨inner, kind, shape⟩ := isMessage
            obtain ⟨sub, holds, rfl⟩ := (lawful.get_fits msg f member).2 inner kind shape
            simp only [kind, shape, holds, except_map_ok_iff, ih, Option.map_eq_some_iff]
            constructor
            · rintro ⟨_, ⟨r, v, resolved, bound, rfl⟩, rfl⟩
              have nonempty := (resolve_leads resolved).ne_nil
              exact ⟨f :: r, v, ⟨r, resolved, rfl⟩, (boundAt_cons nonempty kind).trans bound,
                (write_cons nonempty holds).symm⟩
            · rintro ⟨_, v, ⟨r, resolved, rfl⟩, bound, rfl⟩
              have nonempty := (resolve_leads resolved).ne_nil
              exact ⟨_, ⟨r, v, resolved, (boundAt_cons nonempty kind).symm.trans bound, rfl⟩,
                write_cons nonempty holds⟩
          · constructor
            · intro written
              split at written
              case h_1 inner _ kind shape _ => exact (isMessage ⟨inner, kind, shape⟩).elim
              case h_2 => cases written
            · rintro ⟨r, v, resolved, _⟩
              split at resolved
              case h_1 inner kind shape => exact (isMessage ⟨inner, kind, shape⟩).elim
              case h_2 => cases resolved

theorem assign_ok_iff (lawful : store.Lawful) {msg msg' : Msg} {path : List T} {raw : T} :
    assign d store msg path raw = some (.ok msg') ↔
      ∃ r v, resolve store (store.descriptor msg) path = some r ∧
        boundAt d store (store.descriptor msg) r raw = some v ∧ msg' = write store v msg r := by
  cases path with
  | nil => simp [assign, resolve]
  | cons name rest => simp only [assign, returned_ok_iff, setByPath_ok_iff lawful]

end

section
variable {T Msg : Type} {store : Store T Msg} (lawful : store.Lawful)
include lawful

theorem descriptor_write {v : Value T Msg} {msg : Msg} {r : List (Field T)} :
    store.descriptor (write store v msg r) = store.descriptor msg := by
  unfold write
  split
  case h_1 => rfl
  case h_2 => exact lawful.descriptor_set _ _ _
  case h_3 =>
      split
      · exact lawful.descriptor_set _ _ _
      · rfl

/-- The submessage behind the first field of a path. -/
theorem Leads.step {msg : Msg} {f : Field T} {r : List (Field T)} (nonempty : r ≠ [])
    (leads : Leads store (store.descriptor msg) (f :: r)) :
    f ∈ store.fields (store.descriptor msg) ∧ f.shape = .singular ∧
      ∃ sub, f.kind = .message (store.descriptor sub) ∧ store.get msg f = .message sub ∧
        Leads store (store.descriptor sub) r := by
  cases r with
  | nil => exact (nonempty rfl).elim
  | cons g r =>
      obtain ⟨member, shape, inner, kind, deeper⟩ := leads
      obtain ⟨sub, holds, rfl⟩ := (lawful.get_fits msg f member).2 inner kind shape
      exact ⟨member, shape, sub, kind, holds, deeper⟩

theorem get_set_message {msg sub : Msg} {f : Field T} (sub' : Msg)
    (member : f ∈ store.fields (store.descriptor msg)) (shape : f.shape = .singular)
    (kind : f.kind = .message (store.descriptor sub))
    (same : store.descriptor sub' = store.descriptor sub) :
    store.get (store.set msg f (.message sub')) f = .message sub' := by
  refine lawful.get_set msg f _ member ⟨?_, ?_⟩
  · intro repeated
    rw [shape] at repeated
    cases repeated
  · intro inner kind' _
    rw [kind] at kind'
    cases kind'
    exact ⟨sub', rfl, same⟩

omit lawful in
theorem readAt_congr {msg msg' : Msg} {f : Field T} (r : List (Field T))
    (same : store.get msg f = store.get msg' f) :
    readAt store msg (f :: r) = readAt store msg' (f :: r) := by
  cases r with
  | nil => simp only [readAt, same]
  | cons g r => simp only [readAt, same]

/-- A path and everything below it are read from what stands at the path. -/
theorem readAt_append {msg msg' : Msg} {r : List (Field T)} (more : List (Field T))
    (leads : Leads store (store.descriptor msg) r)
    (typed : store.descriptor msg' = store.descriptor msg)
    (same : readAt store msg r = readAt store msg' r) :
    readAt store msg (r ++ more) = readAt store msg' (r ++ more) := by
  induction r generalizing msg msg' with
  | nil => exact leads.elim
  | cons f r ih =>
      by_cases nonempty : r = []
      · subst nonempty
        simp only [readAt, Option.some.injEq] at same
        exact readAt_congr more same
      · have leads' : Leads store (store.descriptor msg') (f :: r) := typed ▸ leads
        obtain ⟨_, _, sub, kind, holds, deeper⟩ := leads.step lawful nonempty
        obtain ⟨_, _, sub', kind', holds', _⟩ := leads'.step lawful nonempty
        have typed' : store.descriptor sub' = store.descriptor sub := by
          rw [kind] at kind'
          injection kind' with same
          exact same.symm
        have longer : r ++ more ≠ [] := List.append_ne_nil_of_left_ne_nil nonempty more
        rw [readAt_cons nonempty holds, readAt_cons nonempty holds'] at same
        rw [List.cons_append, readAt_cons longer holds, readAt_cons longer holds']
        exact ih deeper typed' same

section
variable [DecidableEq T] {d : Dialect T}

/-- A bound value is read where it was written. -/
theorem readAt_write {msg : Msg} {r : List (Field T)} {raw : T} {v : Value T Msg}
    (leads : Leads store (store.descriptor msg) r)
    (bound : boundAt d store (store.descriptor msg) r raw = some v) :
    ∃ f old, r.getLast? = some f ∧ readAt store msg r = some old ∧
      readAt store (write store v msg r) r = some (settled f v old) := by
  induction r generalizing msg with
  | nil => exact leads.elim
  | cons f r ih =>
      by_cases nonempty : r = []
      · subst nonempty
        have fits := settled_fits lawful leads (lawful.get_fits msg f leads) bound
        exact ⟨f, store.get msg f, rfl, rfl, congrArg some (lawful.get_set msg f _ leads fits)⟩
      · obtain ⟨member, shape, sub, kind, holds, deeper⟩ := leads.step lawful nonempty
        rw [boundAt_cons nonempty kind] at bound
        obtain ⟨leaf, old, last, before, after⟩ := ih deeper bound
        have back := get_set_message lawful (write store v sub r) member shape kind
          (descriptor_write lawful)
        refine ⟨leaf, old, ?_, ?_, ?_⟩
        · rw [List.getLast?_cons, last]
          rfl
        · rw [readAt_cons nonempty holds, before]
        · rw [write_cons nonempty holds, readAt_cons nonempty back, after]

/-- A write does not show at a path that is apart from it. -/
theorem readAt_write_apart {msg : Msg} {r p : List (Field T)} {v : Value T Msg}
    (leads : Leads store (store.descriptor msg) r) (other : Leads store (store.descriptor msg) p)
    (apart : Apart r p) : readAt store (write store v msg r) p = readAt store msg p := by
  induction r generalizing msg p with
  | nil => exact leads.elim
  | cons f r ih =>
      cases p with
      | nil => exact other.elim
      | cons g p =>
          rw [Apart] at apart
          split at apart
          case isTrue same =>
              subst same
              have nonempty : r ≠ [] := by rintro rfl; simp [Apart] at apart
              have longer : p ≠ [] := by rintro rfl; cases r <;> simp [Apart] at apart
              obtain ⟨member, shape, sub, kind, holds, deeper⟩ := leads.step lawful nonempty
              have below := ((leads_cons longer kind).mp other).2.2
              have back := get_set_message lawful (write store v sub r) member shape kind
                (descriptor_write lawful)
              rw [write_cons nonempty holds, readAt_cons longer back, readAt_cons longer holds]
              exact ih deeper below apart
          case isFalse different =>
              apply readAt_congr
              cases r with
              | nil => exact lawful.get_set_other msg f g _ leads.mem other.mem different apart
              | cons h r =>
                  obtain ⟨_, _, sub, _, holds, _⟩ := leads.step lawful (List.cons_ne_nil h r)
                  rw [write_cons (List.cons_ne_nil h r) holds]
                  exact lawful.get_set_other msg f g _ leads.mem other.mem different apart

/-- Of two paths that part within one oneof, one reads as in a new message. -/
theorem readAt_rival {msg : Msg} {r p : List (Field T)}
    (leads : Leads store (store.descriptor msg) r) (other : Leads store (store.descriptor msg) p)
    (rival : Rival r p) :
    readAt store msg r = readAt store (store.new (store.descriptor msg)) r ∨
      readAt store msg p = readAt store (store.new (store.descriptor msg)) p := by
  induction r generalizing msg p with
  | nil => exact leads.elim
  | cons f r ih =>
      cases p with
      | nil => exact other.elim
      | cons g p =>
          rw [Rival] at rival
          split at rival
          case isTrue same =>
              subst same
              have nonempty : r ≠ [] := by rintro rfl; simp [Rival] at rival
              have longer : p ≠ [] := by rintro rfl; cases r <;> simp [Rival] at rival
              obtain ⟨member, shape, sub, kind, holds, deeper⟩ := leads.step lawful nonempty
              have below := ((leads_cons longer kind).mp other).2.2
              have fresh := lawful.new_message _ f _ member kind shape
              rw [readAt_cons nonempty holds, readAt_cons longer holds, readAt_cons nonempty fresh,
                readAt_cons longer fresh]
              exact ih deeper below rival
          case isFalse different =>
              rcases lawful.oneof msg f g leads.mem other.mem different rival with unset | unset
              · exact Or.inl (readAt_congr r unset)
              · exact Or.inr (readAt_congr p unset)

omit lawful in
theorem not_apart {r p : List (Field T)} (touching : ¬ Apart r p) :
    (∃ more, p = r ++ more) ∨ (∃ more, r = p ++ more) ∨ Rival r p := by
  induction r generalizing p with
  | nil => exact Or.inl ⟨p, rfl⟩
  | cons f r ih =>
      cases p with
      | nil => exact Or.inr (Or.inl ⟨f :: r, rfl⟩)
      | cons g p =>
          rw [Apart] at touching
          rw [Rival]
          split at touching
          case isTrue same =>
              subst same
              rcases ih touching with ⟨more, rfl⟩ | ⟨more, rfl⟩ | rival
              · exact Or.inl ⟨more, rfl⟩
              · exact Or.inr (Or.inl ⟨more, rfl⟩)
              · exact Or.inr (Or.inr (by simpa using rival))
          case isFalse different =>
              refine Or.inr (Or.inr ?_)
              rw [if_neg different]
              exact Decidable.not_not.mp touching

/-- Two paths that can be set independently of each other are apart. -/
theorem apart_of_free {type : T} {r p : List (Field T)} (leads : Leads store type r)
    (other : Leads store type p)
    (freeFirst : ∃ msg msg', store.descriptor msg = type ∧ store.descriptor msg' = type ∧
      readAt store msg p = readAt store msg' p ∧ readAt store msg r ≠ readAt store msg' r)
    (freeSecond : (∃ more, p = r ++ more) → ∃ msg msg', store.descriptor msg = type ∧
      store.descriptor msg' = type ∧ readAt store msg r = readAt store msg' r ∧
      readAt store msg p ≠ readAt store msg' p)
    (both : ∃ msg, store.descriptor msg = type ∧
      readAt store msg r ≠ readAt store (store.new type) r ∧
      readAt store msg p ≠ readAt store (store.new type) p) : Apart r p := by
  by_contra touching
  rcases not_apart touching with above | ⟨more, rfl⟩ | rival
  · obtain ⟨msg, msg', rfl, typed, same, different⟩ := freeSecond above
    obtain ⟨more, rfl⟩ := above
    exact different (readAt_append lawful more leads typed same)
  · obtain ⟨msg, msg', rfl, typed, same, different⟩ := freeFirst
    exact different (readAt_append lawful more other typed same)
  · obtain ⟨msg, rfl, set, set'⟩ := both
    rcases readAt_rival lawful leads other rival with unset | unset
    · exact set unset
    · exact set' unset

end
end
end GrpcWebnext.HttpRule
