import Mathlib.Data.List.Nodup
import GrpcWebnext.HttpRule.Bind
import GrpcWebnext.HttpRule.SameRoutes

/-! The table of `google.api.http` bindings that each server compiles from a descriptor
set, and the look-ups in it. -/
namespace GrpcWebnext.HttpRule
open Framing (Bytes)
open Text (Str)
open Utf8 (encode)

/-- The `pattern` of an `HttpRule`. -/
inductive Pattern where
  | unset
  | get (path : Str)
  | put (path : Str)
  | post (path : Str)
  | delete (path : Str)
  | patch (path : Str)
  | custom (kind path : Str)

structure Rule where
  pattern : Pattern
  body : Str
  responseBody : Str

/-- The option of a method. Of its additional bindings only one level is read. -/
structure Annotation where
  rule : Rule
  additionalBindings : List Rule

def isNameChar (c : Char) : Bool := c.isAlphanum || c = '_' || c = '.'

structure Method where
  name : Str
  named : name.all isNameChar = true
  input : Str
  http : Option Annotation

structure Service where
  fullName : Str
  named : fullName.all isNameChar = true
  nonempty : fullName ≠ []
  methods : List Method

/-- A self-contained descriptor set: one that uses the option also declares it. -/
structure DescriptorSet where
  services : List Service
  distinct : (services.map Service.fullName).Nodup

/-- `/pkg.Service/Method`. -/
def methodPath (service : Service) (method : Method) : Str :=
  '/' :: service.fullName ++ '/' :: method.name

def DescriptorSet.methodPaths (set : DescriptorSet) : List Str :=
  set.services.flatMap fun service => service.methods.map (methodPath service)

/-- The same descriptors without an annotation. -/
def Service.bare (service : Service) : Service :=
  { service with methods := service.methods.map fun method => { method with http := none } }

def DescriptorSet.bare (set : DescriptorSet) : DescriptorSet where
  services := set.services.map Service.bare
  distinct := by
    have same : (set.services.map Service.bare).map Service.fullName =
        set.services.map Service.fullName := by
      rw [List.map_map]
      rfl
    rw [same]
    exact set.distinct

/-- One compiled binding, `Binding` of `httprule.rs` and `binding` of `httprule.go`. -/
structure Entry (A Seg : Type) extends Binding (List A) where
  httpMethod : List A
  segments : List Seg
  customVerb : List A
  responseBody : List A
  grpcMethod : List A

/-- The rules of a set with the method each is for, in the order they are compiled in. -/
def DescriptorSet.rules (set : DescriptorSet) : List (Service × Method × Rule) :=
  set.services.flatMap fun service => service.methods.flatMap fun method =>
    match method.http with
    | none => []
    | some http => (http.rule :: http.additionalBindings).map fun rule => (service, method, rule)

namespace Rust

def verbAndPath : Pattern → Option (Str × Str)
  | .get path => if path ≠ [] then some ("GET".toList, path) else none
  | .put path => if path ≠ [] then some ("PUT".toList, path) else none
  | .post path => if path ≠ [] then some ("POST".toList, path) else none
  | .delete path => if path ≠ [] then some ("DELETE".toList, path) else none
  | .patch path => if path ≠ [] then some ("PATCH".toList, path) else none
  | .custom kind path => if kind ≠ [] then some (kind.map Char.toUpper, path) else none
  | .unset => none

def bodyRule (body : Str) : BodyRule Str :=
  if body = [] then .none
  else if body = ['*'] then .wildcard
  else .field body

def pushBinding (service : Service) (method : Method) (rule : Rule) : Option (Entry Char Segment) :=
  (verbAndPath rule.pattern).map fun (httpMethod, template) =>
    { httpMethod := httpMethod
      segments := (parseTemplate template).1
      customVerb := (parseTemplate template).2
      body := bodyRule rule.body
      responseBody := rule.responseBody
      grpcMethod := methodPath service method
      input := method.input }

/-- `HttpRouter::from_pool`. -/
def fromPool (set : DescriptorSet) : List (Entry Char Segment) :=
  set.rules.filterMap fun (service, method, rule) => pushBinding service method rule

/-- `HttpRouter::match_ws`: the first binding whose template matches, whatever its verb. -/
def matchWs : List (Entry Char Segment) → Str → Outcome (Entry Char Segment × List PathVar)
  | [], _ => .miss
  | entry :: rest, path =>
      match matchSegments entry.segments entry.customVerb path with
      | .panic => .panic
      | .hit vars => .hit (entry, vars)
      | .miss => matchWs rest path

/-- `HttpRouter::match_request`: a binding for another verb is passed over. -/
def matchRequest (entries : List (Entry Char Segment)) (method path : Str) :
    Outcome (Entry Char Segment × List PathVar) :=
  let want := method.map Char.toUpper
  matchWs (entries.filter fun entry => entry.httpMethod = want ∨ entry.httpMethod = ['*']) path

/-- `Transcoder::has_method`. -/
def hasMethod (set : DescriptorSet) (path : Str) : Bool :=
  match Text.splitOnce '/' (path.dropWhile (· == '/')) with
  | none => false
  | some (service, method) =>
      match set.services.find? fun svc => svc.fullName = service with
      | none => false
      | some svc => svc.methods.any fun m => m.name = method

end Rust

namespace Go

section
variable (toUpper : Bytes → Bytes)

/-- The strings of a Go descriptor are UTF-8. Upper-casing is that of `strings.ToUpper`. -/
def verbAndPath : Pattern → Option (Bytes × Bytes)
  | .get path => if encode path ≠ [] then some (utf8 "GET", encode path) else none
  | .put path => if encode path ≠ [] then some (utf8 "PUT", encode path) else none
  | .post path => if encode path ≠ [] then some (utf8 "POST", encode path) else none
  | .delete path => if encode path ≠ [] then some (utf8 "DELETE", encode path) else none
  | .patch path => if encode path ≠ [] then some (utf8 "PATCH", encode path) else none
  | .custom kind path => if encode kind ≠ [] then some (toUpper (encode kind), encode path) else none
  | .unset => none

def bodyRule (body : Bytes) : BodyRule Bytes :=
  if body = [] then .none
  else if body = utf8 "*" then .wildcard
  else .field body

def push (service : Service) (method : Method) (rule : Rule) : Option (Entry UInt8 Segment) :=
  (verbAndPath toUpper rule.pattern).map fun (httpMethod, template) =>
    { httpMethod := httpMethod
      segments := (parseTemplate template).1
      customVerb := (parseTemplate template).2
      body := bodyRule (encode rule.body)
      responseBody := encode rule.responseBody
      grpcMethod := encode (methodPath service method)
      input := encode method.input }

def newHTTPRouter (set : DescriptorSet) : List (Entry UInt8 Segment) :=
  set.rules.filterMap fun (service, method, rule) => push toUpper service method rule

def matchWS : List (Entry UInt8 Segment) → Bytes → Option (Entry UInt8 Segment × List PathVar)
  | [], _ => none
  | entry :: rest, path =>
      match matchSegments entry.segments entry.customVerb path with
      | some vars => some (entry, vars)
      | none => matchWS rest path

def matchRequest (entries : List (Entry UInt8 Segment)) (method path : Bytes) :
    Option (Entry UInt8 Segment × List PathVar) :=
  let want := toUpper method
  matchWS (entries.filter fun entry => entry.httpMethod = want ∨ entry.httpMethod = utf8 "*") path

end

/-- The path of a URI, without its query. -/
def pathOnly (uri : Bytes) : Bytes := ((cutAt 63 uri).getD (uri, [])).1

/-- `Transcoder.HasMethod`: the method table is keyed by the method paths. -/
def hasMethod (set : DescriptorSet) (path : Bytes) : Bool :=
  (set.methodPaths.map encode).contains (pathOnly path)

end Go

def templateMatches (template path : Str) : Bool :=
  match matchSegments (parseTemplate template).1 (parseTemplate template).2 path with
  | .hit _ => true
  | _ => false

/-- Some binding of the set has a template that matches the path, for whatever verb. -/
def DescriptorSet.annotates (set : DescriptorSet) (path : Str) : Bool :=
  set.rules.any fun (_, _, rule) =>
    (Rust.verbAndPath rule.pattern).any fun (_, template) => templateMatches template path

section Plain
variable {path : Str}

theorem mem_of_stripVerb {verb : Str} {parts stripped : List Str}
    (done : stripVerb verb parts = some stripped) {comp : Str} (inside : comp ∈ stripped) {c : Char}
    (member : c ∈ comp) : ∃ part ∈ parts, c ∈ part := by
  unfold stripVerb at done
  cases final : parts.getLast? with
  | none =>
      simp only [final] at done
      split at done
      · cases done
      · cases done
        cases inside
  | some last =>
      simp only [final] at done
      split at done
      · cases done
      · cases done
        rcases List.mem_append.mp inside with front | back
        · exact ⟨comp, (List.dropLast_sublist parts).subset front, member⟩
        · rw [List.mem_singleton.mp back] at member
          refine ⟨last, List.mem_of_getLast? final, ?_⟩
          cases cut : Text.splitOnce ':' last with
          | none => simpa [cut] using member
          | some cutting =>
              rw [cut] at member
              rw [Text.splitOnce_some cut]
              exact List.mem_append_left _ member

/-- On a path without an escape, every template is read alike. -/
theorem readsAlike_of_plain (plain : '%' ∉ path) (segments : List Segment) (verb : Str) :
    ReadsAlike segments verb path := by
  intro parts stripped
  have legible : ∀ taken ∈ (takeList segments parts 0).2, ∀ comp ∈ taken.2,
      slicesCharacter (encode comp) = false ∧ Legible comp := by
    intro taken captured comp inside
    apply legible_of_plain
    intro escaped
    obtain ⟨part, among, escaped⟩ :=
      mem_of_stripVerb stripped (takeList_mem segments parts 0 taken captured comp inside) escaped
    rw [Text.fields_trimMatches] at among
    exact plain (Text.mem_of_mem_fields among escaped)
  exact ⟨fun taken captured comp inside => (legible taken captured comp inside).1,
    fun _ taken captured comp inside => (legible taken captured comp inside).2⟩

/-- On such a path both routers decide whether a template matches, and decide it alike. -/
theorem decided_alike (plain : '%' ∉ path) (template : Str) :
    (matchSegments (parseTemplate template).1 (parseTemplate template).2 path = .miss ↔
        templateMatches template path = false) ∧
      (Go.matchSegments (Go.parseTemplate (encode template)).1 (Go.parseTemplate (encode template)).2
          (encode path) = none ↔ templateMatches template path = false) := by
  have agrees := (matchers_agree_iff _ (parseTemplate template).2 path).mpr
    (readsAlike_of_plain plain (parseTemplate template).1 _)
  rw [parseTemplate_encode]
  unfold templateMatches
  cases outcome : matchSegments (parseTemplate template).1 (parseTemplate template).2 path with
  | panic =>
      rw [outcome] at agrees
      cases agrees
  | miss =>
      rw [outcome, Agrees] at agrees
      simp [agrees]
  | hit vars =>
      rw [outcome, Agrees] at agrees
      simp [agrees]

end Plain

section Tables
variable {set : DescriptorSet} {path : Str}

theorem Rust.matchWs_miss_iff {entries : List (Entry Char Segment)} :
    Rust.matchWs entries path = .miss ↔
      ∀ entry ∈ entries, matchSegments entry.segments entry.customVerb path = .miss := by
  induction entries with
  | nil => simp [Rust.matchWs]
  | cons entry rest ih =>
      rw [Rust.matchWs, List.forall_mem_cons]
      cases matchSegments entry.segments entry.customVerb path <;> simp [ih]

theorem Go.matchWS_none_iff {entries : List (Entry UInt8 Go.Segment)} {path : Bytes} :
    Go.matchWS entries path = none ↔
      ∀ entry ∈ entries, Go.matchSegments entry.segments entry.customVerb path = none := by
  induction entries with
  | nil => simp [Go.matchWS]
  | cons entry rest ih =>
      rw [Go.matchWS, List.forall_mem_cons]
      cases Go.matchSegments entry.segments entry.customVerb path <;> simp [ih]

/-- Where no template matches, no verb finds a binding. -/
theorem Rust.matchRequest_miss {entries : List (Entry Char Segment)}
    (missed : Rust.matchWs entries path = .miss) (method : Str) :
    Rust.matchRequest entries method path = .miss := by
  rw [Rust.matchRequest, Rust.matchWs_miss_iff]
  intro entry inside
  exact Rust.matchWs_miss_iff.mp missed entry (List.mem_of_mem_filter inside)

theorem Go.matchRequest_none (toUpper : Bytes → Bytes) {entries : List (Entry UInt8 Go.Segment)}
    {path : Bytes} (missed : Go.matchWS entries path = none) (method : Bytes) :
    Go.matchRequest toUpper entries method path = none := by
  rw [Go.matchRequest, Go.matchWS_none_iff]
  intro entry inside
  exact Go.matchWS_none_iff.mp missed entry (List.mem_of_mem_filter inside)

theorem Go.verbAndPath_eq (toUpper : Bytes → Bytes) (pattern : Pattern) :
    (Go.verbAndPath toUpper pattern).map Prod.snd =
      (Rust.verbAndPath pattern).map fun found => encode found.2 := by
  cases pattern with
  | unset => rfl
  | get path | put path | post path | delete path | patch path | custom kind path =>
      simp only [Go.verbAndPath, Rust.verbAndPath, ne_eq, encode_ne_nil]
      split
      · rfl
      · rfl

theorem Rust.pushBinding_of_some {rule : Rule} {found : Str × Str}
    (compiled : Rust.verbAndPath rule.pattern = some found) (service : Service) (method : Method) :
    Rust.pushBinding service method rule = some
      { httpMethod := found.1
        segments := (parseTemplate found.2).1
        customVerb := (parseTemplate found.2).2
        body := Rust.bodyRule rule.body
        responseBody := rule.responseBody
        grpcMethod := methodPath service method
        input := method.input } := by
  rw [Rust.pushBinding, compiled]
  rfl

theorem Go.push_of_some {toUpper : Bytes → Bytes} {rule : Rule} {found : Bytes × Bytes}
    (compiled : Go.verbAndPath toUpper rule.pattern = some found) (service : Service)
    (method : Method) :
    Go.push toUpper service method rule = some
      { httpMethod := found.1
        segments := (Go.parseTemplate found.2).1
        customVerb := (Go.parseTemplate found.2).2
        body := Go.bodyRule (encode rule.body)
        responseBody := encode rule.responseBody
        grpcMethod := encode (methodPath service method)
        input := encode method.input } := by
  rw [Go.push, compiled]
  rfl

theorem annotates_eq_false : set.annotates path = false ↔
    ∀ item ∈ set.rules, ∀ found, Rust.verbAndPath item.2.2.pattern = some found →
      templateMatches found.2 path = false := by
  simp only [DescriptorSet.annotates, List.any_eq_false, Option.any_eq_true, not_exists, not_and,
    Bool.not_eq_true]

/-- The Rust table finds nothing for a path if and only if no template matches it. -/
theorem Rust.fromPool_miss_iff (plain : '%' ∉ path) :
    Rust.matchWs (Rust.fromPool set) path = .miss ↔ set.annotates path = false := by
  rw [Rust.matchWs_miss_iff, annotates_eq_false]
  constructor
  · intro missed item inside found compiled
    have pushed := Rust.pushBinding_of_some compiled item.1 item.2.1
    exact (decided_alike plain found.2).1.mp (missed _ (List.mem_filterMap.mpr ⟨item, inside, pushed⟩))
  · intro free entry inside
    obtain ⟨item, among, pushed⟩ := List.mem_filterMap.mp inside
    obtain ⟨found, compiled, rfl⟩ := Option.map_eq_some_iff.mp pushed
    exact (decided_alike plain found.2).1.mpr (free item among found compiled)

theorem Go.newHTTPRouter_none_iff (toUpper : Bytes → Bytes) (plain : '%' ∉ path) :
    Go.matchWS (Go.newHTTPRouter toUpper set) (encode path) = none ↔ set.annotates path = false := by
  rw [Go.matchWS_none_iff, annotates_eq_false]
  constructor
  · intro missed item inside found compiled
    have same := Go.verbAndPath_eq toUpper item.2.2.pattern
    rw [compiled] at same
    obtain ⟨⟨verb, template⟩, pushed, spelled⟩ := Option.map_eq_some_iff.mp same
    cases spelled
    have pushed := Go.push_of_some pushed item.1 item.2.1
    exact (decided_alike plain found.2).2.mp (missed _ (List.mem_filterMap.mpr ⟨item, inside, pushed⟩))
  · intro free entry inside
    obtain ⟨item, among, pushed⟩ := List.mem_filterMap.mp inside
    obtain ⟨⟨verb, template⟩, compiled, rfl⟩ := Option.map_eq_some_iff.mp pushed
    have same := Go.verbAndPath_eq toUpper item.2.2.pattern
    rw [compiled] at same
    obtain ⟨found, read, spelled⟩ := Option.map_eq_some_iff.mp same.symm
    dsimp only at spelled ⊢
    rw [← spelled]
    exact (decided_alike plain found.2).2.mpr (free item among found read)

end Tables

section Declared
variable {set : DescriptorSet} {m : Str}

theorem mem_methodPaths : m ∈ set.methodPaths ↔
    ∃ service ∈ set.services, ∃ method ∈ service.methods, methodPath service method = m := by
  simp only [DescriptorSet.methodPaths, List.mem_flatMap, List.mem_map]

/-- The path of a method holds only slashes, letters, digits, underscores and dots. -/
theorem notMem_methodPath (declared : m ∈ set.methodPaths) {c : Char} (special : isNameChar c = false)
    (notSlash : c ≠ '/') : c ∉ m := by
  obtain ⟨service, _, method, _, rfl⟩ := mem_methodPaths.mp declared
  have inService : c ∉ service.fullName := fun inside => by
    rw [List.all_eq_true.mp service.named c inside] at special
    cases special
  have inMethod : c ∉ method.name := fun inside => by
    rw [List.all_eq_true.mp method.named c inside] at special
    cases special
  simp [methodPath, notSlash, inService, inMethod]

theorem Rust.hasMethod_of_declared (declared : m ∈ set.methodPaths) : Rust.hasMethod set m = true := by
  obtain ⟨service, among, method, inside, rfl⟩ := mem_methodPaths.mp declared
  have noSlash : '/' ∉ service.fullName := fun inside => by
    have named := List.all_eq_true.mp service.named '/' inside
    simp [isNameChar] at named
  have trimmed : (methodPath service method).dropWhile (· == '/') =
      service.fullName ++ '/' :: method.name := by
    obtain ⟨c, rest, spelled⟩ := List.exists_cons_of_ne_nil service.nonempty
    have other : c ≠ '/' := by
      rintro rfl
      exact noSlash (spelled ▸ List.mem_cons_self)
    simp [methodPath, spelled, other]
  -- the names are distinct, so the service that is found is this one
  have found : set.services.find? (fun svc => svc.fullName = service.fullName) = some service := by
    cases looked : set.services.find? fun svc => svc.fullName = service.fullName with
    | none => simpa using List.find?_eq_none.mp looked service among
    | some svc =>
        have same : svc.fullName = service.fullName := by simpa using List.find?_some looked
        rw [List.inj_on_of_nodup_map set.distinct (List.mem_of_find?_eq_some looked) among same]
  rw [Rust.hasMethod, trimmed, Text.splitOnce_append noSlash]
  simp only [found, List.any_eq_true, decide_eq_true_eq]
  exact ⟨method, inside, rfl⟩

theorem Go.hasMethod_of_declared (declared : m ∈ set.methodPaths) :
    Go.hasMethod set (encode m) = true := by
  have uncut : Go.cutAt 63 (encode m) = none := by
    rw [cutAt_encode sep_question, Text.splitOnce_none.mpr (notMem_methodPath declared rfl (by decide))]
    rfl
  rw [Go.hasMethod, Go.pathOnly, uncut, List.contains_iff_mem]
  exact List.mem_map_of_mem declared

theorem bare_methodPaths (set : DescriptorSet) : set.bare.methodPaths = set.methodPaths := by
  simp only [DescriptorSet.methodPaths, DescriptorSet.bare, List.flatMap_map]
  congr
  funext service
  rw [Service.bare, List.map_map]
  rfl

theorem bare_rules (set : DescriptorSet) : set.bare.rules = [] := by
  simp [DescriptorSet.rules, DescriptorSet.bare, Service.bare]

theorem bare_annotates (set : DescriptorSet) (path : Str) : set.bare.annotates path = false := by
  rw [DescriptorSet.annotates, bare_rules]
  rfl

end Declared

end GrpcWebnext.HttpRule
