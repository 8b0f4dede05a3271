import GrpcWebnext.Deadline.Forwarded
import GrpcWebnext.MetadataParity.RoundTrip
import GrpcWebnext.Ws.Frame

/-! The headers of the requests that the two servers dispatch to the backend: the metadata of a
frame or the headers of a request that came in, and what the servers set themselves. -/
namespace GrpcWebnext.Dispatched
open Framing (Bytes)
open Text (Str)

/-- `CT_GRPC` and `CTGRPC`. -/
def ctGrpc : Bytes := utf8 "application/grpc"

namespace Rust
variable (room : HeaderMap → Bool)

/-- `header` of a builder, whose map may have no room for one more entry. -/
def header (headers : HeaderMap) (entry : Str × Bytes) : Option HeaderMap :=
  if room headers then some (headers ++ [entry]) else none

def builder (entries : HeaderMap) : Option HeaderMap := entries.foldlM (header room) []

/-- The headers of a request with its deadline; `none` is a panic, of a full map or of the sum
with the grace. -/
def framed (kept : HeaderMap) (deadline : Option Time.Duration) : Option HeaderMap :=
  let entries := kept ++ [("content-type".toList, ctGrpc), ("te".toList, utf8 "trailers")]
  match deadline with
  | some d =>
      (Deadline.Rust.forwarded d).bind fun value => builder room (entries ++ [("grpc-timeout".toList, value)])
  | none => builder room entries

def streamDeadline (sub : Ws.Subscribe) : Option Time.Duration :=
  Deadline.Rust.grpcTimeoutFromMillis (UInt32.ofNat sub.timeoutMillis)

/-- The headers of `run_stream`. -/
def runStream [Rust.Crates] (sub : Ws.Subscribe) : Option HeaderMap :=
  (Rust.appendAll room [] sub.headers).bind fun headers => framed room headers (streamDeadline sub)

def withoutDenied (headers : HeaderMap) : HeaderMap := headers.filter fun entry => !Rust.isDenied entry.1

/-- The headers of `unary_proto`. -/
def unaryProto (headers : HeaderMap) : Option HeaderMap :=
  framed room (withoutDenied headers) (Deadline.Rust.parseGrpcTimeout headers)

/-- The headers of `json_upstream`. -/
def jsonUpstream (reqHeaders : HeaderMap) (deadline : Option Time.Duration) : Option HeaderMap :=
  framed room (withoutDenied reqHeaders) deadline

end Rust

namespace Go
variable (lowering : Lowering)

/-- `Header.Set`. -/
def set (headers : HeaderMap) (name : String) (value : Bytes) : HeaderMap :=
  headers.filter (fun entry => entry.1 ≠ Go.canonical true name.toList) ++
    [(Go.canonical true name.toList, value)]

/-- `copyMetadataHeaders` into an empty map. -/
def copyMetadataHeaders (src : HeaderMap) : HeaderMap :=
  (src.filter fun entry => !Go.denied lowering entry.1).map fun (name, value) =>
    (Go.canonical true name, value)

def framed (headers : HeaderMap) (deadline : Option Int) : HeaderMap :=
  let headers := set headers "Content-Type" ctGrpc
  let headers := set headers "Te" (utf8 "trailers")
  match deadline with
  | some d => set headers "Grpc-Timeout" (Deadline.Go.forwarded d)
  | none => headers

def streamDeadline (sub : Ws.Subscribe) : Option Int :=
  let deadline := Deadline.Go.timeoutFromMillis (UInt32.ofNat sub.timeoutMillis)
  if 0 < deadline then some deadline else none

/-- The headers of `runStream`. -/
def runStream (sub : Ws.Subscribe) : HeaderMap :=
  framed (Go.metadataListToHeaders lowering sub.headers) (streamDeadline sub)

def requestHeaders (src : HeaderMap) (deadline : Option Int) : HeaderMap :=
  framed (copyMetadataHeaders lowering src) deadline

end Go

/-- The case of a header name does not matter. -/
def lowerName (name : Str) : Str := name.map Char.toLower

/-- The values of a name in any case. -/
def valuesNamed (name : String) (headers : HeaderMap) : List Bytes :=
  valuesAt name.toList (headers.map fun (key, value) => (lowerName key, value))

def IsToken (name : Str) : Prop := name ≠ [] ∧ ∀ c ∈ name, Rust.isNameChar c = true

/-- No CR, no LF and no other control character except tab. -/
def NoControls (value : Bytes) : Prop := ∀ b ∈ value, (32 ≤ b ∨ b = 9) ∧ b ≠ 127

/-- The names that the servers set. -/
def reserved : List String := ["content-type", "te", "grpc-timeout"]

/-- The reserved headers are those of the server, and what a client adds to them is no denied
header, has a token for its name and a value without control characters. -/
structure Guarded (denied : Str → Bool) (timeout : Option Bytes) (headers : HeaderMap) : Prop where
  contentType : valuesNamed "content-type" headers = [ctGrpc]
  te : valuesNamed "te" headers = [utf8 "trailers"]
  grpcTimeout : valuesNamed "grpc-timeout" headers = timeout.toList
  others : ∀ entry ∈ headers, denied (lowerName entry.1) = true →
    ∃ name ∈ reserved, lowerName entry.1 = name.toList
  token : ∀ entry ∈ headers, IsToken entry.1
  value : ∀ entry ∈ headers, NoControls entry.2

/-- An entry of a client that may go with a request. -/
structure Harmless (denied : Str → Bool) (entry : Str × Bytes) : Prop where
  allowed : denied (lowerName entry.1) = false
  token : IsToken entry.1
  value : NoControls entry.2

section Characters

theorem isNameChar_lower {c : Char} (taken : Rust.isNameChar c = true) :
    Rust.isNameChar c.toLower = true := by
  have same := nameChar_lower (toLower_small (isNameChar_ascii taken))
  rw [toLower_idem (isNameChar_ascii taken), ← nameChar_lower (isNameChar_ascii taken)] at same
  exact same.trans taken

theorem isNameChar_upper {c : Char} (taken : Rust.isNameChar c = true) :
    Rust.isNameChar c.toUpper = true := by
  have same := nameChar_lower (toUpper_small (isNameChar_ascii taken))
  rw [toLower_toUpper (isNameChar_ascii taken), ← nameChar_lower (isNameChar_ascii taken)] at same
  exact same.trans taken

theorem IsToken.lower {name : Str} (token : IsToken name) : IsToken (lowerName name) := by
  refine ⟨mt List.map_eq_nil_iff.mp token.1, fun c inside => ?_⟩
  obtain ⟨d, member, rfl⟩ := List.mem_map.mp inside
  exact isNameChar_lower (token.2 d member)

theorem isNameChar_canonical : ∀ (upper : Bool) {name : Str}, (∀ c ∈ name, Rust.isNameChar c = true) →
    ∀ c ∈ Go.canonical upper name, Rust.isNameChar c = true
  | _, [], _, c, inside => by cases inside
  | upper, d :: rest, taken, c, inside => by
      have first := taken d List.mem_cons_self
      rcases List.mem_cons.mp inside with rfl | inside
      · split
        · exact isNameChar_upper first
        · exact isNameChar_lower first
      · exact isNameChar_canonical _ (fun c inside => taken c (List.mem_cons_of_mem _ inside)) c inside

theorem IsToken.canonical {name : Str} (token : IsToken name) : IsToken (Go.canonical true name) := by
  refine ⟨?_, isNameChar_canonical true token.2⟩
  cases name with
  | nil => exact absurd rfl token.1
  | cons c rest => exact List.cons_ne_nil _ _

theorem headerName_token [Rust.Crates] {key name : Str} (named : Rust.headerName key = some name) :
    IsToken key ∧ lowerName key = name := by
  rw [Rust.Crates.headerName_spec] at named
  obtain ⟨taken, same⟩ := Option.ite_none_right_eq_some.mp named
  exact ⟨⟨taken.1, fun c inside => List.all_eq_true.mp taken.2.2 c inside⟩, Option.some.inj same⟩

/-- The names that Go takes are tokens. -/
theorem isToken_of_valid {name : Str} (nonempty : name ≠ []) (valid : Go.validHeaderKey name = true) :
    IsToken name := by
  refine ⟨nonempty, fun c inside => ?_⟩
  have small := Go.validHeaderKey_ascii valid inside
  have taken := List.all_eq_true.mp valid c inside
  revert taken
  exact ascii_induction (P := fun c => (!(decide (c ≤ ' ') || decide (0x7F ≤ c.toNat) ||
    Go.keySeparators.toList.contains c)) = true → Rust.isNameChar c = true) (by decide) small

theorem lowerName_canonical (lowering : Lowering) {name : Str} (token : IsToken name) :
    lowerName (Go.canonical true name) = lowerName name := by
  have ascii : ∀ c ∈ name, c.toNat < 128 := fun c inside => isNameChar_ascii (token.2 c inside)
  have same : Go.toLower lowering (Go.canonical true name) = Go.toLower lowering name :=
    Go.toLower_canonical true ascii
  rwa [Go.toLower_plain (Go.canonical_ascii true ascii), Go.toLower_plain ascii] at same

theorem noControls {value : Bytes} (valid : Go.validHeaderValue value = true) : NoControls value := by
  have each : ∀ b : UInt8, (!(decide (b < 32) && b != 9 || b == 0x7F)) = true →
    (32 ≤ b ∨ b = 9) ∧ b ≠ 127 := by
    decide +kernel
  exact fun b inside => each b (List.all_eq_true.mp valid b inside)

end Characters

section Clients

/-- What the loop of `metadata_vec_to_metadata` appends may go with a request. -/
theorem harmless_of_appended [Rust.Crates] {m : Metadatum} {entry : Str × Bytes}
    (appended : Rust.appended m = some entry) :
    Harmless Rust.isDenied entry := by
  cases named : Rust.headerName m.key with
  | none =>
      rw [appended_unnamed fun name same => absurd (named.symm.trans same) nofun] at appended
      cases appended
  | some name =>
      cases denied : Rust.isDenied name with
      | true =>
          rw [appended_unnamed fun other same => Option.some.inj (named.symm.trans same) ▸ denied] at appended
          cases appended
      | false =>
          obtain ⟨token, same⟩ := headerName_token named
          have lower : lowerName name = name := by
            rw [← same, lowerName, lowerName, List.map_map]
            exact List.map_congr_left fun c inside => toLower_idem (isNameChar_ascii (token.2 c inside))
          have spelled : IsToken name := same ▸ token.lower
          obtain ⟨key, value⟩ := m
          cases value with
          | none => simp [Rust.appended, named] at appended
          | some value => cases value with
            | ascii v =>
                rw [appended_ascii named denied] at appended
                obtain ⟨⟨-, fits⟩, entered⟩ := Option.ite_none_right_eq_some.mp appended
                cases entered
                exact ⟨lower.symm ▸ denied, spelled, noControls (validHeaderValue_of_fits fits)⟩
            | bin v =>
                rw [appended_bin named denied] at appended
                obtain ⟨-, entered⟩ := Option.ite_none_right_eq_some.mp appended
                cases entered
                have valid := validHeaderValue_encode v 0
                rw [List.replicate_zero, List.append_nil] at valid
                exact ⟨lower.symm ▸ denied, spelled, noControls valid⟩

/-- What the loop of `metadataListToHeaders` adds may, too. -/
theorem harmless_of_added {lowering : Lowering} {m : Metadatum} {key : Str} {value : Bytes}
    (added : Go.added lowering m = some (key, value)) :
    Harmless Go.isDeniedHeader (Go.canonical true key, value) := by
  cases takes : Go.takesKey lowering m.key with
  | false =>
      rw [added_of_not_takesKey takes] at added
      cases added
  | true =>
      obtain ⟨nonempty, valid, other, allowed⟩ := Go.takesKey_iff.mp takes
      have entered : key = Go.toLower lowering m.key ∧ Go.validHeaderValue value = true := by
        rw [added_of_takesKey takes] at added
        split at added
        · obtain ⟨legal, same⟩ := Option.ite_none_right_eq_some.mp added
          cases same
          exact ⟨rfl, legal⟩
        · cases added
          have legal := validHeaderValue_encode ‹Bytes› 0
          rw [List.replicate_zero, List.append_nil] at legal
          exact ⟨rfl, legal⟩
        · cases added
      obtain ⟨rfl, legal⟩ := entered
      have token : IsToken (Go.toLower lowering m.key) :=
        isToken_of_valid (mt List.map_eq_nil_iff.mp nonempty) valid
      have lower : lowerName (Go.toLower lowering m.key) = Go.toLower lowering m.key := by
        have ascii := fun c inside => isNameChar_ascii (token.2 c inside)
        have plain : Go.toLower lowering (Go.toLower lowering m.key) =
          lowerName (Go.toLower lowering m.key) :=
          Go.toLower_plain ascii
        exact plain.symm.trans (Go.toLower_toLower valid)
      refine ⟨?_, token.canonical, noControls legal⟩
      rw [lowerName_canonical lowering token, lower, Go.isDeniedHeader, Bool.or_eq_false_iff]
      exact ⟨decide_eq_false other, allowed⟩

/-- A header that came in, unless it is denied. -/
theorem harmless_of_inbound [Rust.Crates] {inbound : HeaderBlock}
    (names : ∀ entry ∈ inbound.entries, Rust.headerName entry.1 = some entry.1) :
    ∀ entry ∈ Rust.withoutDenied inbound.entries, Harmless Rust.isDenied entry := by
  intro entry inside
  obtain ⟨came, allowed⟩ := List.mem_filter.mp inside
  obtain ⟨token, lower⟩ := headerName_token (names entry came)
  refine ⟨?_, token, noControls (inbound.legal entry came)⟩
  rw [lower]
  exact (Bool.not_eq_true' _).mp allowed

theorem harmless_of_copied {lowering : Lowering} {inbound : HeaderBlock}
    (names : ∀ entry ∈ inbound.entries, entry.1 ≠ [] ∧ Go.validHeaderKey entry.1 = true) :
    ∀ entry ∈ Go.copyMetadataHeaders lowering inbound.entries, Harmless Go.isDeniedHeader entry := by
  intro entry inside
  obtain ⟨source, copied, rfl⟩ := List.mem_map.mp inside
  obtain ⟨came, allowed⟩ := List.mem_filter.mp copied
  have token := isToken_of_valid (names source came).1 (names source came).2
  refine ⟨?_, token.canonical, noControls (inbound.legal source came)⟩
  rw [lowerName_canonical lowering token]
  have lower : Go.toLower lowering source.1 = lowerName source.1 :=
    Go.toLower_plain fun c member => isNameChar_ascii (token.2 c member)
  rw [Go.denied, lower] at allowed
  exact (Bool.not_eq_true' _).mp allowed

end Clients

section Reserved
variable {denied : Str → Bool} {kept : HeaderMap}

/-- The headers of a server, under its spelling of the names. -/
def own (spelled : String → Str) (timeout : Option Bytes) : HeaderMap :=
  [(spelled "content-type", ctGrpc), (spelled "te", utf8 "trailers")] ++
    timeout.toList.map fun value => (spelled "grpc-timeout", value)

theorem valuesNamed_harmless (harmless : ∀ entry ∈ kept, Harmless denied entry) {name : String}
    (refused : denied name.toList = true) : valuesNamed name kept = [] := by
  rw [valuesNamed, valuesAt, List.map_eq_nil_iff, List.filter_eq_nil_iff]
  intro entry inside
  obtain ⟨source, member, rfl⟩ := List.mem_map.mp inside
  rw [decide_eq_true_eq]
  intro same
  change lowerName source.1 = name.toList at same
  have allowed := (harmless source member).allowed
  rw [same, refused] at allowed
  cases allowed

theorem valuesNamed_append (name : String) (front back : HeaderMap) :
    valuesNamed name (front ++ back) = valuesNamed name front ++ valuesNamed name back := by
  rw [valuesNamed, List.map_append, valuesAt, List.filter_append, List.map_append]
  rfl

theorem valuesNamed_own {spelled : String → Str}
    (names : ∀ name ∈ reserved, lowerName (spelled name) = name.toList)
    (timeout : Option Bytes) :
    valuesNamed "content-type" (own spelled timeout) = [ctGrpc] ∧
      valuesNamed "te" (own spelled timeout) = [utf8 "trailers"] ∧
      valuesNamed "grpc-timeout" (own spelled timeout) = timeout.toList := by
  have contentType := names "content-type" (by decide)
  have te := names "te" (by decide)
  have grpcTimeout := names "grpc-timeout" (by decide)
  cases timeout with
  | none => simp [valuesNamed, valuesAt, own, contentType, te]
  | some value => simp [valuesNamed, valuesAt, own, contentType, te, grpcTimeout]

theorem mem_own {spelled : String → Str} {timeout : Option Bytes} {entry : Str × Bytes}
    (inside : entry ∈ own spelled timeout) :
    (∃ name ∈ reserved, entry.1 = spelled name) ∧
      (entry.2 = ctGrpc ∨ entry.2 = utf8 "trailers" ∨ timeout = some entry.2) := by
  rcases List.mem_append.mp inside with fixed | last
  · rcases List.mem_pair.mp fixed with rfl | rfl
    · exact ⟨⟨_, by decide, rfl⟩, .inl rfl⟩
    · exact ⟨⟨_, by decide, rfl⟩, .inr (.inl rfl)⟩
  · obtain ⟨value, sent, rfl⟩ := List.mem_map.mp last
    exact ⟨⟨_, by decide, rfl⟩, .inr (.inr (Option.mem_toList.mp sent))⟩

/-- The own headers behind harmless ones are the only ones of their names. -/
theorem guarded_own (harmless : ∀ entry ∈ kept, Harmless denied entry)
    (refused : ∀ name ∈ reserved, denied name.toList = true) {spelled : String → Str}
    (names : ∀ name ∈ reserved, lowerName (spelled name) = name.toList ∧ IsToken (spelled name))
    {timeout : Option Bytes} (valid : ∀ value, timeout = some value → NoControls value) :
    Guarded denied timeout (kept ++ own spelled timeout) := by
  obtain ⟨contentType, te, grpcTimeout⟩ := valuesNamed_own (fun name listed => (names name listed).1) timeout
  have only : ∀ name ∈ reserved,
      valuesNamed name (kept ++ own spelled timeout) = valuesNamed name (own spelled timeout) := by
    intro name listed
    rw [valuesNamed_append, valuesNamed_harmless harmless (refused name listed), List.nil_append]
  refine ⟨(only _ (by decide)).trans contentType, (only _ (by decide)).trans te,
    (only _ (by decide)).trans grpcTimeout,
    ?_, ?_, ?_⟩
  · intro entry inside forbidden
    rcases List.mem_append.mp inside with client | server
    · exact absurd ((harmless entry client).allowed.symm.trans forbidden) Bool.false_ne_true
    · obtain ⟨⟨name, listed, same⟩, -⟩ := mem_own server
      exact ⟨name, listed, same ▸ (names name listed).1⟩
  · intro entry inside
    rcases List.mem_append.mp inside with client | server
    · exact (harmless entry client).token
    · obtain ⟨⟨name, listed, same⟩, -⟩ := mem_own server
      exact same ▸ (names name listed).2
  · intro entry inside
    rcases List.mem_append.mp inside with client | server
    · exact (harmless entry client).value
    · rcases (mem_own server).2 with same | same | same
      · exact same ▸ noControls (by decide)
      · exact same ▸ noControls (by decide)
      · exact valid _ same

end Reserved

section Timeouts

theorem noControls_millis (n : Nat) : NoControls (Utf8.encode (Nat.toDigits 10 n ++ ['m'])) := by
  refine noControls (validHeaderValue_of_visible ?_)
  rw [Deadline.toStr_digits (Deadline.toDigits_all n)]
  rfl

theorem rust_forwarded_valid {d : Time.Duration} {value : Bytes}
    (forwarded : Deadline.Rust.forwarded d = some value) :
    NoControls value := by
  obtain ⟨sum, -, rfl⟩ := Option.map_eq_some_iff.mp forwarded
  exact noControls_millis _

theorem go_forwarded_valid (d : Int) : NoControls (Deadline.Go.forwarded d) := noControls_millis _

variable {room : HeaderMap → Bool}

/-- A builder that did not panic has all of its entries. -/
theorem foldlM_header {entries front headers : HeaderMap}
    (built : entries.foldlM (Rust.header room) front = some headers) :
    headers = front ++ entries := by
  induction entries generalizing front with
  | nil => exact (Option.some.inj built).symm.trans (List.append_nil front).symm
  | cons entry rest ih =>
      rw [List.foldlM_cons] at built
      obtain ⟨next, taken, built⟩ := Option.bind_eq_some_iff.mp built
      obtain ⟨-, same⟩ := Option.ite_none_right_eq_some.mp taken
      rw [ih built, ← Option.some.inj same, List.append_assoc, List.singleton_append]

theorem appendAll_some [Rust.Crates] {items : List Metadatum} {front headers : HeaderMap}
    (appended : Rust.appendAll room front items = some headers) :
    headers = front ++ Rust.metadataVecToMetadata items := by
  induction items generalizing front with
  | nil => exact (Option.some.inj appended).symm.trans (List.append_nil front).symm
  | cons m rest ih =>
      rw [Rust.metadataVecToMetadata, List.filterMap_cons]
      rw [Rust.appendAll] at appended
      cases entered : Rust.appended m with
      | none =>
          rw [entered] at appended
          exact ih appended
      | some entry =>
          rw [entered] at appended
          obtain ⟨-, appended⟩ := Option.ite_none_right_eq_some.mp appended
          rw [ih appended, List.append_assoc]
          rfl

/-- Every request of the Rust server has what its deadline was made of. -/
theorem rust_framed {kept : HeaderMap} {deadline : Option Time.Duration} {headers : HeaderMap}
    (built : Rust.framed room kept deadline = some headers) :
    headers = kept ++ own String.toList (deadline.bind Deadline.Rust.forwarded) := by
  unfold Rust.framed at built
  cases deadline with
  | none =>
      have same := foldlM_header built
      rw [same, own, Option.bind_none, Option.toList_none, List.map_nil, List.append_nil, List.nil_append]
  | some d =>
      dsimp only at built
      obtain ⟨value, forwarded, built⟩ := Option.bind_eq_some_iff.mp built
      have same := foldlM_header built
      rw [same, own, Option.bind_some, forwarded, Option.toList_some, List.map_singleton, List.append_assoc,
        List.nil_append]

theorem filter_absent {headers : HeaderMap} {name : Str} (absent : ∀ entry ∈ headers, entry.1 ≠ name) :
    headers.filter (fun entry => entry.1 ≠ name) = headers :=
  List.filter_eq_self.mpr fun entry inside => decide_eq_true (absent entry inside)

/-- The spelling of the own names in Go. -/
def goSpelling (name : String) : Str := Go.canonical true name.toList

/-- `Set` puts a header behind those of other names. -/
theorem set_of_absent {headers : HeaderMap} {name lower : String} (value : Bytes)
    (same : goSpelling name = goSpelling lower) (absent : ∀ entry ∈ headers, entry.1 ≠ goSpelling lower) :
    Go.set headers name value = headers ++ [(goSpelling lower, value)] := by
  rw [Go.set, ← goSpelling, same, filter_absent absent]

theorem spelled_reserved {spelled : String → Str}
    (each : ∀ name ∈ reserved, lowerName (spelled name) = name.toList ∧ spelled name ≠ [] ∧
      (spelled name).all Rust.isNameChar = true) :
    ∀ name ∈ reserved, lowerName (spelled name) = name.toList ∧ IsToken (spelled name) := by
  intro name listed
  obtain ⟨lower, nonempty, token⟩ := each name listed
  exact ⟨lower, nonempty, fun c inside => List.all_eq_true.mp token c inside⟩

theorem rust_reserved : ∀ name ∈ reserved, lowerName name.toList = name.toList ∧ IsToken name.toList :=
  spelled_reserved (by decide)

theorem goSpelling_reserved :
    ∀ name ∈ reserved, lowerName (goSpelling name) = name.toList ∧ IsToken (goSpelling name) :=
  spelled_reserved (by decide)

/-- Both servers deny the names that they set. -/
theorem refused : ∀ name ∈ reserved, Rust.isDenied name.toList = true ∧
    Go.isDeniedHeader name.toList = true := by
  decide

theorem goSpelling_absent {kept : HeaderMap} (harmless : ∀ entry ∈ kept, Harmless Go.isDeniedHeader entry)
    {name : String} (listed : name ∈ reserved) : ∀ entry ∈ kept, entry.1 ≠ goSpelling name := by
  intro entry inside same
  have allowed := (harmless entry inside).allowed
  rw [same, (goSpelling_reserved name listed).1, (refused name listed).2] at allowed
  cases allowed

theorem goSpelling_distinct : goSpelling "content-type" ≠ goSpelling "te" ∧
    goSpelling "content-type" ≠ goSpelling "grpc-timeout" ∧ goSpelling "te" ≠ goSpelling "grpc-timeout" := by
  decide

/-- None of the three names is there before the Go server sets it. -/
theorem go_framed {kept : HeaderMap} (harmless : ∀ entry ∈ kept, Harmless Go.isDeniedHeader entry)
    (deadline : Option Int) :
    Go.framed kept deadline = kept ++ own goSpelling (deadline.map Deadline.Go.forwarded) := by
  obtain ⟨typeTe, typeTimeout, teTimeout⟩ := goSpelling_distinct
  have first : Go.set kept "Content-Type" ctGrpc = kept ++ [(goSpelling "content-type", ctGrpc)] :=
    set_of_absent ctGrpc (by decide) (goSpelling_absent harmless (by decide))
  have second : Go.set (kept ++ [(goSpelling "content-type", ctGrpc)]) "Te" (utf8 "trailers") =
      kept ++ [(goSpelling "content-type", ctGrpc), (goSpelling "te", utf8 "trailers")] := by
    have spelled : goSpelling "Te" = goSpelling "te" := by decide
    rw [set_of_absent _ spelled, List.append_assoc, List.singleton_append]
    rw [List.forall_mem_append, List.forall_mem_singleton]
    exact ⟨goSpelling_absent harmless (by decide), typeTe⟩
  unfold Go.framed
  rw [first]
  dsimp only
  rw [second]
  cases deadline with
  | none => rw [own, Option.map_none, Option.toList_none, List.map_nil, List.append_nil]
  | some d =>
      dsimp only
      have spelled : goSpelling "Grpc-Timeout" = goSpelling "grpc-timeout" := by decide
      rw [set_of_absent _ spelled, own, Option.map_some,
        Option.toList_some, List.map_singleton, List.append_assoc]
      rw [List.forall_mem_append, List.forall_mem_cons, List.forall_mem_singleton]
      exact ⟨goSpelling_absent harmless (by decide), typeTimeout, teTimeout⟩

end Timeouts

section Requests

/-- The Rust server builds a guarded request around what is harmless. -/
theorem rust_guarded {room : HeaderMap → Bool} {kept headers : HeaderMap} {deadline : Option Time.Duration}
    (harmless : ∀ entry ∈ kept, Harmless Rust.isDenied entry)
    (built : Rust.framed room kept deadline = some headers) :
    Guarded Rust.isDenied (deadline.bind Deadline.Rust.forwarded) headers := by
  rw [rust_framed built]
  refine guarded_own harmless (fun name listed => (refused name listed).1) rust_reserved ?_
  intro value sent
  obtain ⟨d, -, forwarded⟩ := Option.bind_eq_some_iff.mp sent
  exact rust_forwarded_valid forwarded

/-- So does the Go server. -/
theorem go_guarded {kept : HeaderMap} (harmless : ∀ entry ∈ kept, Harmless Go.isDeniedHeader entry)
    (deadline : Option Int) :
    Guarded Go.isDeniedHeader (deadline.map Deadline.Go.forwarded) (Go.framed kept deadline) := by
  rw [go_framed harmless]
  refine guarded_own harmless (fun name listed => (refused name listed).2) goSpelling_reserved ?_
  intro value sent
  obtain ⟨d, -, rfl⟩ := Option.map_eq_some_iff.mp sent
  exact go_forwarded_valid d

theorem harmless_metadataVecToMetadata [Rust.Crates] (items : List Metadatum) :
    ∀ entry ∈ Rust.metadataVecToMetadata items, Harmless Rust.isDenied entry := by
  intro entry inside
  obtain ⟨m, -, appended⟩ := List.mem_filterMap.mp inside
  exact harmless_of_appended appended

theorem harmless_metadataListToHeaders (lowering : Lowering) (items : List Metadatum) :
    ∀ entry ∈ Go.metadataListToHeaders lowering items, Harmless Go.isDeniedHeader entry := by
  intro entry inside
  obtain ⟨⟨key, value⟩, member, rfl⟩ := List.mem_map.mp inside
  obtain ⟨m, -, added⟩ := List.mem_filterMap.mp member
  exact harmless_of_added added

end Requests

/-- On every route of a client to the backend the reserved headers are those of the server. -/
theorem reserved_headers_guarded [Rust.Crates] (room : HeaderMap → Bool) (lowering : Lowering) :
    (∀ sub headers, Rust.runStream room sub = some headers →
      Guarded Rust.isDenied ((Rust.streamDeadline sub).bind Deadline.Rust.forwarded) headers) ∧
    (∀ inbound : HeaderBlock, (∀ entry ∈ inbound.entries, Rust.headerName entry.1 = some entry.1) →
      (∀ headers, Rust.unaryProto room inbound.entries = some headers →
        Guarded Rust.isDenied
          ((Deadline.Rust.parseGrpcTimeout inbound.entries).bind Deadline.Rust.forwarded) headers) ∧
      ∀ deadline headers, Rust.jsonUpstream room inbound.entries deadline = some headers →
        Guarded Rust.isDenied (deadline.bind Deadline.Rust.forwarded) headers) ∧
    (∀ sub, Guarded Go.isDeniedHeader ((Go.streamDeadline sub).map Deadline.Go.forwarded)
      (Go.runStream lowering sub)) ∧
    ∀ inbound : HeaderBlock, (∀ entry ∈ inbound.entries, entry.1 ≠ [] ∧ Go.validHeaderKey entry.1 = true) →
      ∀ deadline, Guarded Go.isDeniedHeader (deadline.map Deadline.Go.forwarded)
        (Go.requestHeaders lowering inbound.entries deadline) := by
  refine ⟨?_, fun inbound names => ⟨?_, ?_⟩, ?_, ?_⟩
  · intro sub headers dispatched
    obtain ⟨kept, appended, built⟩ := Option.bind_eq_some_iff.mp dispatched
    rw [appendAll_some appended] at built
    exact rust_guarded (harmless_metadataVecToMetadata sub.headers) built
  · intro headers dispatched
    exact rust_guarded (harmless_of_inbound names) dispatched
  · intro deadline headers dispatched
    exact rust_guarded (harmless_of_inbound names) dispatched
  · intro sub
    exact go_guarded (harmless_metadataListToHeaders lowering sub.headers) _
  · intro inbound names deadline
    exact go_guarded (harmless_of_copied names) deadline

/-- A client's `te` does not get through. -/
theorem te_stays_trailers :
    (∃ headers,
      @Rust.runStream (fun _ => true) Rust.published
        ⟨[], [⟨"TE".toList, some (.ascii (utf8 "gzip"))⟩], 0, []⟩ =
        some headers ∧ valuesNamed "te" headers = [utf8 "trailers"]) ∧
    (∃ headers, Rust.unaryProto (fun _ => true) [("te".toList, utf8 "gzip")] = some headers ∧
      valuesNamed "te" headers = [utf8 "trailers"]) ∧
    (∃ headers, Rust.jsonUpstream (fun _ => true) [("te".toList, utf8 "gzip")] none = some headers ∧
      valuesNamed "te" headers = [utf8 "trailers"]) ∧
    valuesNamed "te" (Go.runStream asciiLowering ⟨[], [⟨"TE".toList, some (.ascii (utf8 "gzip"))⟩], 0, []⟩) =
      [utf8 "trailers"] ∧
    valuesNamed "te" (Go.requestHeaders asciiLowering [("Te".toList, utf8 "gzip")] none) =
      [utf8 "trailers"] := by
  let _ : Rust.Crates := Rust.published
  obtain ⟨rustStream, rustUnary, goStream, goUnary⟩ := reserved_headers_guarded (fun _ => true) asciiLowering
  have legal : ∀ name : Str, ∀ entry ∈ [(name, utf8 "gzip")], Go.validHeaderValue entry.2 = true := by
    intro name entry inside
    obtain rfl := List.mem_singleton.mp inside
    change Go.validHeaderValue (utf8 "gzip") = true
    decide
  have names : ∀ entry ∈ [("te".toList, utf8 "gzip")], Rust.headerName entry.1 = some entry.1 := by
    rw [List.forall_mem_singleton]
    decide
  have stream : Rust.runStream (fun _ => true) ⟨[], [⟨"TE".toList, some (.ascii (utf8 "gzip"))⟩], 0, []⟩ =
      some [("content-type".toList, ctGrpc), ("te".toList, utf8 "trailers")] := by
    decide
  have unary : Rust.unaryProto (fun _ => true) [("te".toList, utf8 "gzip")] =
      some [("content-type".toList, ctGrpc), ("te".toList, utf8 "trailers")] := by
    decide
  have upstream : Rust.jsonUpstream (fun _ => true) [("te".toList, utf8 "gzip")] none =
      some [("content-type".toList, ctGrpc), ("te".toList, utf8 "trailers")] := by
    decide
  have guarded := rustUnary ⟨[("te".toList, utf8 "gzip")], legal _⟩ names
  refine ⟨⟨_, stream, (rustStream _ _ stream).te⟩, ⟨_, unary, (guarded.1 _ unary).te⟩,
    ⟨_, upstream, (guarded.2 none _ upstream).te⟩, (goStream _).te, ?_⟩
  refine (goUnary ⟨[("Te".toList, utf8 "gzip")], legal _⟩ ?_ none).te
  rw [List.forall_mem_singleton]
  decide

end GrpcWebnext.Dispatched
