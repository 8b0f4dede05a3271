import GrpcWebnext.Deadline.Forwarded
import GrpcWebnext.Library.Number
import GrpcWebnext.Ws.JsonAlike

/-! The deadline of a call of the Node client: its local timer, and the timeout that goes to the
server in the open frame or in the header. -/
namespace GrpcWebnext.NodeClient.Timeout
open Framing (Bytes)
open Text (Str)
open Js (Number)
open Json (Tree Literal)
open Time (Duration)

inductive CallDeadline where
  | date (time : Number)
  | number (ms : Number)

def CallDeadline.time : CallDeadline → Number
  | .date time => time
  | .number ms => ms

/-- What is left of a deadline, rounded to a double. -/
def remaining (round : Number → Number) (deadline : CallDeadline) (now : Number) : Number :=
  round (deadline.time.sub now)

def resolveTimeout (round : Number → Number) (deadline : Option CallDeadline) (now : Number) :
    Option Number :=
  deadline.map fun deadline =>
    let ms := remaining round deadline now
    if (Number.ofNat 0).lt ms then ms else .ofNat 1

/-- `setTimeout`: a fraction is cut off, and a delay that is not from 1 to 2^31-1 is 1. -/
def setTimeout (delay : Number) : Number :=
  if delay.ge (.ofNat 1) ∧ (Number.ofNat 2147483647).ge delay then delay.floor else .ofNat 1

structure CallContext where
  timeoutMillis : Option Number
  /-- After so many milliseconds the call is aborted. -/
  timer : Option Number

/-- `createCallContext`, for a signal that is aborted or not. -/
def createCallContext (round : Number → Number) (deadline : Option CallDeadline) (now : Number)
    (aborted : Bool) :
    CallContext :=
  let timeoutMillis := resolveTimeout round deadline now
  ⟨timeoutMillis, if aborted then none else timeoutMillis.map setTimeout⟩

/-- The metadata of a call in the forms that the transports give it. -/
structure CallMetadata where
  toMetadatumList : List Metadatum
  metaToJson : List (Str × Str)
  toHeaders : HeaderMap

section Transports
variable (shortest : ℚ → Str) (metadata : CallMetadata) (timeoutMillis : Option Number)

def openMillis : Number := ((timeoutMillis.filter Number.truthy).map Number.ceil).getD (.ofNat 0)

/-- The open frame of the `+proto` codec. -/
def sendOpen : Ws.Subscribe where
  method := []
  headers := metadata.toMetadatumList
  timeoutMillis := (openMillis timeoutMillis).toUint32.toNat
  initialPayload := []

/-- `JSON.stringify` of a number. -/
def stringify : Number → Tree
  | .finite q => .number ((Number.finite q).toText shortest)
  | _ => .null

/-- The open frame of the `+json` codec. Characters are spelled as `serde_json` does. -/
def sendOpenJson : Tree :=
  .object (JsonText.field JsonText.Rust.written "metadata"
      (if metadata.metaToJson = [] then none
        else some (JsonText.mapText JsonText.Rust.written metadata.metaToJson)) ++
    JsonText.field JsonText.Rust.written "timeoutMillis"
      (if (openMillis timeoutMillis).truthy
        then some (stringify shortest (openMillis timeoutMillis)) else none))

def timeoutHeader : Option Bytes :=
  (timeoutMillis.filter fun t => t.truthy && (Number.ofNat 0).lt t).map fun t =>
    Utf8.encode (t.ceil.toText shortest ++ ['m'])

/-- `Headers.set`. -/
def set (headers : HeaderMap) (name : String) (value : Bytes) : HeaderMap :=
  headers.filter (fun entry => entry.1 ≠ name.toList) ++ [(name.toList, value)]

/-- The headers of a Fetch request. -/
def fetchHeaders (contentType : Bytes) : HeaderMap :=
  let headers := set metadata.toHeaders "content-type" contentType
  match timeoutHeader shortest timeoutMillis with
  | some value => set headers "grpc-timeout" value
  | none => headers

/-- The headers of a request in an h2ts tunnel. -/
def buildHeaders : HeaderMap :=
  [("content-type".toList, utf8 "application/grpc+proto"), ("te".toList, utf8 "trailers")] ++
    ((timeoutHeader shortest timeoutMillis).toList.map fun value => ("grpc-timeout".toList, value)) ++
    metadata.toHeaders.filter fun entry =>
      entry.1 ≠ "content-type".toList && entry.1 ≠ "te".toList &&
        !(entry.1 = "grpc-timeout".toList && timeoutMillis.any Number.truthy)

end Transports

inductive Server where
  | rust
  | go
  deriving DecidableEq

/-- The ways of a timeout to a server. A tunnel ends in the Rust server, which reads the
header itself, or in a gRPC server: that of Go behind its edge, or the upstream of a proxy. -/
inductive Path where
  | protoFrame (server : Server)
  | jsonFrame (server : Server)
  | fetch (server : Server)
  | rustTunnel
  | tunnel
  deriving DecidableEq

/-- The `timeout_millis` of a `Subscribe` in nanoseconds. -/
def Server.ofMillis (millis : Nat) : Server → Option Nat
  | .rust => (Deadline.Rust.grpcTimeoutFromMillis (UInt32.ofNat millis)).map Duration.toNanos
  | .go =>
      let deadline := Deadline.Go.timeoutFromMillis (UInt32.ofNat millis)
      if 0 < deadline then some deadline.toNat else none

def Server.ofHeaders (headers : HeaderMap) : Server → Option Nat
  | .rust => (Deadline.Rust.parseGrpcTimeout headers).map Duration.toNanos
  | .go => (Deadline.Go.parseGRPCTimeout headers).map Int.toNat

def Server.decodeFrame (reread : Str → Option Str) : Server → Tree → Option JsonText.JsonFrame
  | .rust => JsonText.Rust.decodeJsonFrame reread
  | .go => JsonText.Go.decodeJSONFrame

def openedMillis : JsonText.ClientFrame → Option Nat
  | .subscribe _ timeoutMillis _ => some timeoutMillis
  | _ => none

/-- A gRPC server at the end of a tunnel: a timeout has at most eight digits. -/
structure ReadsMillis (native : Bytes → Option Nat) : Prop where
  within : ∀ n, n < 10 ^ 8 → native (Utf8.encode (Nat.toDigits 10 n ++ ['m'])) = some (n * 10 ^ 6)
  beyond : ∀ n, 10 ^ 8 ≤ n → native (Utf8.encode (Nat.toDigits 10 n ++ ['m'])) = none

section Decoded
variable (shortest : ℚ → Str) (reread : Str → Option Str) (native : Bytes → Option Nat) (contentType : Bytes)
  (metadata : CallMetadata)

/-- The nanoseconds that the server makes of the timeout of a call. -/
def decoded (timeoutMillis : Option Number) : Path → Option Nat
  | .protoFrame server => server.ofMillis (sendOpen metadata timeoutMillis).timeoutMillis
  | .jsonFrame server =>
      ((JsonText.decodeText (server.decodeFrame reread) false
        (some (sendOpenJson shortest metadata timeoutMillis))).bind
        openedMillis).bind server.ofMillis
  | .fetch server => server.ofHeaders (fetchHeaders shortest metadata timeoutMillis contentType)
  | .rustTunnel => Server.rust.ofHeaders (buildHeaders shortest metadata timeoutMillis)
  | .tunnel => ((buildHeaders shortest metadata timeoutMillis).get "grpc-timeout").bind native

/-- The server has the rounded number of milliseconds, and the timer leaves the call its time. -/
def Kept (t : Number) (context : CallContext) (path : Path) : Prop :=
  (∃ q, t = .finite q ∧
    decoded shortest reread native contentType metadata context.timeoutMillis path =
      some (q.ceil.toNat * 10 ^ 6)) ∧
  ∀ delay, context.timer = some delay → delay.ge t = true

end Decoded

/-- The longest time on each path. -/
def Path.longest : Path → ℚ
  | .fetch .go => 99999999
  | .tunnel => 99999999
  | _ => 2147483647

/-- A whole number of milliseconds, or less than one of them. -/
def InTime (t : Number) (path : Path) : Prop :=
  ∃ q : ℚ, t = .finite q ∧ q ≤ path.longest ∧ (q ≤ 1 ∨ ∃ z : ℤ, q = z)

/-- The timer is early for a fraction that it cuts off and for a delay that it does not hold. -/
theorem setTimeout_ge_iff {q : ℚ} (future : 0 < q) :
    (setTimeout (.finite q)).ge (.finite q) = true ↔ q ≤ 2147483647 ∧ (q ≤ 1 ∨ ∃ z : ℤ, q = z) := by
  have lower : (Number.finite q).ge (.ofNat 1) = true ↔ 1 ≤ q := by
    rw [Number.ofNat, Number.ge_finite_iff, Nat.cast_one]
  have upper : (Number.ofNat 2147483647).ge (.finite q) = true ↔ q ≤ 2147483647 := by
    rw [Number.ofNat, Number.ge_finite_iff, Nat.cast_ofNat]
  simp only [setTimeout, lower, upper]
  split
  · rename_i held
    rw [Number.floor, Number.ge_finite_iff]
    constructor
    · intro reached
      exact ⟨held.2, .inr ⟨q.floor, le_antisymm reached (Rat.floor_le q)⟩⟩
    · rintro ⟨-, small | ⟨z, rfl⟩⟩
      · obtain rfl : q = ((1 : ℤ) : ℚ) := le_antisymm (by simpa using small) (by simpa using held.1)
        rw [Rat.floor_intCast]
      · rw [Rat.floor_intCast]
  · rename_i shortened
    rw [Number.ofNat, Number.ge_finite_iff, Nat.cast_one]
    constructor
    · intro small
      exact ⟨small.trans (by norm_num), .inl small⟩
    · rintro ⟨bounded, small | ⟨z, rfl⟩⟩
      · exact small
      · have fraction : ¬ (1 : ℚ) ≤ z := fun lower => shortened ⟨lower, bounded⟩
        exact (not_le.mp fraction).le

/-- The rounded number fits in the field. -/
theorem ceil_millis {q : ℚ} (future : 0 < q) (bounded : q ≤ 2147483647) :
    ∃ n : ℕ, 1 ≤ n ∧ n < 2 ^ 31 ∧ q.ceil = n := by
  have up : q.ceil ≤ 2147483647 := Rat.ceil_le_iff.mpr (by simpa using bounded)
  have pos : 0 < q.ceil := by
    have above := Rat.le_ceil (x := q)
    have cast : (0 : ℚ) < q.ceil := lt_of_lt_of_le future above
    exact_mod_cast cast
  exact ⟨q.ceil.toNat, by omega, by omega, by omega⟩

theorem Server.ofMillis_eq {n : Nat} (pos : 1 ≤ n) (small : n < 2 ^ 31) (server : Server) :
    server.ofMillis n = some (n * 10 ^ 6) := by
  have same : (UInt32.ofNat n).toNat = n := UInt32.toNat_ofNat_of_lt' (small.trans (by decide))
  have given : UInt32.ofNat n ≠ 0 := by
    intro zero
    rw [zero] at same
    cases same
    exact absurd pos (by decide)
  cases server with
  | rust =>
      rw [ofMillis, Deadline.Rust.grpcTimeoutFromMillis, if_neg given, Option.map_some,
        Duration.toNanos_ofMillis,
        UInt32.toNat_toUInt64, same]
  | go =>
      have whole : Deadline.Go.timeoutFromMillis (UInt32.ofNat n) = n * 10 ^ 6 := by
        rw [Deadline.Go.timeoutFromMillis, if_neg given, Deadline.Go.wrap, same]
        exact Int.bmod_eq_of_le (by omega) (by omega)
      rw [ofMillis, whole, if_pos (by omega)]
      congr 1

section Header

theorem Server.ofHeaders_rust {headers : HeaderMap} {n : Nat} (small : n < 2 ^ 64)
    (found : headers.get "grpc-timeout" = some (Utf8.encode (Nat.toDigits 10 n ++ ['m']))) :
    Server.rust.ofHeaders headers = some (n * 10 ^ 6) := by
  have all := Deadline.toDigits_all n
  have read : HttpRule.Rust.parseUnsigned 64 (Nat.toDigits 10 n) = some (n : Int) := by
    have plain : HttpRule.Rust.unsigned (Nat.toDigits 10 n) = decimal (Nat.toDigits 10 n) := by
      unfold HttpRule.Rust.unsigned
      split
      · rename_i spelled
        exact absurd (spelled ▸ rfl) (Deadline.digits_head all).1
      · rfl
    rw [HttpRule.Rust.parseUnsigned_eq, plain, Deadline.decimal_toDigits, Option.filter_some,
      if_pos (decide_eq_true small)]
    rfl
  have length : (Nat.toDigits 10 n ++ ['m']).length ≠ 0 := by simp
  have same : (UInt64.ofNat n).toNat = n := UInt64.toNat_ofNat_of_lt' small
  rw [ofHeaders, Deadline.Rust.parseGrpcTimeout, found, Option.bind_some, Deadline.toStr_digits all,
    Option.bind_some,
    if_neg length, List.splitAt_eq]
  simp only [List.length_append, List.length_singleton, Nat.add_sub_cancel, List.take_left',
    List.drop_left', read]
  rw [Option.bind_some, Int.toNat_natCast, Option.map_some, Duration.toNanos_ofMillis, same]

theorem parseInt_digits {n : Nat} (small : n < 10 ^ 8) :
    HttpRule.Go.parseInt 64 (Utf8.encode (Nat.toDigits 10 n)) = .ok (n : Int) := by
  have all := Deadline.toDigits_all n
  have parsed := HttpRule.Go.parseInt_eq (by decide) (Nat.le_refl 64) (Utf8.encode (Nat.toDigits 10 n))
  rw [HttpRule.Go.parseSigned_letters, HttpRule.Go.parseSigned_plain (Deadline.digits_head all).1
    (Deadline.digits_head all).2,
    Deadline.decimal_toDigits, Option.bind_some, if_pos (by omega)] at parsed
  cases outcome : HttpRule.Go.parseInt 64 (Utf8.encode (Nat.toDigits 10 n)) with
  | error e =>
      rw [outcome] at parsed
      cases parsed
  | ok m =>
      rw [outcome] at parsed
      exact congrArg Except.ok (Option.some.inj parsed)

theorem Server.ofHeaders_go {headers : HeaderMap} {n : Nat}
    (found : headers.get "grpc-timeout" = some (Utf8.encode (Nat.toDigits 10 n ++ ['m']))) :
    Server.go.ofHeaders headers = if n < 10 ^ 8 then some (n * 10 ^ 6) else none := by
  have all := Deadline.toDigits_all n
  have length : (Utf8.encode (Nat.toDigits 10 n)).length = (Nat.toDigits 10 n).length := by
    have spelled := congrArg List.length ((HttpRule.Go.letters_encode (Nat.toDigits 10 n)).2 all)
    rwa [HttpRule.Go.letters, List.length_map] at spelled
  have some_ : (Nat.toDigits 10 n).length ≠ 0 := by simp [Nat.toDigits_ne_nil]
  have short : (Nat.toDigits 10 n).length ≤ 8 ↔ n < 10 ^ 8 :=
    Nat.length_toDigits_le_iff (by decide) (by decide)
  rw [Deadline.encode_millis] at found
  rw [ofHeaders, Deadline.Go.parseGRPCTimeout, found, Option.getD_some]
  simp only [List.length_append, List.length_singleton, List.getLast?_append, List.dropLast_concat, length]
  by_cases small : n < 10 ^ 8
  · have fits := short.mpr small
    have whole : (Deadline.Go.wrap (n * 10 ^ 6)).toNat = n * 10 ^ 6 := by
      have exact_ : Deadline.Go.wrap (n * 10 ^ 6) = n * 10 ^ 6 := Int.bmod_eq_of_le (by omega) (by omega)
      rw [exact_]
      omega
    have nonneg : ¬ (n : Int) < 0 := by omega
    have below : ¬ Deadline.Go.maxTimeout.tdiv (10 ^ 6) < n := by
      have quotient : Deadline.Go.maxTimeout.tdiv (10 ^ 6) = 9223372036854 := by decide
      omega
    rw [if_neg (by omega), if_pos small, parseInt_digits small]
    have milli : Deadline.Go.unitOf 109 = some (10 ^ 6) := rfl
    simp only [List.getLast?_singleton, Option.some_or, Option.bind_some, if_neg nonneg, milli, if_neg below,
      Option.map_some, whole]
  · rw [if_pos (.inr (by omega)), if_neg small]
    rfl

end Header

section Frame
variable (reread : Str → Option Str)

theorem mapText_isMap (map : List (Str × Str)) :
    JsonText.IsMap (JsonText.mapText JsonText.Rust.written map) := by
  refine ⟨_, rfl, fun field inside => ?_⟩
  obtain ⟨entry, member, rfl⟩ := List.mem_map.mp inside
  obtain ⟨pair, -, rfl⟩ := List.mem_map.mp member
  refine ⟨?_, Json.write JsonText.Rust.written pair.2, rfl, ?_⟩ <;> rw [Json.write_text] <;> rfl

theorem values_append (name : String) (front back : List (Literal × Tree)) :
    JsonText.Rust.values name (front ++ back) = JsonText.Rust.values name front ++
      JsonText.Rust.values name back :=
  List.filterMap_append

theorem values_field (name other : String) (value : Option Tree) :
    JsonText.Rust.values name (JsonText.field JsonText.Rust.written other value) =
      if other = name then value.toList else [] := by
  cases value with
  | none => rw [Option.toList_none, ite_self]; rfl
  | some t =>
      simp only [JsonText.Rust.values, JsonText.field, List.filterMap_cons, List.filterMap_nil,
        Json.write_text,
        Option.some.injEq, String.toList_inj]
      by_cases same : other = name <;> simp [same]

theorem keysRead_fields (map millis : Option Tree) :
    JsonText.Rust.keysRead (JsonText.field JsonText.Rust.written "metadata" map ++
      JsonText.field JsonText.Rust.written "timeoutMillis" millis) = true := by
  cases map <;> cases millis <;> simp [JsonText.Rust.keysRead, JsonText.field]

/-- The Rust server reads the two fields of an open frame. -/
theorem rust_reads_open {map : Option Tree} (typed : ∀ t, map = some t → JsonText.IsMap t)
    {millis : Tree} {n : Nat}
    (read : JsonText.readU32 millis = some n) :
    ∃ f, JsonText.Rust.decodeJsonFrame reread (.object (JsonText.field JsonText.Rust.written "metadata" map ++
        JsonText.field JsonText.Rust.written "timeoutMillis" (some millis))) = some f ∧
          f.timeoutMillis = some n := by
  have number : JsonText.Rust.optional JsonText.readU32 millis = some (some n) := by
    cases millis with
    | number s =>
        change (JsonText.readU32 (.number s)).map some = some (some n)
        rw [read, Option.map_some]
    | _ => cases read
  have entries : ∃ read, JsonText.Rust.fieldOr none (JsonText.Rust.optional JsonText.Rust.readMap)
    map.toList = some read := by
    have readable :=
      JsonText.fieldOr_isSome none (JsonText.optional_isSome JsonText.readMap_isSome) map.toList
    refine Option.isSome_iff_exists.mp (readable.mpr ?_)
    cases map with
    | none => trivial
    | some t => exact .inr (typed t rfl)
  obtain ⟨entries, found⟩ := entries
  refine ⟨⟨entries, some n, none, none, none⟩, ?_, rfl⟩
  rw [JsonText.Rust.decodeJsonFrame, if_pos (keysRead_fields map (some millis))]
  simp only [values_append, values_field, String.reduceEq, if_true, if_false, List.append_nil,
    List.nil_append,
    JsonText.Rust.readFields, found]
  simp only [JsonText.Rust.fieldOr, Option.toList_some, number]
  rfl

theorem isMap_depth {t : Tree} (map : JsonText.IsMap t) : t.depth = 1 := by
  obtain ⟨fields, rfl, typed⟩ := map
  rw [Json.Tree.depth, Nat.add_eq_right]
  induction fields with
  | nil => rfl
  | cons field rest ih =>
      obtain ⟨literal, same, -⟩ := (typed field List.mem_cons_self).2
      rw [Json.depthFields, same, ih fun other inside => typed other (List.mem_cons_of_mem _ inside)]
      rfl

/-- The Go server reads them as well. -/
theorem go_reads_open {map : Option Tree} (typed : ∀ t, map = some t → JsonText.IsMap t)
    {millis : Tree} {n : Nat}
    (read : JsonText.readU32 millis = some n) :
    ∃ f, JsonText.Go.decodeJSONFrame (.object (JsonText.field JsonText.Rust.written "metadata" map ++
        JsonText.field JsonText.Rust.written "timeoutMillis" (some millis))) = some f ∧
          f.timeoutMillis = some n := by
  have metadataName : JsonText.Go.fieldOf JsonText.Go.frameNames "metadata".toList =
    some .metadata := by decide
  have millisName : JsonText.Go.fieldOf JsonText.Go.frameNames "timeoutMillis".toList =
    some .timeoutMillis := by decide
  have number : ∀ f : JsonText.JsonFrame, JsonText.Go.setField f
      (Json.write JsonText.Rust.written "timeoutMillis".toList, millis) =
        some { f with timeoutMillis := some n } := by
    intro f
    have pointer : JsonText.Go.setPointer JsonText.readU32 f.timeoutMillis millis = some (some n) := by
      cases millis with
      | number s =>
          change (JsonText.readU32 (.number s)).map some = some (some n)
          rw [read, Option.map_some]
      | _ => cases read
    simp only [JsonText.Go.setField, Json.write_lossy, millisName, pointer, Option.map_some]
  have leaf : millis.depth = 0 := by
    cases millis with
    | number s => rfl
    | _ => cases read
  cases map with
  | none =>
      refine ⟨{ JsonText.JsonFrame.empty with timeoutMillis := some n }, ?_, rfl⟩
      rw [JsonText.Go.decodeJSONFrame,
        if_pos (by simp [JsonText.field, Json.Tree.depth, Json.depthFields, leaf])]
      simp only [JsonText.field, List.nil_append, List.foldlM_cons, List.foldlM_nil, number]
      rfl
  | some t =>
      have entries : (JsonText.Go.setMap none t).isSome = true := by
        refine (JsonText.setMap_isSome none t).mpr (.inr ?_)
        obtain ⟨fields, rfl, texts⟩ := typed t rfl
        refine ⟨fields, rfl, fun field inside => .inr ?_⟩
        obtain ⟨literal, same, -⟩ := (texts field inside).2
        exact ⟨literal, same⟩
      obtain ⟨entries, found⟩ := Option.isSome_iff_exists.mp entries
      have first : JsonText.Go.setField .empty (Json.write JsonText.Rust.written "metadata".toList, t) =
          some { JsonText.JsonFrame.empty with metadata := entries } := by
        simp only [JsonText.Go.setField, Json.write_lossy, metadataName, JsonText.JsonFrame.empty,
          found, Option.map_some]
      refine ⟨{ JsonText.JsonFrame.empty with metadata := entries, timeoutMillis := some n }, ?_, rfl⟩
      rw [JsonText.Go.decodeJSONFrame,
        if_pos (by simp [JsonText.field, Json.Tree.depth, Json.depthFields, leaf, isMap_depth (typed t rfl)])]
      simp only [JsonText.field, List.singleton_append, List.foldlM_cons, List.foldlM_nil, first, number]
      rfl

/-- Both servers read the open frame. -/
theorem decodeFrame_sendOpenJson (shortest : ℚ → Str) (metadata : CallMetadata) (server : Server)
    {timeoutMillis : Option Number} {n : Nat} (pos : 1 ≤ n) (small : n < 2 ^ 31)
    (rounded : openMillis timeoutMillis = .ofNat n) :
    ∃ f, server.decodeFrame reread (sendOpenJson shortest metadata timeoutMillis) = some f ∧
      f.timeoutMillis = some n := by
  have given : (Number.ofNat n).truthy = true := by
    have nonzero : (n : ℚ) ≠ 0 := Nat.cast_ne_zero.mpr (by omega)
    simp [Number.truthy, Number.ofNat, nonzero]
  have text : stringify shortest (.ofNat n) = .number (Nat.toDigits 10 n) := by
    rw [← Number.toText_ofNat shortest (small.trans (by decide))]
    rfl
  have read : JsonText.readU32 (.number (Nat.toDigits 10 n)) = some n := by
    rw [JsonText.readU32, Deadline.decimal_toDigits, Option.filter_some, if_pos (decide_eq_true (by omega))]
  have typed : ∀ t, (if metadata.metaToJson = [] then none
      else some (JsonText.mapText JsonText.Rust.written metadata.metaToJson)) = some t →
        JsonText.IsMap t := by
    intro t sent
    obtain ⟨-, same⟩ := Option.ite_none_left_eq_some.mp sent
    cases same
    exact mapText_isMap _
  rw [sendOpenJson, rounded, if_pos given, text]
  cases server with
  | rust => exact rust_reads_open reread typed read
  | go => exact go_reads_open typed read

end Frame

theorem get_set (headers : HeaderMap) (name : String) (value : Bytes) :
    (set headers name value).get name = some value := by
  have absent : (headers.filter fun entry => entry.1 ≠ name.toList).find?
    (fun entry => entry.1 = name.toList) = none := by
    rw [List.find?_eq_none]
    intro entry inside
    simpa using (List.mem_filter.mp inside).2
  rw [HeaderMap.get, set, List.find?_append, absent]
  simp

section Decoded
variable {shortest : ℚ → Str} {reread : Str → Option Str} {native : Bytes → Option Nat} {contentType : Bytes}
  {metadata : CallMetadata}

/-- Up to the limit of the timer only the digits of a header can be too many. -/
theorem decoded_iff (reads : ReadsMillis native) {q : ℚ} (future : 0 < q) (bounded : q ≤ 2147483647)
    (path : Path) :
    decoded shortest reread native contentType metadata (some (.finite q)) path =
      some (q.ceil.toNat * 10 ^ 6) ↔
      q ≤ path.longest := by
  obtain ⟨n, pos, small, rounded⟩ := ceil_millis future bounded
  have ceil : (Number.finite q).ceil = .ofNat n := by
    rw [Number.ceil, rounded, Int.cast_natCast, Number.ofNat]
  have given : (Number.finite q).truthy = true := by simp [Number.truthy, future.ne']
  have whole : openMillis (some (.finite q)) = .ofNat n := by
    rw [openMillis, Option.filter_some, if_pos given, Option.map_some, Option.getD_some, ceil]
  have header : timeoutHeader shortest (some (.finite q)) =
    some (Utf8.encode (Nat.toDigits 10 n ++ ['m'])) := by
    have positive : ((Number.finite q).truthy && (Number.ofNat 0).lt (.finite q)) = true := by
      simp [given, Number.ofNat, Number.lt, future]
    rw [timeoutHeader, Option.filter_some, if_pos positive, Option.map_some, ceil,
      Number.toText_ofNat shortest (small.trans (by decide))]
  have fetched : (fetchHeaders shortest metadata (some (.finite q)) contentType).get "grpc-timeout" =
      some (Utf8.encode (Nat.toDigits 10 n ++ ['m'])) := by
    rw [fetchHeaders, header]
    exact get_set _ _ _
  have eight : q ≤ 99999999 ↔ n < 10 ^ 8 := by
    have bound := Rat.ceil_le_iff (x := q) (y := 99999999)
    rw [rounded, Int.cast_ofNat] at bound
    rw [← bound]
    omega
  have tunnelled : (buildHeaders shortest metadata (some (.finite q))).get "grpc-timeout" =
      some (Utf8.encode (Nat.toDigits 10 n ++ ['m'])) := by
    rw [buildHeaders, header]
    rfl
  rw [rounded, Int.toNat_natCast]
  cases path with
  | protoFrame server =>
      refine iff_of_true ?_ bounded
      rw [decoded, sendOpen, whole, Number.toUint32_ofNat (small.trans (by decide)),
        server.ofMillis_eq pos small]
  | jsonFrame server =>
      refine iff_of_true ?_ bounded
      obtain ⟨f, read, millis⟩ := decodeFrame_sendOpenJson reread shortest metadata server pos small whole
      simp only [decoded, JsonText.decodeText, Option.bind_some, read, Option.map_some,
        Bool.false_eq_true, if_false,
        JsonText.jsonOpenToSubscribe, openedMillis, millis, Option.getD_some, server.ofMillis_eq pos small]
  | fetch server =>
      cases server with
      | rust => exact iff_of_true (Server.ofHeaders_rust (small.trans (by decide)) fetched) bounded
      | go =>
          rw [decoded, Server.ofHeaders_go fetched, Path.longest, eight]
          simp
  | rustTunnel => exact iff_of_true (Server.ofHeaders_rust (small.trans (by decide)) tunnelled) bounded
  | tunnel =>
      rw [decoded, tunnelled, Option.bind_some, Path.longest, eight]
      by_cases eightDigits : n < 10 ^ 8
      · exact iff_of_true (reads.within n eightDigits) eightDigits
      · rw [reads.beyond n (Nat.not_lt.mp eightDigits)]
        exact iff_of_false (Option.some_ne_none _).symm eightDigits

end Decoded

/-- A deadline means the same on both ends exactly for a whole number of milliseconds, or less
than one, that the timer and the path of the timeout can hold. -/
theorem deadline_kept_iff (round : Number → Number) (shortest : ℚ → Str) (reread : Str → Option Str)
    (native : Bytes → Option Nat) (contentType : Bytes) (metadata : CallMetadata) (reads : ReadsMillis native)
    (deadline : CallDeadline) (now : Number)
    (future : (Number.ofNat 0).lt (remaining round deadline now) = true)
    (path : Path) :
    Kept shortest reread native contentType metadata (remaining round deadline now)
        (createCallContext round (some deadline) now false) path ↔
      InTime (remaining round deadline now) path := by
  have resolved : createCallContext round (some deadline) now false =
      ⟨some (remaining round deadline now), some (setTimeout (remaining round deadline now))⟩ := by
    simp [createCallContext, resolveTimeout, future]
  rw [resolved]
  generalize remaining round deadline now = t at future
  constructor
  · rintro ⟨⟨q, rfl, sent⟩, timer⟩
    have positive : 0 < q := by simpa [Number.ofNat, Number.lt] using future
    obtain ⟨bounded, whole⟩ := (setTimeout_ge_iff positive).mp (timer _ rfl)
    exact ⟨q, rfl, (decoded_iff reads positive bounded path).mp sent, whole⟩
  · rintro ⟨q, rfl, short, whole⟩
    have positive : 0 < q := by simpa [Number.ofNat, Number.lt] using future
    have bounded : q ≤ 2147483647 := by
      refine short.trans ?_
      cases path with
      | fetch server => cases server <;> norm_num [Path.longest]
      | protoFrame server | jsonFrame server | rustTunnel | tunnel => norm_num [Path.longest]
    refine ⟨⟨q, rfl, (decoded_iff reads positive bounded path).mpr short⟩, ?_⟩
    rintro delay ⟨⟩
    exact (setTimeout_ge_iff positive).mpr ⟨bounded, whole⟩

/-- Ten seconds keep their meaning, also in a tunnel to a server that reads headers as Go does;
so do a hundred million milliseconds in a tunnel to the Rust server. -/
theorem ten_seconds_kept :
    Kept (fun _ => []) some (fun value => Server.go.ofHeaders [("grpc-timeout".toList, value)]) []
      ⟨[], [], []⟩
        (remaining id (.number (.ofNat 1700000010000)) (.ofNat 1700000000000))
        (createCallContext id (some (.number (.ofNat 1700000010000))) (.ofNat 1700000000000) false) .tunnel ∧
      Kept (fun _ => []) some (fun value => Server.go.ofHeaders [("grpc-timeout".toList, value)]) []
        ⟨[], [], []⟩
        (remaining id (.number (.ofNat 100000000)) (.ofNat 0))
        (createCallContext id (some (.number (.ofNat 100000000))) (.ofNat 0) false) .rustTunnel := by
  have reads : ReadsMillis fun value => Server.go.ofHeaders [("grpc-timeout".toList, value)] := by
    constructor
    · intro n small
      rw [Server.ofHeaders_go rfl, if_pos small]
    · intro n large
      rw [Server.ofHeaders_go rfl, if_neg (Nat.not_lt.mpr large)]
  have seconds : remaining id (.number (.ofNat 1700000010000)) (.ofNat 1700000000000) = .finite 10000 := by
    decide +kernel
  have hours : remaining id (.number (.ofNat 100000000)) (.ofNat 0) = .finite 100000000 := by decide +kernel
  constructor
  · refine (deadline_kept_iff id _ _ _ _ _ reads _ _ (by rw [seconds]; decide +kernel) .tunnel).mpr ?_
    exact ⟨10000, seconds, by norm_num [Path.longest], .inr ⟨10000, by norm_num⟩⟩
  · refine (deadline_kept_iff id _ _ _ _ _ reads _ _ (by rw [hours]; decide +kernel) .rustTunnel).mpr ?_
    exact ⟨100000000, hours, by norm_num [Path.longest], .inr ⟨100000000, by norm_num⟩⟩

/-- From 2^31 ms on the timer ends the call after one; 2^32 ms are no timeout in the one open
frame and make the other unreadable; a hundred million are no timeout in a header. -/
theorem long_deadlines_lost :
    ¬ Kept (fun _ => []) some (fun _ => none) [] ⟨[], [], []⟩
      (remaining id (.number (.ofNat 2147483648)) (.ofNat 0))
        (createCallContext id (some (.number (.ofNat 2147483648))) (.ofNat 0) false) (.protoFrame .rust) ∧
      decoded (fun _ => []) some (fun _ => none) [] ⟨[], [], []⟩ (some (.ofNat 4294967296))
        (.protoFrame .rust) = none ∧
      (JsonText.Rust.decodeJsonFrame some
        (sendOpenJson (fun _ => []) ⟨[], [], []⟩ (some (.ofNat 4294967296)))).isSome = false ∧
      decoded (fun _ => []) some (fun _ => none) [] ⟨[], [], []⟩ (some (.ofNat 100000000))
        (.fetch .go) = none := by
  refine ⟨?_, ?_, ?_, ?_⟩
  · rintro ⟨-, timer⟩
    have early := timer (.ofNat 1) (by decide +kernel)
    exact absurd early (by decide +kernel)
  · decide +kernel
  · decide +kernel
  · decide +kernel

end GrpcWebnext.NodeClient.Timeout
