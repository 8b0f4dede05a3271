import GrpcWebnext.FetchResponse
import GrpcWebnext.Ws.OneCall
import GrpcWebnext.Ws.Pump

/-! What the two binary surfaces of the Rust server tell a caller about one response:
`run_stream` in its Header and Trailer frames, `unary_proto` in the response head and
the Trailer behind the body. -/
namespace GrpcWebnext
open Framing (Bytes)
open Text (Str)

/-- Initial and trailing metadata, status code and message. The initial metadata is
`none` where a `-bin` header does not decode. -/
structure Outcome where
  initial : Option (List Metadatum)
  trailing : List Metadatum
  code : Nat
  message : Bytes
  deriving DecidableEq

namespace Rust

/-- `merge_metadata_into_headers`. -/
def mergeMetadataIntoHeaders (headers : HeaderMap) : HeaderMap :=
  headers.filter fun entry => !isDenied entry.1

/-- The metadata a caller reads off the response head: every header that was merged. -/
def readHead (fromBase64 : Bytes → Option Bytes) : HeaderMap → Option (List Metadatum)
  | [] => some []
  | (key, value) :: rest =>
      (if isBinKey key then (fromBase64 value).map MetaValue.bin else some (.ascii value)).bind
        fun value => (readHead fromBase64 rest).map (⟨key, some value⟩ :: ·)

/-- What `unary_proto` tells, if its body ends with a Trailer. -/
def fetchOutcome (fromBase64 : Bytes → Option Bytes) (call : Call) : Option Outcome :=
  let response := unaryProto fromBase64 call
  response.trailer.map fun t =>
    ⟨readHead fromBase64 (mergeMetadataIntoHeaders response.initial), t.trailers, t.statusCode,
      t.statusMessage⟩

end Rust

namespace Ws

def Out.header : Out → Option (List Metadatum)
  | .frame _ (.header headers) => some headers
  | _ => none

def Out.trailer : Out → Option Trailer
  | .frame _ (.trailer code message trailers) => some ⟨code, message, trailers⟩
  | _ => none

/-- What the frames of a stream tell: its first Header and its first Trailer. -/
def outcomeOf (outs : List Out) : Option Outcome :=
  (outs.findSome? Out.header).bind fun headers =>
    (outs.findSome? Out.trailer).map fun t => ⟨some headers, t.trailers, t.statusCode, t.statusMessage⟩

/-- What `run_stream` tells on a proto connection. -/
def RustServer.wsOutcome (srv : Config) (sub : Subscribe) (r : Response Bytes) : Option Outcome :=
  outcomeOf (pump srv (waiting srv sub false) (actsOf r))

end Ws

namespace Rust

/-- A header that metadata can hold: denied names aside, a decodable `-bin` value or
visible text. -/
def Legible (fromBase64 : Bytes → Option Bytes) (entry : Str × Bytes) : Prop :=
  isDenied entry.1 = false →
    (if isBinKey entry.1 then (fromBase64 entry.2).isSome else (toStr entry.2).isSome) = true

/-- The response is trailers-only: its status stands in the headers. -/
def trailersOnly (r : Response Bytes) : Bool := (HeaderMap.get r.headers "grpc-status").isSome

theorem length_readHead {fromBase64 : Bytes → Option Bytes} {headers : HeaderMap} :
    ∀ {list : List Metadatum}, readHead fromBase64 headers = some list → list.length = headers.length := by
  induction headers with
  | nil =>
      intro list read
      cases read
      rfl
  | cons entry rest ih =>
      intro list read
      simp only [readHead, Option.bind_eq_some_iff, Option.map_eq_some_iff] at read
      obtain ⟨value, _, tail, found, rfl⟩ := read
      simp only [List.length_cons, ih found]

theorem length_metadataToVec_le (fromBase64 : Bytes → Option Bytes) (headers : HeaderMap) :
    (metadataToVec fromBase64 headers).length ≤ (mergeMetadataIntoHeaders headers).length := by
  induction headers with
  | nil => exact le_rfl
  | cons entry rest ih =>
      obtain ⟨key, value⟩ := entry
      cases denied : isDenied key with
      | true => simpa [metadataToVec, mergeMetadataIntoHeaders, denied] using ih
      | false =>
          simp only [metadataToVec, mergeMetadataIntoHeaders, denied, List.filterMap_cons,
            List.filter_cons, Bool.not_false, if_true] at ih ⊢
          split
          · exact Nat.le_succ_of_le ih
          · exact Nat.succ_le_succ ih

/-- The head and the Header frame carry the same metadata exactly when every header is
legible: what is not, the frame drops and the head keeps. -/
theorem readHead_merge_iff (fromBase64 : Bytes → Option Bytes) (headers : HeaderMap) :
    readHead fromBase64 (mergeMetadataIntoHeaders headers) = some (metadataToVec fromBase64 headers) ↔
      ∀ entry ∈ headers, Legible fromBase64 entry := by
  induction headers with
  | nil => simp [mergeMetadataIntoHeaders, readHead, metadataToVec]
  | cons entry rest ih =>
      obtain ⟨key, value⟩ := entry
      rw [List.forall_mem_cons, ← ih]
      have short := length_metadataToVec_le fromBase64 rest
      cases denied : isDenied key with
      | true => simp [Legible, mergeMetadataIntoHeaders, metadataToVec, denied]
      | false =>
          have merged : mergeMetadataIntoHeaders ((key, value) :: rest) =
              (key, value) :: mergeMetadataIntoHeaders rest := by
            simp [mergeMetadataIntoHeaders, denied]
          rw [merged]
          cases bin : isBinKey key with
          | true =>
              cases raw : fromBase64 value with
              | none => simp [readHead, Legible, denied, bin, raw]
              | some raw' => simp [readHead, Legible, metadataToVec, denied, bin, raw]
          | false =>
              cases text : toStr value with
              | some s => simp [readHead, Legible, metadataToVec, denied, bin, text]
              | none =>
                  have dropped : metadataToVec fromBase64 ((key, value) :: rest) =
                      metadataToVec fromBase64 rest := by
                    simp [metadataToVec, denied, bin, text]
                  simp only [Legible, denied, bin, text, dropped, forall_const, Option.isSome_none,
                    Bool.false_eq_true, if_false, false_and, iff_false]
                  intro read
                  have long := length_readHead read
                  rw [List.length_cons] at long
                  omega

end Rust

namespace Ws.RustServer

theorem pump_cons {srv : Config} {t t' : Task} {act : Act} {acts : List Act} {queue : List Out}
    (moved : runStream srv idle t act = some (t', queue)) :
    pump srv t (act :: acts) = t'.pending ++ pump srv (sends srv t'.pending.length t').1 acts := by
  simp only [pump, moved, sends_pending srv t'.pending t' rfl]

/-- On a proto connection the read loop sends the messages of the body as they are. -/
theorem pump_data (srv : Config) (headers trailers : HeaderMap) (acts : List Act) :
    ∀ (chunks : List Bytes) (t : Task) (buf : Bytes), t.json = false → t.pending = [] →
      t.point = .reading headers trailers buf → Framing.nextFrame buf = none →
      pump srv t (chunks.map .data ++ acts) =
        ((Framing.parse (buf ++ chunks.flatten)).1.map fun m => Out.frame false (.message m.2)) ++
          pump srv
            { t with point := .reading headers trailers (Framing.parse (buf ++ chunks.flatten)).2 }
            acts := by
  intro chunks
  induction chunks with
  | nil =>
      intro t buf _ _ point left
      have whole : Framing.parse buf = ([], buf) := Scan.scan_none left
      simp only [List.map_nil, List.nil_append, List.flatten_nil, List.append_nil, whole, ← point]
  | cons chunk chunks ih =>
      intro t buf proto none point left
      have parsed : Framing.parse (buf ++ (chunk :: chunks).flatten) =
          ((Framing.parse (buf ++ chunk)).1 ++
              (Framing.parse ((Framing.parse (buf ++ chunk)).2 ++ chunks.flatten)).1,
            (Framing.parse ((Framing.parse (buf ++ chunk)).2 ++ chunks.flatten)).2) := by
        rw [List.flatten_cons, ← List.append_assoc]
        exact Framing.parse_append (buf ++ chunk) chunks.flatten
      have moved : runStream srv idle t (.data chunk) = some ({ t with
          pending := (Framing.parse (buf ++ chunk)).1.map fun m => Out.frame false (.message m.2)
          point := .reading headers trailers (Framing.parse (buf ++ chunk)).2 }, []) := by
        unfold runStream
        rw [none, point]
        dsimp only
        rw [proto, srv.encodeAll_false]
        simp only [List.map_map]
        rfl
      rw [parsed, List.map_cons, List.cons_append, pump_cons moved, sends_reading srv _ _ rfl rfl,
        List.map_append, List.append_assoc]
      congr 1
      have rest := ih { t with
        pending := []
        point := .reading headers trailers (Framing.parse (buf ++ chunk)).2 } _ proto rfl rfl
        (Framing.parse_left (buf ++ chunk))
      simpa only [none] using rest

/-- The frames of a response that ends on its own. -/
theorem pump_whole (srv : Config) (sub : Subscribe) {r : Response Bytes}
    (whole : r.ending.whole = true) :
    ∃ messages : List Bytes, pump srv (waiting srv sub false) (actsOf r) =
      .frame false (.header (Rust.metadataToVec srv.fromBase64 r.headers)) ::
        (messages.map fun m => Out.frame false (.message m)) ++
        [.frame false (.trailer (Rust.readStatus r.trailers r.headers).1
          (Rust.readStatus r.trailers r.headers).2
          (Rust.metadataToVec srv.fromBase64 r.trailers))] := by
  have opened : runStream srv idle (waiting srv sub false) (.answered (.ok r.headers)) =
      some ({ waiting srv sub false with
        pending := [.frame false (.header (Rust.metadataToVec srv.fromBase64 r.headers))]
        point := .reading r.headers [] [] }, []) := rfl
  refine ⟨r.messages, ?_⟩
  unfold actsOf
  rw [pump_cons opened, sends_reading srv _ _ rfl rfl,
    pump_data srv r.headers [] _ r.chunks _ [] rfl rfl rfl rfl]
  unfold Response.messages Response.body Response.trailers
  rw [List.nil_append, List.map_map]
  rcases Ending.whole_iff.mp whole with ending | ⟨block, ending⟩
  · rw [ending]
    rfl
  · rw [ending]
    rfl

theorem wsOutcome_eq (srv : Config) (sub : Subscribe) {r : Response Bytes}
    (whole : r.ending.whole = true) :
    wsOutcome srv sub r = some ⟨some (Rust.metadataToVec srv.fromBase64 r.headers),
      Rust.metadataToVec srv.fromBase64 r.trailers, (Rust.readStatus r.trailers r.headers).1,
      (Rust.readStatus r.trailers r.headers).2⟩ := by
  obtain ⟨messages, sent⟩ := pump_whole srv sub whole
  have quiet : (messages.map fun m => Out.frame false (.message m)).findSome? Out.trailer = none := by
    simp [Out.trailer]
  unfold wsOutcome outcomeOf
  rw [sent]
  simp only [List.cons_append, List.findSome?_cons, Out.header, Out.trailer, Option.bind_some,
    List.findSome?_append, quiet, Option.none_or, Option.map_some]

end Ws.RustServer

theorem Rust.fetchOutcome_eq (fromBase64 : Bytes → Option Bytes) {r : Response Bytes}
    (whole : r.ending.whole = true) :
    fetchOutcome fromBase64 (.answered r) =
      some ⟨readHead fromBase64 (mergeMetadataIntoHeaders (if trailersOnly r then [] else r.headers)),
        metadataToVec fromBase64 (if r.trailers = [] ∧ trailersOnly r then r.headers else r.trailers),
        (readStatus r.trailers r.headers).1, (readStatus r.trailers r.headers).2⟩ := by
  have streamed : unaryProto fromBase64 (.answered r) =
      ⟨if trailersOnly r then [] else r.headers,
        if relay 1 r.chunks = [] then [emptyMessageBlock] else relay 1 r.chunks,
        some (trailerOf fromBase64 r)⟩ := by
    rcases Ending.whole_iff.mp whole with ending | ⟨block, ending⟩
    · simp only [unaryProto, streamResponse, ending]
      rfl
    · simp only [unaryProto, streamResponse, ending]
      rfl
  unfold fetchOutcome
  rw [streamed]
  rfl

/-- The two surfaces tell the same of a response that ended on its own exactly when it
is no trailers-only response with metadata, and has no header that metadata cannot hold. -/
theorem binary_outcomes_agree_iff (srv : Ws.RustServer.Config) (sub : Ws.Subscribe)
    (r : Response Bytes) (whole : r.ending.whole = true) :
    Ws.RustServer.wsOutcome srv sub r = Rust.fetchOutcome srv.fromBase64 (.answered r) ↔
      if Rust.trailersOnly r then Rust.metadataToVec srv.fromBase64 r.headers = []
      else ∀ entry ∈ r.headers, Rust.Legible srv.fromBase64 entry := by
  rw [Ws.RustServer.wsOutcome_eq srv sub whole, Rust.fetchOutcome_eq srv.fromBase64 whole,
    Option.some.injEq, Outcome.mk.injEq]
  cases only : Rust.trailersOnly r with
  | false =>
      simp only [Bool.false_eq_true, and_false, if_false, and_true]
      rw [eq_comm]
      exact Rust.readHead_merge_iff srv.fromBase64 r.headers
  | true =>
      have head : Rust.readHead srv.fromBase64 (Rust.mergeMetadataIntoHeaders []) = some [] := rfl
      simp only [if_true, and_true, head, Option.some.injEq]
      constructor
      · exact And.left
      · intro none
        refine ⟨none, ?_⟩
        split
        · rename_i empty
          rw [empty, none]
          rfl
        · rfl

/-- An ordinary response with initial and trailing metadata. -/
def answered : Response Bytes :=
  ⟨[("x-page".toList, utf8 "3")], [[0, 0, 0, 0, 1, 7]],
    .trailers [("grpc-status".toList, utf8 "0"), ("x-left".toList, utf8 "4")]⟩

theorem answered_told_alike :
    Ws.RustServer.wsOutcome Ws.smallRust ⟨[], [], 0, []⟩ answered =
        Rust.fetchOutcome some (.answered answered) ∧
      (Ws.RustServer.wsOutcome Ws.smallRust ⟨[], [], 0, []⟩ answered).isSome = true := by
  have ordinary : Rust.trailersOnly answered = false := by decide
  have legible : ∀ entry ∈ answered.headers, Rust.Legible Ws.smallRust.fromBase64 entry := by
    intro entry inside
    cases List.mem_singleton.mp inside
    exact fun _ => by decide
  refine ⟨(binary_outcomes_agree_iff Ws.smallRust ⟨[], [], 0, []⟩ answered rfl).mpr ?_, by decide⟩
  rw [ordinary]
  exact legible

/-- NOT_FOUND with a reason, in the headers of a trailers-only response. -/
def notFound : Response Bytes :=
  ⟨[("grpc-status".toList, utf8 "5"), ("x-reason".toList, utf8 "gone")], [], .bare⟩

/-- The Frame path tells the reason as initial metadata, the Fetch path as trailing. -/
theorem trailers_only_metadata_told_apart :
    Ws.RustServer.wsOutcome Ws.smallRust ⟨[], [], 0, []⟩ notFound =
        some ⟨some [⟨"x-reason".toList, some (.ascii (utf8 "gone"))⟩], [], 5, []⟩ ∧
      Rust.fetchOutcome some (.answered notFound) =
        some ⟨some [], [⟨"x-reason".toList, some (.ascii (utf8 "gone"))⟩], 5, []⟩ ∧
      Ws.RustServer.wsOutcome Ws.smallRust ⟨[], [], 0, []⟩ notFound ≠
        Rust.fetchOutcome some (.answered notFound) := by
  refine ⟨?_, ?_, ?_⟩ <;> decide

end GrpcWebnext
