import GrpcWebnext.H2ts.Status
import GrpcWebnext.NodeClient.MetadataForm

/-! What the TypeScript client reports of an h2ts response. The records of headers and
trailers are made into metadata through the platform's `Headers`, which can throw. -/
namespace GrpcWebnext.H2ts
open Text (Str)
open MetadataForm (LowerCase Host Headers Metadata fromHeaders)

structure StatusResult (js : LowerCase) where
  code : Int
  details : Str
  metadata : Metadata js

def isControlHeader (key : Str) : Bool :=
  key = "grpc-status".toList || key = "grpc-message".toList || key = "grpc-status-details-bin".toList

section
variable (js : LowerCase) (host : Host)

/-- `metadataFromRecord`; `none` is a throw, of `append` on what is no header or of `atob`. -/
def metadataFromRecord (record : Record) : Option (Metadata js) :=
  ((record.filter fun entry => !(isControlHeader entry.1 || entry.1.head? = some ':')).foldlM
    (fun headers entry => Headers.append headers entry.1 entry.2) ⟨[]⟩).bind (fromHeaders host)

def statusFromResponse (decodeGrpcMessage : Str → Str) (r : H2Response) : Option (StatusResult js) :=
  match readStatus decodeGrpcMessage r.trailers with
  | some (code, details) => (metadataFromRecord js host r.trailers).map fun md => ⟨code, details, md⟩
  | none => match readStatus decodeGrpcMessage r.headers with
    | some (code, details) => (metadataFromRecord js host r.headers).map fun md => ⟨code, details, md⟩
    | none =>
        if r.status = 200 then some ⟨Status.ok, [], .empty⟩
        else some ⟨httpToStatus r.status, "HTTP ".toList ++ (toString r.status).toList, .empty⟩

/-- The end of `unary`: a body that fails rejects `res.bytes()`, and the call throws, as it
does for metadata that cannot be made. -/
def unaryStatus (decodeGrpcMessage : Str → Str) (r : H2Response) : Option (StatusResult js) :=
  if r.ending.whole then
    (metadataFromRecord js host r.headers).bind fun _ => statusFromResponse js host decodeGrpcMessage r
  else none

/-- What `abortOrUnknown` makes of an error. -/
def abortOrUnknown (message : Str) : StatusResult js := ⟨Status.unknown, message, .empty⟩

/-- The end of `startStream`: what is thrown, before the body or behind it, is reported by
`abortOrUnknown`, as is a body that fails. -/
def streamStatus (thrown : Str) (decodeGrpcMessage : Str → Str) (r : H2Response) : StatusResult js :=
  match metadataFromRecord js host r.headers with
  | none => abortOrUnknown js thrown
  | some _ => match r.ending with
    | .failed reason => abortOrUnknown js reason.toList
    | .expired => ⟨Status.deadlineExceeded, "deadline exceeded".toList, .empty⟩
    | _ => (statusFromResponse js host decodeGrpcMessage r).getD (abortOrUnknown js thrown)

/-- Metadata that the client asks for cannot be made: that of the headers, or that of the
trailers where they hold the status. -/
def Unconvertible (r : H2Response) : Prop :=
  metadataFromRecord js host r.headers = none ∨
    ((Record.get r.trailers "grpc-status").isSome = true ∧ metadataFromRecord js host r.trailers = none)

/-- The code of the status that is received, else that of the HTTP status. -/
def codeReceived (r : H2Response) : Int :=
  match received r with
  | some raw => codeOf raw
  | none => if r.status = 200 then Status.ok else httpToStatus r.status

end

section
variable {js : LowerCase} {host : Host}

/-- Behind headers that can be converted, only the trailers can still throw. -/
theorem statusFromResponse_cases (decodeGrpcMessage : Str → Str) {r : H2Response}
    (headers : metadataFromRecord js host r.headers ≠ none) :
    (Unconvertible js host r ∧ statusFromResponse js host decodeGrpcMessage r = none) ∨
      (¬ Unconvertible js host r ∧ ∃ result, statusFromResponse js host decodeGrpcMessage r = some result ∧
        result.code = codeReceived r) := by
  unfold Unconvertible statusFromResponse readStatus codeReceived received
  cases inTrailers : Record.get r.trailers "grpc-status" with
  | some raw =>
      cases converted : metadataFromRecord js host r.trailers with
      | none => exact .inl ⟨.inr ⟨rfl, rfl⟩, rfl⟩
      | some md => exact .inr ⟨by simp [headers], _, rfl, rfl⟩
  | none =>
      right
      refine ⟨by simp [headers], ?_⟩
      obtain ⟨md, converted⟩ := Option.ne_none_iff_exists'.mp headers
      cases inHeaders : Record.get r.headers "grpc-status" with
      | some raw => exact ⟨_, by rw [converted]; rfl, rfl⟩
      | none =>
          by_cases fine : r.status = 200
          · exact ⟨_, by simp only [Option.map_none, fine, if_true]; rfl, by simp [fine]⟩
          · exact ⟨_, by simp only [Option.map_none, fine, if_false]; rfl, by simp [fine]⟩

/-- A unary call has the code received, unless it throws. -/
theorem unaryStatus_code (decodeGrpcMessage : Str → Str) (r : H2Response) :
    ((unaryStatus js host decodeGrpcMessage r).map StatusResult.code = none ∧
        (r.ending.whole = false ∨ Unconvertible js host r)) ∨
      ((unaryStatus js host decodeGrpcMessage r).map StatusResult.code = some (codeReceived r) ∧
        ¬ (r.ending.whole = false ∨ Unconvertible js host r)) := by
  unfold unaryStatus
  cases whole : r.ending.whole with
  | false => exact .inl ⟨rfl, .inl rfl⟩
  | true =>
      rw [if_pos rfl]
      cases headers : metadataFromRecord js host r.headers with
      | none => exact .inl ⟨rfl, .inr (.inl headers)⟩
      | some md =>
          have made : metadataFromRecord js host r.headers ≠ none :=
            Option.ne_none_iff_exists'.mpr ⟨md, headers⟩
          rw [Option.bind_some]
          rcases statusFromResponse_cases decodeGrpcMessage made with ⟨unconvertible, thrown⟩ |
            ⟨fine, result, done, code⟩
          · exact .inl ⟨by rw [thrown]; rfl, .inr unconvertible⟩
          · refine .inr ⟨by rw [done, Option.map_some, code], ?_⟩
            rintro (cut | unconvertible)
            · cases cut
            · exact fine unconvertible

/-- A stream has the code received, unless something is thrown or the deadline expires. -/
theorem streamStatus_code (thrown : Str) (decodeGrpcMessage : Str → Str) (r : H2Response) :
    ((streamStatus js host thrown decodeGrpcMessage r).code ≠ 0 ∧
        (r.ending.whole = false ∨ Unconvertible js host r)) ∨
      ((streamStatus js host thrown decodeGrpcMessage r).code = codeReceived r ∧
        ¬ (r.ending.whole = false ∨ Unconvertible js host r)) := by
  have unknown : Status.unknown ≠ 0 := by decide
  have late : Status.deadlineExceeded ≠ 0 := by decide
  unfold streamStatus
  cases headers : metadataFromRecord js host r.headers with
  | none => exact .inl ⟨unknown, .inr (.inl headers)⟩
  | some md =>
      have made : metadataFromRecord js host r.headers ≠ none := Option.ne_none_iff_exists'.mpr ⟨md, headers⟩
      have answered :
        ((statusFromResponse js host decodeGrpcMessage r).getD (abortOrUnknown js thrown)).code ≠ 0 ∧
            Unconvertible js host r ∨
          ((statusFromResponse js host decodeGrpcMessage r).getD (abortOrUnknown js thrown)).code =
            codeReceived r ∧
            ¬ Unconvertible js host r := by
        rcases statusFromResponse_cases decodeGrpcMessage made with ⟨unconvertible, failed⟩ |
          ⟨fine, result, done, code⟩
        · left
          rw [failed]
          exact ⟨unknown, unconvertible⟩
        · right
          rw [done]
          exact ⟨code, fine⟩
      cases r.ending with
      | bare | trailers block => simpa [Ending.whole] using answered
      | failed reason => exact .inl ⟨unknown, .inl rfl⟩
      | expired => exact .inl ⟨late, .inl rfl⟩

end

end GrpcWebnext.H2ts
