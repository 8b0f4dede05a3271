import GrpcWebnext.Library.Framing

/-! The request side of `+proto` Fetch. The inbound body is one `[u32 len | message]`
block; the edge checks the declared length once and streams a gRPC request body
made of the compression flag and everything the client sent. -/
namespace GrpcWebnext.FetchRequest
open Framing

/-- One frame of the inbound body, as `body.frame()` or `Body.Read` delivers it.
The end of the list is the end of the body. -/
inductive BodyItem where
  | data (bytes : Bytes)
  | trailers
  | error (reason : String)
  deriving DecidableEq, Repr

structure TextResponse where
  status : Nat
  message : String
  deriving DecidableEq, Repr

/-- The streamed request body: its data frames, and the error that ends it early. -/
structure UpstreamBody where
  chunks : List Bytes
  cut : Option String
  deriving DecidableEq, Repr

def UpstreamBody.bytes (body : UpstreamBody) : Bytes := body.chunks.flatten

/-- The bytes a body delivers before it ends or fails. -/
def bodyBytes : List BodyItem → Bytes
  | [] => []
  | .data bytes :: rest => bytes ++ bodyBytes rest
  | .trailers :: rest => bodyBytes rest
  | .error _ :: _ => []

/-- The declared length of the leading block, and the bytes behind that block. -/
def declaredBlock : Bytes → Option (Nat × Bytes)
  | a :: b :: c :: d :: rest => some (ofBe32 a b c d, rest.drop (ofBe32 a b c d))
  | _ => none

namespace Rust

/-- The loop that gathers the length prefix: whole frames until four bytes are there. -/
def readLead : Bytes → List BodyItem → Except TextResponse (Bytes × List BodyItem)
  | lead, [] => .ok (lead, [])
  | lead, item :: rest =>
      if 4 ≤ lead.length then .ok (lead, item :: rest)
      else match item with
        | .data bytes => readLead (lead ++ bytes) rest
        | .trailers => readLead lead rest
        | .error reason => .error ⟨400, "read body: " ++ reason⟩

/-- The tail of the stream: every further data frame, verbatim. -/
def forward : List BodyItem → List Bytes × Option String
  | [] => ([], none)
  | .data bytes :: rest => (bytes :: (forward rest).1, (forward rest).2)
  | .trailers :: rest => forward rest
  | .error reason :: _ => ([], some ("read body: " ++ reason))

def frameUpstreamRequest (body : List BodyItem) (max : Nat) : Except TextResponse UpstreamBody :=
  match readLead [] body with
  | .error response => .error response
  | .ok (lead, rest) => match lead with
    | a :: b :: c :: d :: _ =>
        if max < ofBe32 a b c d then .error ⟨413, "request message exceeds size limit"⟩
        else .ok ⟨[0] :: lead :: (forward rest).1, (forward rest).2⟩
    | _ => .error ⟨400, "request body missing length prefix"⟩

/-- What reaches the backend, if the request is accepted. -/
def handed (body : List BodyItem) (max : Nat) : Option Bytes :=
  (frameUpstreamRequest body max).toOption.map UpstreamBody.bytes

end Rust

namespace Go

/-- `ServerConfig.maxMessageBytes`: an unset limit means 4 MiB. -/
def maxMessageBytes (configured : Int) : Nat :=
  if configured ≤ 0 then 4 * 1024 * 1024 else configured.toNat

/-- `io.ReadFull` of `n` bytes; what a chunk holds beyond them stays unread. -/
def readFull : Nat → List BodyItem → Option (Bytes × List BodyItem)
  | n, [] => if n = 0 then some ([], []) else none
  | n, .data bytes :: rest =>
      if n ≤ bytes.length then some (bytes.take n, .data (bytes.drop n) :: rest)
      else (readFull (n - bytes.length) rest).map fun (more, left) => (bytes ++ more, left)
  | n, .trailers :: rest => if n = 0 then some ([], rest) else readFull n rest
  | n, .error reason :: rest => if n = 0 then some ([], .error reason :: rest) else none

/-- `io.Copy` into the request pipe, which a read error ends. -/
def copy : List BodyItem → List Bytes
  | [] => []
  | .data bytes :: rest => bytes :: copy rest
  | .trailers :: rest => copy rest
  | .error _ :: _ => []

/-- What is written to the request pipe before its half-close. Whether the context of the
request has ended by then is left to the HTTP server. -/
def unaryProto (body : List BodyItem) (max : Nat) : Except TextResponse (List Bytes) :=
  match readFull 4 body with
  | some (lead, rest) => match lead with
    | a :: b :: c :: d :: _ =>
        if max < ofBe32 a b c d then .error ⟨413, "request message exceeds size limit"⟩
        else .ok ([0] :: lead :: copy rest)
    | _ => .error ⟨400, "request body missing length prefix"⟩
  | none => .error ⟨400, "request body missing length prefix"⟩

def handed (body : List BodyItem) (max : Nat) : Option Bytes :=
  (unaryProto body max).toOption.map List.flatten

end Go

/-- Both edges hand on the flag and the whole body, once the first prefix is in bounds. -/
def passed (bytes : Bytes) (max : Nat) : Option Bytes :=
  match declaredBlock bytes with
  | some (n, _) => if max < n then none else some (0 :: bytes)
  | none => none

namespace Rust

theorem readLead_ok {lead lead' : Bytes} {body rest : List BodyItem}
    (h : readLead lead body = .ok (lead', rest)) :
    lead' ++ bodyBytes rest = lead ++ bodyBytes body ∧ (4 ≤ lead'.length ∨ rest = []) := by
  induction body generalizing lead with
  | nil =>
      simp only [readLead, Except.ok.injEq, Prod.mk.injEq] at h
      obtain ⟨rfl, rfl⟩ := h
      exact ⟨rfl, .inr rfl⟩
  | cons item body ih =>
      simp only [readLead] at h
      split at h
      · simp only [Except.ok.injEq, Prod.mk.injEq] at h
        obtain ⟨rfl, rfl⟩ := h
        exact ⟨rfl, .inl ‹_›⟩
      · cases item with
        | data bytes => simpa only [bodyBytes, List.append_assoc] using ih h
        | trailers => simpa only [bodyBytes] using ih h
        | error reason => simp only [reduceCtorEq] at h

theorem readLead_error {lead : Bytes} {body : List BodyItem} {response : TextResponse}
    (h : readLead lead body = .error response) : (lead ++ bodyBytes body).length < 4 := by
  induction body generalizing lead with
  | nil => simp only [readLead, reduceCtorEq] at h
  | cons item body ih =>
      simp only [readLead] at h
      split at h
      · simp only [reduceCtorEq] at h
      · cases item with
        | data bytes => simpa only [bodyBytes, List.append_assoc] using ih h
        | trailers => simpa only [bodyBytes] using ih h
        | error reason =>
            simp only [bodyBytes, List.append_nil]
            omega

theorem forward_bytes (body : List BodyItem) : (forward body).1.flatten = bodyBytes body := by
  induction body with
  | nil => rfl
  | cons item body ih =>
      cases item with
      | data bytes => simp only [forward, bodyBytes, List.flatten_cons, ih]
      | trailers => exact ih
      | error reason => rfl

end Rust

theorem declaredBlock_short {bytes : Bytes} (short : bytes.length < 4) :
    declaredBlock bytes = none := by
  unfold declaredBlock
  split
  · simp only [List.length_cons] at short
    omega
  · rfl

theorem passed_append (a b c d : UInt8) (lead rest : Bytes) (max : Nat) :
    passed (a :: b :: c :: d :: lead ++ rest) max =
      if max < ofBe32 a b c d then none else some (0 :: a :: b :: c :: d :: lead ++ rest) := by
  simp only [passed, declaredBlock, List.cons_append]

/-- A list of at least four bytes, taken apart as the prefix is read. -/
theorem four_le {bytes : Bytes} (long : 4 ≤ bytes.length) :
    ∃ a b c d rest, bytes = a :: b :: c :: d :: rest := by
  match bytes, long with
  | a :: b :: c :: d :: rest, _ => exact ⟨a, b, c, d, rest, rfl⟩

namespace Rust

theorem handed_eq (body : List BodyItem) (max : Nat) :
    handed body max = passed (bodyBytes body) max := by
  unfold handed frameUpstreamRequest
  cases h : readLead [] body with
  | error response =>
      have short := readLead_error h
      simp only [List.nil_append] at short
      simp only [passed, declaredBlock_short short, Except.toOption, Option.map_none]
  | ok result =>
      obtain ⟨lead, rest⟩ := result
      obtain ⟨whole, complete⟩ := readLead_ok h
      simp only [List.nil_append] at whole
      by_cases long : 4 ≤ lead.length
      · obtain ⟨a, b, c, d, lead, rfl⟩ := four_le long
        rw [← whole, passed_append]
        simp only
        split
        · rfl
        · simp only [Except.toOption, Option.map_some, UpstreamBody.bytes, List.flatten_cons,
            forward_bytes, List.cons_append, List.nil_append]
      · have empty : rest = [] := complete.resolve_left long
        subst empty
        simp only [bodyBytes, List.append_nil] at whole
        have none : declaredBlock lead = none := declaredBlock_short (by omega)
        rw [← whole, passed, none]
        match lead, long with
        | [], _ | [_], _ | [_, _], _ | [_, _, _], _ => rfl

end Rust

namespace Go

theorem readFull_some {n : Nat} {body rest : List BodyItem} {lead : Bytes}
    (h : readFull n body = some (lead, rest)) :
    lead.length = n ∧ lead ++ bodyBytes rest = bodyBytes body := by
  induction body generalizing n lead with
  | nil =>
      simp only [readFull, Option.ite_none_right_eq_some, Option.some.injEq, Prod.mk.injEq] at h
      obtain ⟨rfl, rfl, rfl⟩ := h
      exact ⟨rfl, rfl⟩
  | cons item body ih =>
      cases item with
      | data bytes =>
          simp only [readFull] at h
          split at h
          · simp only [Option.some.injEq, Prod.mk.injEq] at h
            obtain ⟨rfl, rfl⟩ := h
            refine ⟨by simp only [List.length_take]; omega, ?_⟩
            simp only [bodyBytes, ← List.append_assoc, List.take_append_drop]
          · obtain ⟨⟨more, left⟩, inner, same⟩ := Option.map_eq_some_iff.mp h
            simp only [Prod.mk.injEq] at same
            obtain ⟨rfl, rfl⟩ := same
            obtain ⟨size, whole⟩ := ih inner
            refine ⟨by simp only [List.length_append]; omega, ?_⟩
            simp only [bodyBytes, List.append_assoc, whole]
      | trailers =>
          simp only [readFull] at h
          split at h
          · simp only [Option.some.injEq, Prod.mk.injEq] at h
            obtain ⟨rfl, rfl⟩ := h
            exact ⟨by simpa using Eq.symm ‹n = 0›, rfl⟩
          · exact ih h
      | error reason =>
          simp only [readFull, Option.ite_none_right_eq_some, Option.some.injEq,
            Prod.mk.injEq] at h
          obtain ⟨rfl, rfl, rfl⟩ := h
          exact ⟨rfl, rfl⟩

theorem readFull_none {n : Nat} {body : List BodyItem} (h : readFull n body = none) :
    (bodyBytes body).length < n := by
  induction body generalizing n with
  | nil =>
      simp only [readFull, ite_eq_right_iff, reduceCtorEq, imp_false] at h
      exact Nat.pos_of_ne_zero h
  | cons item body ih =>
      cases item with
      | data bytes =>
          simp only [readFull] at h
          split at h
          · simp only [reduceCtorEq] at h
          · have inner := ih (Option.map_eq_none_iff.mp h)
            simp only [bodyBytes, List.length_append]
            omega
      | trailers =>
          simp only [readFull] at h
          split at h
          · simp only [reduceCtorEq] at h
          · exact ih h
      | error reason =>
          simp only [readFull, ite_eq_right_iff, reduceCtorEq, imp_false] at h
          exact Nat.pos_of_ne_zero h

theorem copy_bytes (body : List BodyItem) : (copy body).flatten = bodyBytes body := by
  induction body with
  | nil => rfl
  | cons item body ih =>
      cases item with
      | data bytes => simp only [copy, bodyBytes, List.flatten_cons, ih]
      | trailers => exact ih
      | error reason => rfl

theorem handed_eq (body : List BodyItem) (max : Nat) :
    handed body max = passed (bodyBytes body) max := by
  unfold handed unaryProto
  cases h : readFull 4 body with
  | none =>
      have short := readFull_none h
      simp only [passed, declaredBlock_short short, Except.toOption, Option.map_none]
  | some result =>
      obtain ⟨lead, rest⟩ := result
      obtain ⟨size, whole⟩ := readFull_some h
      obtain ⟨a, b, c, d, lead, rfl⟩ := four_le (Nat.le_of_eq size.symm)
      rw [← whole, passed_append]
      simp only
      split
      · rfl
      · simp only [Except.toOption, Option.map_some, List.flatten_cons,
          copy_bytes, List.cons_append, List.nil_append]

end Go

/-- Every frame the backend's parser finds in what it is handed is within the limit. -/
def LimitCovers (handed : Option Bytes) (max : Nat) : Prop :=
  ∀ bytes, handed = some bytes → ∀ n ∈ declaredLengths bytes, n ≤ max

/-- An acceptable first block is followed by nothing that declares more than the limit. -/
def TailWithin (bytes : Bytes) (max : Nat) : Prop :=
  ∀ n behind, declaredBlock bytes = some (n, behind) → n ≤ max →
    ∀ k ∈ declaredLengths behind, k ≤ max

/-- The flag turns the leading block into the first frame; the parser goes on behind it. -/
theorem declaredLengths_flag {bytes behind : Bytes} {n : Nat}
    (block : declaredBlock bytes = some (n, behind)) :
    declaredLengths (0 :: bytes) = n :: declaredLengths behind := by
  unfold declaredBlock at block
  split at block
  · simp only [Option.some.injEq, Prod.mk.injEq] at block
    obtain ⟨rfl, rfl⟩ := block
    exact declaredLengths_cons _ _ _ _ _ _
  · simp only [reduceCtorEq] at block

theorem passed_covers_iff (bytes : Bytes) (max : Nat) :
    LimitCovers (passed bytes max) max ↔ TailWithin bytes max := by
  unfold passed
  cases block : declaredBlock bytes with
  | none => simp [LimitCovers, TailWithin, block]
  | some item =>
      obtain ⟨n, behind⟩ := item
      have lengths := declaredLengths_flag block
      by_cases exceeds : max < n
      · have outside : ¬ n ≤ max := by omega
        simp [LimitCovers, TailWithin, block, exceeds, outside]
      · have inside : n ≤ max := by omega
        simp [LimitCovers, TailWithin, block, exceeds, lengths, inside]

/-- The limit covers every message of a `+proto` Fetch request exactly when the
bytes behind the first declared block hold no larger frame. -/
theorem fetch_limit_iff_tail_within (body : List BodyItem) (max : Nat) (configured : Int) :
    (LimitCovers (Rust.handed body max) max ↔ TailWithin (bodyBytes body) max) ∧
      (LimitCovers (Go.handed body (Go.maxMessageBytes configured)) (Go.maxMessageBytes configured) ↔
        TailWithin (bodyBytes body) (Go.maxMessageBytes configured)) := by
  rw [Rust.handed_eq, Go.handed_eq]
  exact ⟨passed_covers_iff _ _, passed_covers_iff _ _⟩

/-- An empty first block, then a frame header that declares 4 GiB - 1. -/
def smuggled : List BodyItem := [.data [0, 0, 0, 0], .data [0, 255, 255, 255, 255]]

theorem fetch_limit_bypassed :
    ¬ LimitCovers (Rust.handed smuggled (4 * 1024 * 1024)) (4 * 1024 * 1024) ∧
      ¬ LimitCovers (Go.handed smuggled (Go.maxMessageBytes 0)) (Go.maxMessageBytes 0) := by
  have rust : Rust.handed smuggled (4 * 1024 * 1024) =
      some [0, 0, 0, 0, 0, 0, 255, 255, 255, 255] := by decide
  have go : Go.handed smuggled (Go.maxMessageBytes 0) =
      some [0, 0, 0, 0, 0, 0, 255, 255, 255, 255] := by decide
  have found : 4294967295 ∈ declaredLengths [0, 0, 0, 0, 0, 0, 255, 255, 255, 255] := by decide
  constructor
  · intro covers
    exact absurd (covers _ rust _ found) (by decide)
  · intro covers
    exact absurd (covers _ go _ found) (by decide)

end GrpcWebnext.FetchRequest
