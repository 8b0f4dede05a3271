import GrpcWebnext.FetchRequest

/-! The upload of a `+proto` Fetch request: from the block that a client writes to the frames
that the backend reads behind either edge, wherever the connection cuts the body. -/
namespace GrpcWebnext.FetchRequest
open Framing (Bytes block parse nextFrame)

/-- `encode_request_body`. -/
def Rust.encodeRequestBody (message : Bytes) : Bytes := Framing.be32 message.length ++ message

/-- `encodeFetchRequestBody`: the length as `setUint32` writes it, and the message behind. -/
def Ts.encodeFetchRequestBody (message : Bytes) : Bytes := Framing.be32 message.length ++ message

section Parts
variable {message part : Bytes}

/-- Four bytes of a block tell its length, and nothing is behind it. -/
theorem declaredBlock_part (short : message.length < 2 ^ 32) (sent : part <+: block message)
    (long : 4 ≤ part.length) :
    declaredBlock part = some (message.length, []) := by
  obtain ⟨rest, whole⟩ := sent
  obtain ⟨a, b, c, d, spelled, number⟩ := Framing.be32_eq _ short
  obtain ⟨a', b', c', d', tail, rfl⟩ := four_le long
  rw [block, spelled] at whole
  simp only [List.cons_append, List.nil_append, List.cons.injEq] at whole
  obtain ⟨rfl, rfl, rfl, rfl, behind⟩ := whole
  have fits : tail.length ≤ message.length := by
    rw [← behind, List.length_append]
    exact Nat.le_add_right _ _
  rw [declaredBlock, number, List.drop_eq_nil_of_le fits]

theorem passed_part (short : message.length < 2 ^ 32) (sent : part <+: block message) (max : Nat) :
    passed part max = if 4 ≤ part.length ∧ message.length ≤ max then some (0 :: part) else none := by
  by_cases long : 4 ≤ part.length
  · simp only [passed, declaredBlock_part short sent long, long, true_and]
    by_cases large : max < message.length
    · rw [if_pos large, if_neg (Nat.not_le.mpr large)]
    · rw [if_neg large, if_pos (Nat.not_lt.mp large)]
  · rw [if_neg fun both => long both.1, passed, declaredBlock_short (Nat.not_le.mp long)]

/-- Behind the flag, all of a block is its message; a frame that is complete stays as it is,
so that a part of one holds none. -/
theorem parse_part (short : message.length < 2 ^ 32) (sent : part <+: block message) :
    parse (0 :: part) = if part = block message then ([(0, message)], []) else ([], 0 :: part) := by
  have complete := Framing.nextFrame_frame 0 short []
  rw [List.append_nil] at complete
  split
  · rename_i whole
    subst whole
    rw [parse]
    exact (Scan.scan_some Framing.nextFrame_shrinks complete).trans
      (by rw [Scan.scan_none Framing.nextFrame_shrinks.nil])
  · rename_i cut
    refine Scan.scan_none ?_
    cases found : nextFrame (0 :: part) with
    | none => rfl
    | some item =>
        obtain ⟨rest, whole⟩ := sent
        have extended := Framing.nextFrame_extends _ _ _ rest found
        have same : 0 :: part ++ rest = Framing.frame 0 message := congrArg (0 :: ·) whole
        rw [same, complete, Option.some.injEq, Prod.mk.injEq] at extended
        have none : rest = [] := (List.append_eq_nil_iff.mp extended.2.symm).2
        rw [none, List.append_nil] at whole
        exact absurd whole cut

end Parts

/-- The answer to a body that is too large by its own prefix. -/
def tooLarge : TextResponse := ⟨413, "request message exceeds size limit"⟩

theorem Rust.readLead_status {lead : Bytes} {body : List BodyItem} {response : TextResponse}
    (h : readLead lead body = .error response) : response.status = 400 := by
  induction body generalizing lead with
  | nil => cases h
  | cons item body ih =>
      unfold readLead at h
      split at h
      · cases h
      · cases item with
        | data bytes => exact ih h
        | trailers => exact ih h
        | error reason =>
            cases h
            rfl

/-- A refusal is for the size exactly where the prefix was there. -/
theorem Rust.refused {body : List BodyItem} {max : Nat} {response : TextResponse}
    (h : frameUpstreamRequest body max = .error response) :
    response = tooLarge ↔ 4 ≤ (bodyBytes body).length := by
  have other : response.status = 400 → response ≠ tooLarge := by
    rintro status rfl
    cases status
  unfold frameUpstreamRequest at h
  cases read : readLead [] body with
  | error early =>
      rw [read] at h
      cases h
      have short := readLead_error read
      exact iff_of_false (other (readLead_status read)) (Nat.not_le.mpr short)
  | ok result =>
      obtain ⟨lead, rest⟩ := result
      rw [read] at h
      obtain ⟨whole, complete⟩ := readLead_ok read
      rw [List.nil_append] at whole
      dsimp only at h
      split at h
      · split at h
        · cases h
          refine iff_of_true rfl ?_
          rw [← whole]
          simp
        · cases h
      · rename_i few
        cases h
        have short : ¬ 4 ≤ lead.length := by
          intro long
          obtain ⟨a, b, c, d, tail, rfl⟩ := four_le long
          exact few a b c d tail rfl
        have ended : rest = [] := complete.resolve_left short
        rw [ended, bodyBytes, List.append_nil] at whole
        rw [← whole]
        exact iff_of_false (other rfl) short

theorem Go.refused {body : List BodyItem} {max : Nat} {response : TextResponse}
    (h : unaryProto body max = .error response) : response = tooLarge ↔ 4 ≤ (bodyBytes body).length := by
  have other : (⟨400, "request body missing length prefix"⟩ : TextResponse) ≠ tooLarge := by decide
  unfold unaryProto at h
  cases read : readFull 4 body with
  | none =>
      rw [read] at h
      cases h
      exact iff_of_false other (Nat.not_le.mpr (readFull_none read))
  | some result =>
      obtain ⟨lead, rest⟩ := result
      rw [read] at h
      obtain ⟨size, whole⟩ := readFull_some read
      obtain ⟨a, b, c, d, tail, rfl⟩ := four_le (Nat.le_of_eq size.symm)
      dsimp only at h
      split at h
      · cases h
        refine iff_of_true rfl ?_
        rw [← whole]
        simp
      · cases h

theorem Rust.forward_cut (body : List BodyItem) :
    (forward body).2 = none ↔ ∀ reason, .error reason ∉ body := by
  induction body with
  | nil => simp [forward]
  | cons item rest ih =>
      cases item with
      | data bytes => simpa [forward] using ih
      | trailers => simpa [forward] using ih
      | error reason => exact iff_of_false (by simp [forward]) fun absent => absent reason List.mem_cons_self

theorem Rust.readLead_errors {lead lead' : Bytes} {body rest : List BodyItem}
    (h : readLead lead body = .ok (lead', rest))
    (reason : String) : .error reason ∈ rest ↔ .error reason ∈ body := by
  induction body generalizing lead with
  | nil =>
      cases h
      rfl
  | cons item body ih =>
      unfold readLead at h
      split at h
      · cases h
        rfl
      · cases item with
        | data bytes => simpa using ih h
        | trailers => simpa using ih h
        | error early => cases h

/-- This edge tells the backend of a body that failed. -/
theorem Rust.cut_iff {body : List BodyItem} {max : Nat} {up : UpstreamBody}
    (h : frameUpstreamRequest body max = .ok up) :
    up.cut = none ↔ ∀ reason, .error reason ∉ body := by
  unfold frameUpstreamRequest at h
  cases read : readLead [] body with
  | error early =>
      rw [read] at h
      cases h
  | ok result =>
      obtain ⟨lead, rest⟩ := result
      rw [read] at h
      dsimp only at h
      split at h
      · split at h
        · cases h
        · cases h
          rw [forward_cut]
          exact forall_congr' fun reason => not_congr (readLead_errors read reason)
      · cases h

/-- What an edge makes of a part of the block of a message: it answers or hands on, and the
backend finds in what it is handed the message or nothing complete. -/
structure Uploads (result : Except TextResponse Bytes) (message part : Bytes) (max : Nat) : Prop where
  accepted : (∃ bytes, result = .ok bytes) ↔ 4 ≤ part.length ∧ message.length ≤ max
  large : result = .error tooLarge ↔ 4 ≤ part.length ∧ max < message.length
  whole : ∀ bytes, result = .ok bytes → part = block message → parse bytes = ([(0, message)], [])
  cut : ∀ bytes, result = .ok bytes → part ≠ block message → parse bytes = ([], 0 :: part)

theorem uploads {result : Except TextResponse Bytes} {message part : Bytes} {max : Nat}
    (short : message.length < 2 ^ 32) (sent : part <+: block message)
    (handed : result.toOption = passed part max)
    (refused : ∀ response, result = .error response → (response = tooLarge ↔ 4 ≤ part.length)) :
    Uploads result message part max := by
  rw [passed_part short sent] at handed
  cases result with
  | error response =>
      have denied : ¬ (4 ≤ part.length ∧ message.length ≤ max) := by
        intro both
        rw [if_pos both] at handed
        cases handed
      have reason := refused response rfl
      refine ⟨iff_of_false (by rintro ⟨_, ⟨⟩⟩) denied, ?_, by rintro _ ⟨⟩, by rintro _ ⟨⟩⟩
      rw [Except.error.injEq, reason]
      exact ⟨fun long => ⟨long, Nat.lt_of_not_le fun fits => denied ⟨long, fits⟩⟩, And.left⟩
  | ok bytes =>
      have granted : 4 ≤ part.length ∧ message.length ≤ max := by
        by_contra denied
        rw [if_neg denied] at handed
        cases handed
      rw [if_pos granted] at handed
      obtain rfl : bytes = 0 :: part := Option.some.inj handed
      refine ⟨iff_of_true ⟨_, rfl⟩ granted, iff_of_false (by rintro ⟨⟩) fun both => ?_, ?_, ?_⟩
      · exact Nat.not_lt.mpr granted.2 both.2
      · rintro _ ⟨⟩ complete
        rw [parse_part short sent, if_pos complete]
      · rintro _ ⟨⟩ cut
        rw [parse_part short sent, if_neg cut]

theorem toOption_map {ε α β : Type} (f : α → β) (result : Except ε α) :
    (result.map f).toOption = result.toOption.map f := by
  cases result <;> rfl

theorem map_error {ε α β : Type} {f : α → β} {result : Except ε α} {e : ε}
    (failed : result.map f = .error e) :
    result = .error e := by
  cases result with
  | error e' => cases failed; rfl
  | ok value => cases failed

/-- A cut upload is never taken for a message. Whatever the chunks, and however the body of a
request ends, the backend behind either edge finds the caller's message, where all of it came
and it is within the limit, or nothing complete. The Rust edge tells it of a body that failed. -/
theorem upload_whole_or_nothing {message : Bytes} (short : message.length < 2 ^ 32) {body : List BodyItem}
    (sent : bodyBytes body <+: Ts.encodeFetchRequestBody message) (max : Nat) (configured : Int) :
    Rust.encodeRequestBody message = Ts.encodeFetchRequestBody message ∧
      Uploads ((Rust.frameUpstreamRequest body max).map UpstreamBody.bytes) message (bodyBytes body) max ∧
      (∀ up, Rust.frameUpstreamRequest body max = .ok up → (up.cut = none ↔ ∀ reason, .error reason ∉ body)) ∧
      Uploads ((Go.unaryProto body (Go.maxMessageBytes configured)).map List.flatten) message (bodyBytes body)
        (Go.maxMessageBytes configured) := by
  refine ⟨rfl, ?_, fun _ => Rust.cut_iff, ?_⟩
  · refine uploads short sent ?_ fun _ failed => Rust.refused (map_error failed)
    rw [toOption_map]
    exact Rust.handed_eq body max
  · refine uploads short sent ?_ fun _ failed => Go.refused (map_error failed)
    rw [toOption_map]
    exact Go.handed_eq body (Go.maxMessageBytes configured)

/-- A body that fails in the middle of its message. -/
def interrupted : List BodyItem := [.data [0, 0], .data [0, 3, 7], .error "reset"]

theorem upload_whole_or_nothing_interrupted :
    (∃ bytes, (Go.unaryProto interrupted (Go.maxMessageBytes 0)).map List.flatten = .ok bytes ∧
        parse bytes = ([], [0, 0, 0, 0, 3, 7])) ∧
      ∃ up, Rust.frameUpstreamRequest interrupted 3 = .ok up ∧ up.cut ≠ none := by
  have sent : bodyBytes interrupted <+: Ts.encodeFetchRequestBody [7, 8, 9] := by decide
  obtain ⟨_, handed, told, edge⟩ := @upload_whole_or_nothing [7, 8, 9] (by decide) interrupted sent 3 0
  constructor
  · obtain ⟨bytes, accepted⟩ := edge.accepted.mpr ⟨by decide, by decide⟩
    exact ⟨bytes, accepted, edge.cut bytes accepted (by decide)⟩
  · have failed : .error "reset" ∈ interrupted := by decide
    obtain ⟨bytes, mapped⟩ := handed.accepted.mpr ⟨by decide, by decide⟩
    cases accepted : Rust.frameUpstreamRequest interrupted 3 with
    | error response =>
        rw [accepted] at mapped
        cases mapped
    | ok up => exact ⟨up, rfl, fun whole => (told up accepted).mp whole _ failed⟩

end GrpcWebnext.FetchRequest
