import GrpcWebnext.Ws.GoCodec
import GrpcWebnext.Ws.OneCall
import GrpcWebnext.Ws.RustCodec

/-! Requests on a proto connection of the main path: the backend is sent the payloads of
the frames in their order, each once, up to the frame that closes the stream. -/
namespace GrpcWebnext.Ws
open Framing (Bytes)
open Text (Str)

/-- The payloads of the Message frames up to the first frame that closes the stream. -/
def collect (limit : Nat) : List Kind → List Bytes
  | [] => []
  | kind :: rest =>
      if closes limit kind then []
      else match kind with
        | .message payload => payload :: collect limit rest
        | _ => collect limit rest

section Collect
variable {limit : Nat} {l : List Kind}

theorem collect_open (opened : ∀ kind ∈ l, closes limit kind = false) (m : List Kind) :
    collect limit (l ++ m) = collect limit l ++ collect limit m := by
  induction l with
  | nil => rfl
  | cons kind rest ih =>
      obtain ⟨going, opened⟩ := List.forall_mem_cons.mp opened
      have ih := ih opened
      simp only [List.cons_append, collect, going, Bool.false_eq_true, if_false]
      cases kind <;> simp only [ih, List.cons_append]

theorem collect_shut (shut : ∃ kind ∈ l, closes limit kind = true) (m : List Kind) :
    collect limit (l ++ m) = collect limit l := by
  induction l with
  | nil =>
      obtain ⟨kind, inside, _⟩ := shut
      cases inside
  | cons kind rest ih =>
      cases going : closes limit kind with
      | true => simp only [List.cons_append, collect, going, if_true]
      | false =>
          have ih := ih (by simpa [going] using shut)
          simp only [List.cons_append, collect, going, Bool.false_eq_true, if_false]
          cases kind <;> simp only [ih]

/-- A frame that carries no request and closes nothing. -/
theorem collect_quiet {kind : Kind} (quiet : collect limit [kind] = []) :
    collect limit (l ++ [kind]) = collect limit l := by
  by_cases shut : ∃ kind ∈ l, closes limit kind = true
  · exact collect_shut shut _
  · rw [collect_open (by simpa using shut), quiet, List.append_nil]

end Collect

/-- Where the requests of the only stream stand after the frames `l`: what it started
with and what they carried is pulled, queued or held, and no more once it is closed. -/
structure Flowing (limit : Nat) (first : List Bytes) (l : List Kind) (s : Intake) (c : Chan) : Prop where
  only : s.chans = [c]
  slot : s.slot = none ∨ s.slot = some 0
  proto : c.json = false
  same : c.delivered = c.pulled
  whole : c.live = true → c.pulled ++ c.requests ++ s.held.toList = first ++ collect limit l
  part : c.pulled <+: first ++ collect limit l
  gate : (s.slot = some 0 ∧ c.fed = true ∧ s.barred = false ∧ c.aborted = false ∧
      ∀ kind ∈ l, closes limit kind = false) ∨
    (s.held = none ∧ (s.reading = false ∨
      ((∃ kind ∈ l, closes limit kind = true) ∧ (s.slot = none ∨ c.fed = false ∨ s.barred = true))))

namespace Flowing
open Intake (abort_slot abort_held abort_reading)
variable {route : Route} {first : List Bytes} {l : List Kind} {s s' : Intake} {c : Chan}

theorem current (inv : Flowing route.maxMessageBytes first l s c) (slot : s.slot = some 0) :
    s.current = some c := by
  simp [Intake.current, slot, inv.only]

/-- The channel that is found is the only one. -/
theorem found {i : Nat} {d : Chan} (inv : Flowing route.maxMessageBytes first l s c)
    (found : s.chans[i]? = some d) : i = 0 ∧ d = c := by
  rw [inv.only] at found
  cases i with
  | zero => exact ⟨rfl, by simpa using found.symm⟩
  | succ i => simp at found

theorem set_only (inv : Flowing route.maxMessageBytes first l s c) (d : Chan) : s.chans.set 0 d = [d] := by
  rw [inv.only]
  rfl

/-- A stream that is ready for frames and not closed is fed by them. -/
theorem gate_open (inv : Flowing route.maxMessageBytes first l s c) (ready : s.Ready)
    (slot : s.slot = some 0) (fed : c.fed = true) :
    ∀ kind ∈ l, closes route.maxMessageBytes kind = false := by
  rcases inv.gate with opened | ⟨_, ended | ⟨_, empty | shut | barred⟩⟩
  · exact opened.2.2.2.2
  · simp [ready.reading] at ended
  · simp [slot] at empty
  · simp [fed] at shut
  · simp [ready.barred] at barred

/-- And one that is not fed by them has been closed. -/
theorem gate_shut (inv : Flowing route.maxMessageBytes first l s c) (ready : s.Ready)
    (deaf : s.slot = none ∨ c.fed = false) : ∃ kind ∈ l, closes route.maxMessageBytes kind = true := by
  rcases inv.gate with ⟨slot, fed, _⟩ | ⟨_, gone | ⟨shut, _⟩⟩
  · rcases deaf with empty | closed
    · simp [slot] at empty
    · simp [fed] at closed
  · simp [ready.reading] at gone
  · exact shut

/-- The requests after a closing frame are those before it. -/
theorem collect_closing {kind : Kind} (cause : closes route.maxMessageBytes kind = true) :
    collect route.maxMessageBytes (l ++ [kind]) = collect route.maxMessageBytes l ∧
      ∃ k ∈ l ++ [kind], closes route.maxMessageBytes k = true := by
  refine ⟨collect_quiet ?_, kind, by simp, cause⟩
  simp [collect, cause]

/-- The stream as `abort` leaves it: its messages stand where they stood. -/
theorem abort_chans (inv : Flowing route.maxMessageBytes first l s c) (keeps : Bool) :
    ∃ d, (s.abort keeps).chans = [d] ∧ d.json = c.json ∧ d.live = c.live ∧
      d.requests = c.requests ∧ d.pulled = c.pulled ∧ d.delivered = c.delivered := by
  unfold Intake.abort
  rcases inv.slot with empty | slot
  · exact ⟨c, by simp only [empty, inv.only], rfl, rfl, rfl, rfl, rfl⟩
  · simp only [slot, inv.only]
    exact ⟨_, rfl, rfl, rfl, rfl, rfl, rfl⟩

/-- A read loop that holds nothing stops feeding the stream. -/
theorem close {l' : List Kind} {d : Chan} (inv : Flowing route.maxMessageBytes first l s c)
    (only : s'.chans = [d])
    (kept : d.json = c.json ∧ d.live = c.live ∧ d.requests = c.requests ∧ d.pulled = c.pulled ∧
      d.delivered = c.delivered)
    (slot : s'.slot = none ∨ s'.slot = some 0) (idle : s.held = none) (idle' : s'.held = none)
    (same : collect route.maxMessageBytes l' = collect route.maxMessageBytes l)
    (shut : s'.reading = false ∨ ((∃ kind ∈ l', closes route.maxMessageBytes kind = true) ∧
      (s'.slot = none ∨ d.fed = false ∨ s'.barred = true))) :
    Flowing route.maxMessageBytes first l' s' d := by
  obtain ⟨json, live, requests, pulled, delivered⟩ := kept
  refine ⟨only, slot, json.trans inv.proto, ?_, ?_, ?_, .inr ⟨idle', shut⟩⟩
  · rw [delivered, pulled, inv.same]
  · intro alive
    have whole := inv.whole (live ▸ alive)
    rw [same, pulled, requests, idle']
    rwa [idle] at whole
  · rw [same, pulled]
    exact inv.part

/-- The stream behind a frame it does not hear. -/
theorem ignore {kind : Kind} (inv : Flowing route.maxMessageBytes first l s c) (ready : s.Ready)
    (deaf : s.Deaf route kind) : Flowing route.maxMessageBytes first (l ++ [kind]) s c := by
  have quiet : collect route.maxMessageBytes [kind] = [] → closes route.maxMessageBytes kind = false →
      Flowing route.maxMessageBytes first (l ++ [kind]) s c := by
    intro carries going
    have same : collect route.maxMessageBytes (l ++ [kind]) = collect route.maxMessageBytes l :=
      collect_quiet carries
    refine ⟨inv.only, inv.slot, inv.proto, inv.same, same ▸ inv.whole, same ▸ inv.part, ?_⟩
    rcases inv.gate with ⟨slot, fed, barred, aborted, opened⟩ | ⟨idle, gone | ⟨⟨k, inside, shut⟩, why⟩⟩
    · refine .inl ⟨slot, fed, barred, aborted, ?_⟩
      simpa [or_imp, forall_and, going] using opened
    · exact .inr ⟨idle, .inl gone⟩
    · exact .inr ⟨idle, .inr ⟨⟨k, List.mem_append_left _ inside, shut⟩, why⟩⟩
  have late : s.slot = none ∨ c.fed = false → Flowing route.maxMessageBytes first (l ++ [kind]) s c := by
    intro unfed
    obtain ⟨k, inside, shut⟩ := inv.gate_shut ready unfed
    refine inv.close inv.only ⟨rfl, rfl, rfl, rfl, rfl⟩ inv.slot ready.held ready.held
      (collect_shut ⟨k, inside, shut⟩ _) (.inr ⟨⟨k, List.mem_append_left _ inside, shut⟩, ?_⟩)
    rcases unfed with empty | unfed
    · exact .inl empty
    · exact .inr (.inl unfed)
  cases kind with
  | message payload =>
      rcases inv.slot with empty | slot
      · exact late (.inl empty)
      · exact late (.inr (deaf.2 c (inv.current slot)))
  | halfClose =>
      rcases inv.slot with empty | slot
      · exact late (.inl empty)
      · have current := inv.current slot
        rw [show s.current = none from deaf] at current
        cases current
  | reset code message => exact deaf.elim
  | subscribe sub => exact quiet rfl rfl
  | trailer code message trailers => exact quiet rfl rfl
  | header headers => exact quiet rfl rfl

/-- A Message frame that the open stream hears is held for it. -/
theorem take {payload : Bytes} (inv : Flowing route.maxMessageBytes first l s c) (ready : s.Ready)
    (slot : s.slot = some 0) (fed : c.fed = true) (small : payload.length ≤ route.maxMessageBytes) :
    Flowing route.maxMessageBytes first (l ++ [.message payload]) { s with held := some payload } c := by
  have opened := inv.gate_open ready slot fed
  have going : closes route.maxMessageBytes (.message payload) = false := by
    simpa [closes] using small
  have more : collect route.maxMessageBytes (l ++ [.message payload]) =
      collect route.maxMessageBytes l ++ [payload] := by
    rw [collect_open opened]
    simp [collect, going]
  have unaborted : c.aborted = false := by
    rcases inv.gate with ⟨_, _, _, aborted, _⟩ | ⟨_, gone | ⟨⟨k, inside, shut⟩, _⟩⟩
    · exact aborted
    · simp [ready.reading] at gone
    · simp [opened k inside] at shut
  refine ⟨inv.only, inv.slot, inv.proto, inv.same, fun live => ?_, ?_, ?_⟩
  · have whole := inv.whole live
    simp only [ready.held, Option.toList_none, List.append_nil] at whole
    simp only [Option.toList_some]
    rw [more, whole, List.append_assoc]
  · rw [more, ← List.append_assoc]
    exact inv.part.trans (List.prefix_append _ _)
  · refine .inl ⟨slot, fed, ready.barred, unaborted, ?_⟩
    simpa [or_imp, forall_and, going] using opened

/-- The held payload moves into the channel. -/
theorem give {payload : Bytes} (inv : Flowing route.maxMessageBytes first l s c)
    (held : s.held = some payload) :
    Flowing route.maxMessageBytes first l
      { s with held := none, chans := s.chans.set 0 { c with requests := c.requests ++ [payload] } }
      { c with requests := c.requests ++ [payload] } := by
  refine ⟨inv.set_only _, inv.slot, inv.proto, inv.same, fun live => ?_, inv.part, ?_⟩
  · have whole := inv.whole live
    rw [held, Option.toList_some] at whole
    simpa using whole
  · rcases inv.gate with opened | ⟨idle, _⟩
    · exact .inl opened
    · simp [held] at idle

/-- Or it is lost with a stream that no longer hears. -/
theorem lose (inv : Flowing route.maxMessageBytes first l s c)
    (deaf : ∀ d ∈ s.current, d.live = false ∨ d.aborted = true) :
    Flowing route.maxMessageBytes first l { s with held := none } c := by
  refine ⟨inv.only, inv.slot, inv.proto, inv.same, fun live => ?_, inv.part, ?_⟩
  · rcases inv.gate with ⟨slot, _, _, unaborted, _⟩ | ⟨idle, _⟩
    · rcases deaf c (inv.current slot) with dead | aborted
      · simp [live] at dead
      · simp [unaborted] at aborted
    · have whole := inv.whole live
      rw [idle] at whole
      simpa using whole
  · rcases inv.gate with opened | ⟨_, shut⟩
    · exact .inl opened
    · exact .inr ⟨rfl, shut⟩

/-- The backend is given the payload at the head of the channel. -/
theorem pull {payload : Bytes} {rest : List Bytes} (inv : Flowing route.maxMessageBytes first l s c)
    (live : c.live = true)
    (waiting : c.requests = payload :: rest) {d : Chan}
    (turned : d = { c with requests := rest, pulled := c.pulled ++ [payload],
                           delivered := c.delivered ++ [payload] }) :
    Flowing route.maxMessageBytes first l { s with chans := s.chans.set 0 d } d := by
  subst turned
  have whole := inv.whole live
  rw [waiting] at whole
  have moved : c.pulled ++ [payload] ++ rest ++ s.held.toList = first ++ collect route.maxMessageBytes l := by
    simpa using whole
  refine ⟨inv.set_only _, inv.slot, inv.proto, ?_, fun _ => moved, ?_, inv.gate⟩
  · simp only [inv.same]
  · rw [← moved, List.append_assoc]
    exact List.prefix_append _ _

/-- One move keeps the requests of the only stream in order, as long as it is the only one. -/
theorem moves {frame : Option Kind} (inv : Flowing route.maxMessageBytes first l s c)
    (plain : ∀ payload, route.toProto false payload = some payload)
    (h : Moves route s frame s') :
    2 ≤ s'.chans.length ∨ ∃ d, Flowing route.maxMessageBytes first (l ++ frame.toList) s' d := by
  cases h with
  | idle => exact .inr ⟨c, by simpa using inv⟩
  | ignores ready deaf => exact .inr ⟨c, inv.ignore ready deaf⟩
  | opens sub json ready empty =>
      refine .inl ?_
      simp [inv.only]
  | takes ready found fed small =>
      rcases inv.slot with empty | slot
      · simp [Intake.current, empty] at found
      · rw [inv.current slot] at found
        cases found
        exact .inr ⟨c, inv.take ready slot fed small⟩
  | halfCloses ready slot found =>
      obtain ⟨rfl, rfl⟩ := inv.found found
      have cause : closes route.maxMessageBytes .halfClose = true := rfl
      obtain ⟨same, shut⟩ := collect_closing (l := l) cause
      exact .inr ⟨_, inv.close (inv.set_only _) ⟨rfl, rfl, rfl, rfl, rfl⟩ inv.slot ready.held
        ready.held same (.inr ⟨shut, .inr (.inl rfl)⟩)⟩
  | drops keeps ready cause =>
      obtain ⟨d, only, kept⟩ := inv.abort_chans keeps
      obtain ⟨same, shut⟩ := collect_closing (l := l) cause
      refine .inr ⟨d, inv.close only kept (.inl rfl) ready.held ?_ same (.inr ⟨shut, .inl rfl⟩)⟩
      exact (abort_held s keeps).trans ready.held
  | bars ready large =>
      have cause : closes route.maxMessageBytes (.message _) = true := decide_eq_true large
      obtain ⟨same, shut⟩ := collect_closing (l := l) cause
      exact .inr ⟨c, inv.close inv.only ⟨rfl, rfl, rfl, rfl, rfl⟩ inv.slot ready.held ready.held same
        (.inr ⟨shut, .inr (.inr rfl)⟩)⟩
  | answers keeps barred =>
      obtain ⟨d, only, kept⟩ := inv.abort_chans keeps
      rcases inv.gate with ⟨_, _, unbarred, _⟩ | ⟨idle, why⟩
      · simp [barred] at unbarred
      refine .inr ⟨d, ?_⟩
      rw [Option.toList_none, List.append_nil]
      refine inv.close only kept (.inl rfl) idle ((abort_held s keeps).trans idle) rfl ?_
      rcases why with gone | ⟨shut, _⟩
      · exact .inl ((abort_reading s keeps).trans gone)
      · exact .inr ⟨shut, .inl rfl⟩
  | quits keeps drops idle =>
      obtain ⟨d, only, kept⟩ := inv.abort_chans keeps
      refine .inr ⟨d, ?_⟩
      rw [Option.toList_none, List.append_nil]
      refine inv.close ?_ kept ?_ idle rfl rfl (.inl rfl)
      · cases drops <;> exact only
      · cases drops
        · simpa [Intake.quit, abort_slot] using inv.slot
        · exact .inl rfl
  | feeds held slot found room =>
      obtain ⟨rfl, rfl⟩ := inv.found found
      rw [Option.toList_none, List.append_nil]
      exact .inr ⟨_, inv.give held⟩
  | loses deaf =>
      rw [Option.toList_none, List.append_nil]
      exact .inr ⟨c, inv.lose deaf⟩
  | calls found =>
      obtain ⟨rfl, rfl⟩ := inv.found found
      refine .inr ⟨_, inv.set_only _, inv.slot, inv.proto, inv.same, ?_, ?_, ?_⟩
      · simpa using inv.whole
      · simpa using inv.part
      · simpa using inv.gate
  | pulls found called live waiting made =>
      obtain ⟨rfl, rfl⟩ := inv.found found
      rw [inv.proto, plain, Option.some.injEq] at made
      subst made
      rw [Option.toList_none, List.append_nil]
      exact .inr ⟨_, inv.pull live waiting rfl⟩
  | breaks found waiting panics =>
      obtain ⟨rfl, rfl⟩ := inv.found found
      rw [inv.proto, plain] at panics
      cases panics
  | stops found =>
      obtain ⟨rfl, rfl⟩ := inv.found found
      refine .inr ⟨_, inv.set_only _, inv.slot, inv.proto, inv.same, fun live => (by cases live), ?_, ?_⟩
      · simpa using inv.part
      · simpa using inv.gate

theorem delivers (inv : Flowing route.maxMessageBytes first l s c) :
    c.delivered <+: first ++ collect route.maxMessageBytes l ∧
      (c.AtEnd → c.delivered = first ++ collect route.maxMessageBytes l) := by
  rw [inv.same]
  refine ⟨inv.part, fun ended => ?_⟩
  have whole := inv.whole ended.live
  rcases inv.gate with ⟨_, fed, _⟩ | ⟨idle, _⟩
  · simp [ended.unfed] at fed
  · simpa [ended.empty, idle] using whole

/-- A stream starts with what its channel was given. -/
theorem spawn {sub : Subscribe} (plain : route.ann = none) (only : s.chans = [.spawn route sub false])
    (slot : s.slot = some 0) (idle : s.held = none) (unbarred : s.barred = false) :
    Flowing route.maxMessageBytes (route.first sub.initialPayload) [] s (.spawn route sub false) := by
  refine ⟨only, .inr slot, rfl, rfl, fun _ => ?_, List.nil_prefix, .inl ?_⟩
  · simp [Chan.spawn, idle, collect]
  · simp [Chan.spawn, Route.bodyless, slot, unbarred, plain]

end Flowing

/-- The frame in a message, as the read loop of an opened proto connection takes it. -/
def Inbound.frame (methodUrl : Str) : Inbound → Option Kind
  | .binary (some (some (.subscribe sub))) => some (.subscribe { sub with method := methodUrl })
  | .binary (some (some kind)) => some kind
  | _ => none

theorem decode_frame (methodUrl : Str) (msg : Inbound) :
    decode ⟨some false, true⟩ methodUrl msg =
      (⟨some false, true⟩, (msg.frame methodUrl).map fun kind => (kind, false)) := by
  cases msg with
  | binary frame =>
      cases frame with
      | none => rfl
      | some frame =>
          cases frame with
          | none => rfl
          | some kind => cases kind <;> rfl
  | text frame => rfl
  | close => rfl
  | control => rfl

/-- A binary open frame locks the codec, unless it is locked to JSON. -/
theorem decode_open {codec codec' : Codec} {methodUrl : Str} {raw sub : Subscribe} {json : Bool}
    (decoded : decode codec methodUrl (.binary (some (some (.subscribe raw)))) =
      (codec', some (.subscribe sub, json))) :
    codec' = ⟨some false, true⟩ ∧ json = false ∧ sub.initialPayload = raw.initialPayload := by
  simp only [decode, decodeBinary] at decoded
  split at decoded
  · cases decoded
  · cases decoded
    exact ⟨rfl, rfl, rfl⟩

/-- The requests of a stream: the payload of its open frame, if any, and those of the
frames that follow. -/
def requested (limit : Nat) (sub : Subscribe) (frames : List Kind) : List Bytes :=
  (if sub.initialPayload = [] then [] else [sub.initialPayload]) ++ collect limit frames

theorem requested_eq {route : Route} (plain : route.ann = none) (sub : Subscribe) (frames : List Kind) :
    requested route.maxMessageBytes sub frames =
      route.first sub.initialPayload ++ collect route.maxMessageBytes frames := by
  simp [requested, Route.first, Route.bodyless, plain]

theorem toProto_plain {route : Route} (plain : route.ann = none) (payload : Bytes) :
    route.toProto false payload = some payload := by
  simp [Route.toProto, plain]

/-- The frames a message brings to an opened proto connection. -/
def framesOf (methodUrl : Str) (received : Option Inbound) : List Kind :=
  (received.bind (Inbound.frame methodUrl)).toList

theorem next_proto (methodUrl : Str) (received : Option Inbound) :
    (Codec.next ⟨some false, true⟩ methodUrl received).1 = ⟨some false, true⟩ ∧
      (Codec.handles ⟨some false, true⟩ methodUrl received).toList = framesOf methodUrl received := by
  cases received with
  | none => exact ⟨rfl, rfl⟩
  | some msg =>
      have decoded := decode_frame methodUrl msg
      refine ⟨congrArg Prod.fst decoded, ?_⟩
      simp [Codec.handles, Codec.next, decoded, framesOf, Function.comp_def]

namespace Server
variable {route : Route} {Conn Event : Type} (m : Server route Conn Event)
variable {s s' : Conn} {e : Event}

/-- The connection after its open frame, with the frames it has seen since. -/
structure Opened (first : List Bytes) (l : List Kind) (s : Conn) : Prop where
  codec : m.codec s = ⟨some false, true⟩
  flows : 2 ≤ (m.intake s).chans.length ∨ ∃ c, Flowing route.maxMessageBytes first l (m.intake s) c

variable {m}

theorem Opened.step {first : List Bytes} {l : List Kind} (plain : route.ann = none)
    (inv : m.Opened first l s) (h : m.step s e = some s') :
    m.Opened first (l ++ framesOf route.methodUrl (m.received e)) s' := by
  obtain ⟨codec, frames⟩ := next_proto route.methodUrl (m.received e)
  have moves := m.step_moves h
  constructor
  · rw [m.step_codec h, inv.codec, codec]
  · rcases inv.flows with two | ⟨c, flows⟩
    · exact .inl (two.trans moves.length_le)
    · have moved := flows.moves (toProto_plain plain) moves
      rwa [inv.codec, frames] at moved

/-- The step that opens the only stream. -/
theorem opened_first {raw : Subscribe} (plain : route.ann = none) (fresh : (m.intake s).chans = [])
    (opens : m.received e = some (.binary (some (some (.subscribe raw)))))
    (h : m.step s e = some s') (spawned : (m.intake s').chans ≠ []) :
    m.Opened (route.first raw.initialPayload) [] s' := by
  obtain ⟨msg, codec, sub, json, received, decoded, ready, after⟩ :=
    m.step_opens h (by simpa [fresh] using spawned)
  cases opens.symm.trans received
  have moved := m.step_codec h
  rw [received, Codec.next, decoded] at moved
  obtain ⟨rfl, rfl, same⟩ := decode_open decoded
  rw [← same]
  refine ⟨moved, .inr ⟨_, Flowing.spawn plain ?_ ?_ ?_ ?_⟩⟩ <;>
    simp [after, fresh, ready.held, ready.barred]

/-- What the backend of the only stream has been sent. -/
theorem Opened.delivers {sub : Subscribe} {l : List Kind} {c : Chan} (plain : route.ann = none)
    (inv : m.Opened (route.first sub.initialPayload) l s) (only : (m.intake s).chans = [c]) :
    c.delivered <+: requested route.maxMessageBytes sub l ∧
      (c.AtEnd → c.delivered = requested route.maxMessageBytes sub l) := by
  rcases inv.flows with two | ⟨d, flows⟩
  · simp [only] at two
  · cases only.symm.trans flows.only
    rw [requested_eq plain]
    exact flows.delivers

/-- The requests of a stream behind the frames that follow its open frame. -/
theorem delivered_in_order {sub : Subscribe} {after : List Event} {s t : Conn} {c : Chan}
    (plain : route.ann = none) (fresh : (m.intake s).chans = [])
    (opens : m.received e = some (.binary (some (some (.subscribe sub)))))
    (h : m.step s e = some s') (spawned : (m.intake s').chans ≠ [])
    (ran : Machine.run m.step s' after = some t) (only : (m.intake t).chans = [c]) :
    c.delivered <+: requested route.maxMessageBytes sub
        (after.flatMap fun e => framesOf route.methodUrl (m.received e)) ∧
      (c.AtEnd → c.delivered = requested route.maxMessageBytes sub
        (after.flatMap fun e => framesOf route.methodUrl (m.received e))) := by
  have opened := Machine.run_invariant_trace (fun l s e s' inv h => Opened.step plain inv h)
    (opened_first plain fresh opens h spawned) ran
  exact opened.delivers plain only

end Server

/-- The frames an event brings to an opened proto connection. -/
def RustServer.Event.frames (srv : RustServer.Config) (e : RustServer.Event) : List Kind :=
  framesOf srv.methodUrl e.received

def GoServer.Event.frames (srv : GoServer.Config) (e : GoServer.Event) : List Kind :=
  framesOf srv.methodUrl e.received

/-- Whatever frames follow the open frame of the only stream of a proto connection, and
however its parties take turns, the backend has been sent an initial part of the requests
in their order, and all of them where it reads its body to the end. -/
theorem requests_in_order :
    (∀ (srv : RustServer.Config) (sub : Subscribe) (after : List RustServer.Event)
        (s s' t : RustServer.Conn) (task : RustServer.Task),
      srv.ann = none → s.tasks = [] →
      RustServer.step srv s (.receive (.binary (some (some (.subscribe sub))))) = some s' →
      s'.tasks ≠ [] →
      Machine.run (RustServer.step srv) s' after = some t → t.tasks = [task] →
      task.delivered <+: requested srv.maxMessageBytes sub (after.flatMap (·.frames srv)) ∧
        (task.chan.AtEnd →
          task.delivered = requested srv.maxMessageBytes sub (after.flatMap (·.frames srv)))) ∧
    (∀ (srv : GoServer.Config) (sub : Subscribe) (after : List GoServer.Event)
        (s s' t : GoServer.Conn) (task : GoServer.Task),
      srv.ann = none → s.tasks = [] →
      GoServer.step srv s (.receive (.binary (some (some (.subscribe sub))))) = some s' →
      s'.tasks ≠ [] →
      Machine.run (GoServer.step srv) s' after = some t → t.tasks = [task] →
      task.delivered <+: requested srv.maxMessageBytes sub (after.flatMap (·.frames srv)) ∧
        (task.chan.AtEnd →
          task.delivered = requested srv.maxMessageBytes sub (after.flatMap (·.frames srv)))) := by
  constructor
  · intro srv sub after s s' t task plain fresh opens spawned ran only
    exact Server.delivered_in_order (m := RustServer.server srv) (e := .receive _) plain
      (congrArg (List.map RustServer.Task.chan) fresh) rfl opens (mt List.map_eq_nil_iff.mp spawned) ran
      (congrArg (List.map RustServer.Task.chan) only)
  · intro srv sub after s s' t task plain fresh opens spawned ran only
    exact Server.delivered_in_order (m := GoServer.server srv) (e := .receive _) plain
      (congrArg (List.map GoServer.Task.chan) fresh) rfl opens (mt List.map_eq_nil_iff.mp spawned) ran
      (congrArg (List.map GoServer.Task.chan) only)

/-- The frames of the runs below: an open frame with a payload, three messages and a
half-close before the last. -/
def inlineSubscribe : Subscribe := ⟨[], [], 0, [7]⟩

def messageFrame (payload : Bytes) : Inbound := .binary (some (some (.message payload)))

def halfCloseFrame : Inbound := .binary (some (some .halfClose))

def rustFed : List RustServer.Event :=
  [.receive (messageFrame [1]), .wake 0, .feed, .run 0 .call, .pull 0, .receive (messageFrame [2]),
    .pull 0, .feed, .receive halfCloseFrame, .receive (messageFrame [3]), .pull 0]

def goFed : List GoServer.Event :=
  [.receive (messageFrame [1]), .run 0 (.checked none), .feed, .run 0 .dispatch, .pull 0,
    .receive (messageFrame [2]), .pull 0, .feed, .receive halfCloseFrame,
    .receive (messageFrame [3]), .pull 0]

/-- The message behind the half-close is not sent, the others are. -/
theorem three_requests_in_order :
    (∀ s' t task, RustServer.step smallRust (.init none)
        (.receive (.binary (some (some (.subscribe inlineSubscribe))))) = some s' → s'.tasks ≠ [] →
      Machine.run (RustServer.step smallRust) s' rustFed = some t → t.tasks = [task] →
      task.delivered <+: [[7], [1], [2]]) ∧
    (∀ s' t task, GoServer.step smallGo (.init none)
        (.receive (.binary (some (some (.subscribe inlineSubscribe))))) = some s' → s'.tasks ≠ [] →
      Machine.run (GoServer.step smallGo) s' goFed = some t → t.tasks = [task] →
      task.delivered <+: [[7], [1], [2]]) ∧
    (Machine.run (RustServer.step smallRust) (.init none)
        (.receive (.binary (some (some (.subscribe inlineSubscribe)))) :: rustFed)).map
        (fun t => t.tasks.map RustServer.Task.delivered) = some [[[7], [1], [2]]] ∧
    (Machine.run (GoServer.step smallGo) (.init none)
        (.receive (.binary (some (some (.subscribe inlineSubscribe)))) :: goFed)).map
        (fun t => t.tasks.map GoServer.Task.delivered) = some [[[7], [1], [2]]] := by
  refine ⟨?_, ?_, by decide, by decide⟩
  · intro s' t task opens spawned ran only
    exact (requests_in_order.1 smallRust inlineSubscribe rustFed _ s' t task rfl rfl opens spawned ran
      only).1
  · intro s' t task opens spawned ran only
    exact (requests_in_order.2 smallGo inlineSubscribe goFed _ s' t task rfl rfl opens spawned ran
      only).1

end GrpcWebnext.Ws
