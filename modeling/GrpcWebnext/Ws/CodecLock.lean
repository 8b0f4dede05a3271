import GrpcWebnext.Ws.GoCodec
import GrpcWebnext.Ws.OneCall
import GrpcWebnext.Ws.RustCodec

/-! The codec of a connection is set once, by the handshake or by the first data message. -/
namespace GrpcWebnext.Ws

theorem speaks_type {codec : Option Bool} {out : Out} {kind : Kind} {json : Bool}
    (speaks : out.Speaks codec) (encoded : out.encoded = some (kind, json)) :
    codec = some json ∧ kind.hasJson = true := speaks (kind, json) encoded

/-- In every run of either server the codec is the one of the handshake, or else the type
of the first data message, and stays; a data message of the other type changes nothing at
all; and every frame written is a message of the type the codec says. -/
theorem codec_locked_once (json : Option Bool) :
    (∀ (srv : RustServer.Config) (es : List RustServer.Event) (s : RustServer.Conn),
      Machine.run (RustServer.step srv) (.init json) es = some s →
      s.codec.json = json.or (es.flatMap RustServer.Event.types).head? ∧
      (∀ locked more s', s.codec.json = some locked →
        Machine.run (RustServer.step srv) s more = some s' → s'.codec.json = some locked) ∧
      (∀ locked msg s', s.codec.json = some locked → msg.type = some (!locked) →
        RustServer.step srv s (.receive msg) = some s' → s' = s) ∧
      ∀ out ∈ s.written, ∀ kind flag, out.encoded = some (kind, flag) →
        s.codec.json = some (RustServer.toTung kind flag)) ∧
    (∀ (srv : GoServer.Config) (es : List GoServer.Event) (s : GoServer.Conn),
      Machine.run (GoServer.step srv) (.init json) es = some s →
      s.codec.json = json.or (es.flatMap GoServer.Event.types).head? ∧
      (∀ locked more s', s.codec.json = some locked →
        Machine.run (GoServer.step srv) s more = some s' → s'.codec.json = some locked) ∧
      (∀ locked msg s', s.codec.json = some locked → msg.type = some (!locked) →
        GoServer.step srv s (.receive msg) = some s' → s' = s) ∧
      ∀ out ∈ s.written, ∀ kind flag, out.encoded = some (kind, flag) →
        ∀ type, GoServer.encodeOutbound srv.marshals kind flag = some type →
          s.codec.json = some type) := by
  constructor
  · intro srv es s ran
    refine ⟨(RustServer.server srv).run_json ran, ?_, ?_, ?_⟩
    · exact fun locked more s' before later => (RustServer.server srv).run_locked before later
    · intro locked msg s' before other h
      exact (RustServer.server srv).step_other (e := .receive msg) before rfl other h
    · intro out inside kind flag encoded
      have written := ((RustServer.server srv).run_spoken ran).written
      obtain ⟨codec, form⟩ := speaks_type (written out inside) encoded
      rw [RustServer.toTung, form, Bool.and_true]
      exact codec
  · intro srv es s ran
    refine ⟨(GoServer.server srv).run_json ran, ?_, ?_, ?_⟩
    · exact fun locked more s' before later => (GoServer.server srv).run_locked before later
    · intro locked msg s' before other h
      exact (GoServer.server srv).step_other (e := .receive msg) before rfl other h
    · intro out inside kind flag encoded type made
      have written := ((GoServer.server srv).run_spoken ran).written
      obtain ⟨codec, form⟩ := speaks_type (written out inside) encoded
      have locked : s.codec.json = some flag := codec
      rw [locked]
      cases flag with
      | true => simpa [GoServer.encodeOutbound, form] using made
      | false =>
          simp only [GoServer.encodeOutbound, Bool.false_eq_true, if_false,
            Option.ite_none_right_eq_some] at made
          exact made.2

/-- A binary frame locks the connection; a text message behind it changes nothing. -/
theorem binary_frame_locks :
    (∃ s, Machine.run (RustServer.step smallRust) (.init none) (rustTwice.take 3) = some s ∧
      s.codec.json = some false ∧
      ∀ s', RustServer.step smallRust s (.receive (.text none)) = some s' → s' = s) ∧
    (∃ s, Machine.run (GoServer.step smallGo) (.init none) (goTwice.take 3) = some s ∧
      s.codec.json = some false ∧
      ∀ s', GoServer.step smallGo s (.receive (.text none)) = some s' → s' = s) := by
  constructor
  · obtain ⟨s, ran⟩ := Option.isSome_iff_exists.mp
      (show (Machine.run (RustServer.step smallRust) (.init none) (rustTwice.take 3)).isSome = true by decide)
    obtain ⟨first, _, other, _⟩ := (codec_locked_once none).1 smallRust _ s ran
    have locked : s.codec.json = some false := first.trans (by decide)
    exact ⟨s, ran, locked, fun s' h => other false (.text none) s' locked rfl h⟩
  · obtain ⟨s, ran⟩ := Option.isSome_iff_exists.mp
      (show (Machine.run (GoServer.step smallGo) (.init none) (goTwice.take 3)).isSome = true by decide)
    obtain ⟨first, _, other, _⟩ := (codec_locked_once none).2 smallGo _ s ran
    have locked : s.codec.json = some false := first.trans (by decide)
    exact ⟨s, ran, locked, fun s' h => other false (.text none) s' locked rfl h⟩

end GrpcWebnext.Ws
