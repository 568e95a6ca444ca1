/-
# The framed codec

`RabbitMqStreamCodec` (`client/codec.rs`) is what the framing layer calls with its buffer: an
`Incomplete` of the response decoder becomes "wait for more bytes", every other error is
returned, and a response is removed from the front of the buffer.

Everything here follows from `Frame.response_follows`: the decoder does what the layout of a
frame says, and looks at nothing behind the frame.

* `codec_decode_prefix_iff`: a frame cut short is waited for exactly when the cut does not lie
  inside a string; inside a string the decoder panics.
* `codec_decode_removes`: what is removed from the buffer are four bytes and the fields of the
  header and the body, whatever those four bytes say.
* `codec_decode_answers_iff`: when the codec asks for more bytes, when it answers and when it
  panics.
* `response_decode_append`: later frames in the buffer do not touch the first one.
-/
import RabbitMqStream.Protocol.ResponseLayout

namespace RabbitMqStream.Client

open Wire Protocol

/-! ## 1. The codec -/

/-- `ProtocolError`. -/
inductive ProtocolError : Type where
  | encode (e : EncodeError)
  | decode (e : DecodeError)
  deriving DecidableEq

/-- `ClientError`, as far as the codec raises it: `From<DecodeError>` and `From<EncodeError>`
go through `ProtocolError`. -/
inductive ClientError : Type where
  | protocol (e : ProtocolError)
  deriving DecidableEq

/-- `RabbitMqStreamCodec::decode`: the result, and the buffer it leaves. -/
def RabbitMqStreamCodec.decode [Amqp.Chrono] [Allocator] (buf : Bytes) :
    Except (Fault ClientError) (Option Response) × Bytes :=
  match (Protocol.decode : DecodeM Response) buf with
  | .ok (response, remaining) =>
    (.ok (some response), buf.drop (buf.length - remaining.length))
  | .error (.error (.incomplete _)) => (.ok none, buf)
  | .error (.error e) => (.error (.error (.protocol (.decode e))), buf)
  | .error (.panic p) => (.error (.panic p), buf)

/-- `RabbitMqStreamCodec::encode`.  What was written before an error stays in the buffer. -/
def RabbitMqStreamCodec.encode (req : Request) (buf : Bytes) : Except ClientError Unit × Bytes :=
  match (Protocol.encode req).exec buf with
  | (.ok (), buf') => (.ok (), buf')
  | (.error e, buf') => (.error (.protocol (.encode e)), buf')

/-! ## 2. The codec by the layout

A call is described by where the walk along the buffer ends.  There are four ways for a call and
six for a walk; everything about the codec is read off this table. -/

section Codec

variable [Amqp.Chrono] [Allocator]

theorem codec_decode_of_ok {b rest : Bytes} {resp : Response}
    (h : (decode : DecodeM Response) b = .ok (resp, rest)) :
    RabbitMqStreamCodec.decode b = (.ok (some resp), rest) := by
  obtain ⟨c, rfl, -⟩ := Frame.response_follows.isLocal b resp rest h
  have hdrop : (c ++ rest).drop ((c ++ rest).length - rest.length) = rest := by
    rw [List.length_append, Nat.add_sub_cancel, List.drop_left]
  rw [RabbitMqStreamCodec.decode, h]
  simp only [hdrop]

/-- **What a call of the codec does**, and where the walk along the frame ends then. -/
theorem codec_decode_cases (b : Bytes) :
    (∃ resp rest, (decode : DecodeM Response) b = .ok (resp, rest) ∧
      RabbitMqStreamCodec.decode b = (.ok (some resp), rest) ∧
      Frame.layout.walk b = .whole rest) ∨
    (RabbitMqStreamCodec.decode b = (.ok none, b) ∧
      (Frame.layout.walk b = .short ∨ Frame.layout.walk b = .cut)) ∨
    (∃ e, RabbitMqStreamCodec.decode b = (.error (.error e), b) ∧
      Frame.layout.walk b = .rejected) ∨
    (∃ p, RabbitMqStreamCodec.decode b = (.error (.panic p), b) ∧
      (Frame.layout.walk b = .midSlice ∨ Frame.layout.walk b = .crashed)) := by
  have h := Frame.response_follows.agrees b
  cases hd : (decode : DecodeM Response) b with
  | ok q =>
    obtain ⟨resp, rest⟩ := q
    rw [hd] at h
    exact Or.inl ⟨resp, rest, rfl, codec_decode_of_ok hd, Walk.outcome_eq_whole.mp h.symm⟩
  | error fault =>
    rw [hd] at h
    rcases fault with e | p
    · rw [RabbitMqStreamCodec.decode, hd]
      cases e with
      | incomplete needed =>
        exact Or.inr (Or.inl ⟨rfl, Walk.outcome_eq_incomplete.mp h.symm⟩)
      | _ => exact Or.inr (Or.inr (Or.inl ⟨_, rfl, Walk.outcome_eq_rejected.mp h.symm⟩))
    · rw [RabbitMqStreamCodec.decode, hd]
      exact Or.inr (Or.inr (Or.inr ⟨p, rfl, Walk.outcome_eq_crashed.mp h.symm⟩))

theorem codec_decode_eq_some {b rest : Bytes} {resp : Response} :
    RabbitMqStreamCodec.decode b = (.ok (some resp), rest) ↔
      (decode : DecodeM Response) b = .ok (resp, rest) := by
  refine ⟨fun h => ?_, codec_decode_of_ok⟩
  rcases codec_decode_cases b with ⟨_, _, hd, hc, -⟩ | ⟨hc, -⟩ | ⟨_, hc, -⟩ | ⟨_, hc, -⟩
  · rw [hc] at h
    obtain ⟨h1, rfl⟩ := Prod.mk.inj h
    rw [hd, Option.some.inj (Except.ok.inj h1)]
  all_goals
    rw [hc] at h
    exact absurd h (by simp)

/-- The consumed part of a decoded buffer is a frame of its own. -/
theorem walk_consumed {c rest : Bytes} {resp : Response}
    (h : (decode : DecodeM Response) (c ++ rest) = .ok (resp, rest)) :
    Frame.layout.walk c = .whole [] := by
  have hw := Frame.response_follows.agrees (c ++ rest)
  rw [h] at hw
  simpa using Layout.walk_swap _ (Walk.outcome_eq_whole.mp hw.symm) []

/-! ## 3. A frame in parts

A proper part of a frame stops the walk at its end, either in front of a field, which the
decoder checks for, or inside a string, which it cuts out unchecked. -/

/-- **A frame cut short is waited for exactly when the cut is not inside a string.**  `p` is a
proper part of a frame's bytes; the walk along it ends in `midSlice` when `p` stops behind the
length of a string and before the string's last byte.

The walk along a proper part of a frame ends short of it or in the middle of a slice, as
`Layout.walk_prefix` says of every layout; the codec waits in the first case and panics in the
second. -/
theorem codec_decode_prefix_iff (b c r p : Bytes) (resp : Response)
    (h : (decode : DecodeM Response) b = .ok (resp, r)) (hb : b = c ++ r)
    (hp : p <+: c) (hne : p ≠ c) :
    RabbitMqStreamCodec.decode p = (.ok none, p) ↔ Frame.layout.walk p ≠ .midSlice := by
  subst hb
  have hstop := Layout.walk_prefix _ (walk_consumed h) hp hne
  rcases codec_decode_cases p with ⟨_, _, -, -, hw⟩ | ⟨hd, hw⟩ | ⟨_, -, hw⟩ | ⟨q, hd, hw⟩
  · rcases hstop with hs | hs <;> simp [hs] at hw
  · rw [hd]
    rcases hw with hw | hw <;> simp [hw]
  · rcases hstop with hs | hs <;> simp [hs] at hw
  · rw [hd]
    rcases hstop with hs | hs
    · simp [hs] at hw
    · simp [hs]

end Codec

/-- A `SaslHandshake` response that offers the mechanism `PLAIN`. -/
def saslHandshakeFrame : Bytes :=
  [0, 0, 0, 21, 0x80, 0x12, 0, 1, 0, 0, 0, 1, 0, 1, 0, 0, 0, 1, 0, 5, 80, 76, 65, 73, 78]

def saslHandshakeResponse : Response := ⟨⟨18, 1⟩, .saslHandshake ⟨1, .ok, ["PLAIN"]⟩⟩

/-- The rule at a cut inside the correlation id. -/
theorem codec_decode_prefix_iff_correlationId :
    letI := Amqp.Chrono.range; letI := Allocator.unbounded
    RabbitMqStreamCodec.decode (saslHandshakeFrame.take 10) =
      (.ok none, saslHandshakeFrame.take 10) :=
  letI := Amqp.Chrono.range
  letI := Allocator.unbounded
  (codec_decode_prefix_iff saslHandshakeFrame saslHandshakeFrame [] (saslHandshakeFrame.take 10)
    saslHandshakeResponse (by decide +kernel) (by simp) (List.take_prefix 10 _)
    (by decide)).mpr (by decide +kernel)

/-- Two bytes of `PLAIN` have arrived: the decoder panics. -/
theorem codec_decode_cut_in_string :
    letI := Amqp.Chrono.range; letI := Allocator.unbounded
    (decode : DecodeM Response) saslHandshakeFrame = .ok (saslHandshakeResponse, []) ∧
    saslHandshakeFrame.take 22 <+: saslHandshakeFrame ∧
    saslHandshakeFrame.take 22 ≠ saslHandshakeFrame ∧
    RabbitMqStreamCodec.decode (saslHandshakeFrame.take 22) =
      (.error (.panic .splitAtOutOfRange), saslHandshakeFrame.take 22) :=
  ⟨by decide +kernel, List.take_prefix 22 _, by decide, by decide +kernel⟩

/-! ## 4. Where the next frame starts

What is taken off the buffer is the length field and what the decoder has read behind it.  The
length that the field says is compared with nothing. -/

section Codec

variable [Amqp.Chrono] [Allocator]

/-- **What a decoded response takes off the buffer**: four bytes and the fields of the header
and the body.  The four bytes are read and dropped; any others in their place give the same
response.  So the frame ends where its declared length says exactly when that length is the
length of the fields.

The decoder reads a number of four bytes, of which nothing depends, and goes on with the header
and the body.  What those two read they read from any input that begins in the same way
(`IsLocal`). -/
theorem codec_decode_removes (buf buf' : Bytes) (resp : Response)
    (h : RabbitMqStreamCodec.decode buf = (.ok (some resp), buf')) :
    ∃ len fields, buf = len ++ fields ++ buf' ∧ len.length = 4 ∧
      Frame.headerAndBody.walk fields = .whole [] ∧
      buf.length - buf'.length = 4 + fields.length ∧
      (buf.length - buf'.length = 4 + ofBE len ↔ ofBE len = fields.length) ∧
      ∀ len' s, len'.length = 4 →
        RabbitMqStreamCodec.decode (len' ++ fields ++ s) = (.ok (some resp), s) := by
  obtain ⟨n, mid, hlen, hmid⟩ := Reader.bind_eq_ok.mp (codec_decode_eq_some.mp h)
  obtain ⟨len, hbuf, hfour, -⟩ := readU32_eq_ok hlen
  obtain ⟨fields, rfl, hf⟩ := Frame.follows_headerAndBody.isLocal mid resp buf' hmid
  have hwalk : Frame.headerAndBody.walk (fields ++ buf') = .whole buf' := by
    have hw := Frame.follows_headerAndBody.agrees (fields ++ buf')
    rw [hmid] at hw
    exact Walk.outcome_eq_whole.mp hw.symm
  have hcount : buf.length - buf'.length = 4 + fields.length := by
    rw [hbuf, List.length_append, List.length_append, hfour]
    omega
  refine ⟨len, fields, by rw [hbuf, List.append_assoc], hfour, ?_, hcount, by omega, ?_⟩
  · simpa using Layout.walk_swap _ hwalk []
  · intro len' s hlen'
    refine codec_decode_of_ok
      (Reader.bind_eq_ok.mpr ⟨UInt32.ofNat (ofBE len'), fields ++ s, ?_, hf s⟩)
    rw [List.append_assoc, readU32_of_length hlen']

end Codec

/-- A heartbeat whose length is written as 6, as the encoder of the crate's tests has it. -/
def heartbeatFrame : Bytes := [0, 0, 0, 6, 0, 23, 0, 1]

def heartbeatResponse : Response := ⟨⟨23, 1⟩, .heartbeat ⟨⟩⟩

/-- The rule at a heartbeat in front of another byte. -/
theorem codec_decode_removes_heartbeat :
    letI := Amqp.Chrono.range; letI := Allocator.unbounded
    ∃ len fields, heartbeatFrame ++ [9] = len ++ fields ++ [9] ∧ len.length = 4 ∧
      Frame.headerAndBody.walk fields = .whole [] :=
  letI := Amqp.Chrono.range
  letI := Allocator.unbounded
  have ⟨len, fields, h, hlen, hwalk, _⟩ :=
    codec_decode_removes (heartbeatFrame ++ [9]) [9] heartbeatResponse (by decide +kernel)
  ⟨len, fields, h, hlen, hwalk⟩

/-- The heartbeat is taken for a frame of 8 bytes; its length says 10. -/
theorem codec_decode_heartbeat_length :
    letI := Amqp.Chrono.range; letI := Allocator.unbounded
    RabbitMqStreamCodec.decode heartbeatFrame = (.ok (some heartbeatResponse), []) ∧
      heartbeatFrame.length ≠ 4 + ofBE (heartbeatFrame.take 4) :=
  ⟨by decide +kernel, by decide⟩

/-! ## 5. Waiting for more bytes

The codec asks for more bytes in two cases that it cannot tell apart: the frame is not there
yet, or the frame is complete and something inside it is cut short. -/

section Codec

variable [Amqp.Chrono] [Allocator]

/-- **When the codec answers.**  It asks for more bytes exactly when the fields run into the
end of the buffer or when a record of a `Deliver` is complete but the AMQP message in it is
cut short.  It returns a response or an error exactly when the walk along the fields gets to
the end of the frame or to something the decoder refuses; in all other cases it panics, and to
those belongs a count that the allocator has no memory for, whatever stands behind it.  The length
in front of the frame plays no part.

The decoder follows the layout of the frame, so the codec's answer is read off the walk, and the
walk ends in one of six ways: two of them are these answers, two ask for more bytes and two are
panics (`codec_decode_cases`). -/
theorem codec_decode_answers_iff (buf : Bytes) :
    ((RabbitMqStreamCodec.decode buf).1 ≠ .ok none ↔
      Frame.layout.walk buf ≠ .short ∧ Frame.layout.walk buf ≠ .cut) ∧
    ((∃ resp, (RabbitMqStreamCodec.decode buf).1 = .ok (some resp)) ∨
        (∃ e, (RabbitMqStreamCodec.decode buf).1 = .error (.error e)) ↔
      (∃ rest, Frame.layout.walk buf = .whole rest) ∨
        Frame.layout.walk buf = .rejected) := by
  rcases codec_decode_cases buf with ⟨_, _, -, hc, hw⟩ | ⟨hc, hw⟩ | ⟨_, hc, hw⟩ | ⟨_, hc, hw⟩
  · simp [hc, hw]
  · rcases hw with hw | hw <;> simp [hc, hw]
  · simp [hc, hw]
  · rcases hw with hw | hw <;> simp [hc, hw]

/-- **Later frames do not touch the first one**: with any bytes behind it, a response is
decoded to the same value and leaves these bytes in addition.

A decoder that follows a layout is local: it looks at the bytes that it takes off and at no
others. -/
theorem response_decode_append (b rest s : Bytes) (resp : Response)
    (h : (decode : DecodeM Response) b = .ok (resp, rest)) :
    (decode : DecodeM Response) (b ++ s) = .ok (resp, rest ++ s) ∧
      RabbitMqStreamCodec.decode (b ++ s) = (.ok (some resp), rest ++ s) :=
  have happend := Frame.response_follows.isLocal.append h s
  ⟨happend, codec_decode_of_ok happend⟩

end Codec

/-- A complete `Deliver` frame of one record.  The record is one byte, the first of an AMQP
section. -/
def cutRecordFrame : Bytes :=
  [0, 0, 0, 58, 0, 8, 0, 1, 1, 80, 0, 0, 1, 0, 0, 0, 1] ++ List.replicate 28 0 ++
    [0, 0, 0, 5] ++ List.replicate 8 0 ++ [0, 0, 0, 1, 0]

/-- The frame is complete and the codec waits for more. -/
theorem codec_decode_cutRecordFrame :
    letI := Amqp.Chrono.range; letI := Allocator.unbounded
    4 + ofBE (cutRecordFrame.take 4) ≤ cutRecordFrame.length ∧
      RabbitMqStreamCodec.decode cutRecordFrame = (.ok none, cutRecordFrame) :=
  ⟨by decide, by decide +kernel⟩

/-- The rule at a heartbeat with a `SaslHandshake` response behind it. -/
theorem response_decode_append_heartbeat :
    letI := Amqp.Chrono.range; letI := Allocator.unbounded
    (decode : DecodeM Response) (heartbeatFrame ++ saslHandshakeFrame) =
        .ok (heartbeatResponse, saslHandshakeFrame) ∧
      RabbitMqStreamCodec.decode (heartbeatFrame ++ saslHandshakeFrame) =
        (.ok (some heartbeatResponse), saslHandshakeFrame) :=
  letI := Amqp.Chrono.range
  letI := Allocator.unbounded
  response_decode_append heartbeatFrame [] saslHandshakeFrame heartbeatResponse
    (by decide +kernel)

end RabbitMqStream.Client
