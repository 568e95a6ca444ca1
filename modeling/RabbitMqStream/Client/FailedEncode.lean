/-
# A request that cannot be encoded

`RabbitMqStreamCodec::encode` writes into the buffer that the framing layer will send, and its
encoder writes the size and the header of a request before it calls the encoder of the command.
Three of the commands carry a reference of at most 255 bytes and return `MaxSizeError` for a
longer one; no other encoder fails.

* `kind_exec`: the encoder of a command appends its bytes, or fails before it has written one.
* `codec_encode_cases`: so a request that fails has left its size and its header in the buffer,
  eight bytes.
* `codec_encode_intact_iff`: a request leaves the buffer alone when it fails exactly when it
  cannot fail.

The eight bytes stay in front of whatever is encoded next (`codec_encode_after_failure`), and the
broker takes them for the start of a frame.

**The argument.**  An encoder either appends its bytes, whatever is in the buffer, or it fails.
For the encoder of a request the size and the header come first and never fail; so the only
question is what the encoder of the command does, and it is answered for all commands at once: it
fails exactly when it checks a reference and the reference is too long, and the check stands in
front of its first byte.
-/
import RabbitMqStream.Client.Codec
import RabbitMqStream.Protocol.RequestRoundTrip

namespace RabbitMqStream.Protocol

open Wire

open WriteM (Appends)

/-! ## 1. Commands

The encoders of all commands but three cannot fail, which instance search finds out along their
lines.  The three are alike: a check of the reference, and then an encoder that cannot fail. -/

instance (n : UInt8) : Appends (encode n : Writer) := .of_exec fun buf => exec_u8 buf n
instance (n : UInt16) : Appends (encode n : Writer) := .of_exec fun buf => exec_u16 buf n
instance (n : UInt32) : Appends (encode n : Writer) := .of_exec fun buf => exec_u32 buf n
instance (n : UInt64) : Appends (encode n : Writer) := .of_exec fun buf => exec_u64 buf n
instance (c : ResponseCode) : Appends (encode c : Writer) := .of_exec fun buf => exec_code buf c
instance (s : String) : Appends (encode s : Writer) := .of_exec fun buf => exec_string buf s
instance (s : Option String) : Appends (encode s : Writer) :=
  .of_exec fun buf => exec_optString buf s
instance (xs : List String) : Appends (encode xs : Writer) :=
  .of_exec fun buf => exec_strings buf xs
instance (m : HashMap String String) : Appends (encode m : Writer) :=
  .of_exec fun buf => exec_map buf m
instance (bs : Bytes) : Appends (encode bs : Writer) := .of_exec fun buf => exec_bytes buf bs
instance (s : OffsetSpecification) : Appends (encode s : Writer) :=
  .of_exec fun buf => exec_offset buf s
instance (vs : List ExchangeCommandVersion) : Appends (encode vs : Writer) :=
  .of_exec fun buf => exec_versions buf vs
instance (ms : List PublishedMessage) : Appends (encode ms : Writer) :=
  .of_exec fun buf => exec_messages buf ms
instance (ms : List PublishedMessage) : Appends (encodeVersion2 ms) :=
  .of_exec fun buf => exec_messagesVersion2 buf ms

/-- The reference that the encoder of a command checks. -/
def RequestKind.checkedReference : RequestKind → Option String
  | .queryOffset cmd => some cmd.reference
  | .queryPublisherSequence cmd => some cmd.publisherReference
  | .storeOffset cmd => some cmd.reference
  | _ => none

/-- The reference of the command, if its encoder checks one, has less than 256 bytes. -/
def RequestKind.ReferenceFits (k : RequestKind) : Prop :=
  ∀ reference ∈ k.checkedReference, (asBytes reference).length < 256

instance (k : RequestKind) : Decidable k.ReferenceFits :=
  inferInstanceAs (Decidable (∀ reference ∈ k.checkedReference, _))

theorem kind_appends {k : RequestKind} (h : k.checkedReference = none) :
    Appends (encode k : Writer) := by
  cases k with
  | queryOffset cmd => exact absurd h (by simp [RequestKind.checkedReference])
  | queryPublisherSequence cmd => exact absurd h (by simp [RequestKind.checkedReference])
  | storeOffset cmd => exact absurd h (by simp [RequestKind.checkedReference])
  | heartbeat cmd => exact inferInstanceAs (Appends (pure ()))
  | saslHandshake cmd => exact inferInstanceAs (Appends (encode cmd.correlationId))
  | _ cmd => exact inferInstanceAs (Appends (_ >>= _))

/-- The encoders that check a reference do so before they write anything. -/
theorem kind_checked {k : RequestKind} {reference : String}
    (h : k.checkedReference = some reference) :
    ∃ w : Writer, Appends w ∧ encode k = (do checkReference reference; w : Writer) := by
  cases k with
  | queryOffset cmd =>
    obtain rfl := Option.some.inj h
    exact ⟨_, inferInstanceAs (Appends (_ >>= _)), rfl⟩
  | queryPublisherSequence cmd =>
    obtain rfl := Option.some.inj h
    exact ⟨_, inferInstanceAs (Appends (_ >>= _)), rfl⟩
  | storeOffset cmd =>
    obtain rfl := Option.some.inj h
    exact ⟨_, inferInstanceAs (Appends (_ >>= _)), rfl⟩
  | _ => exact absurd h (by simp [RequestKind.checkedReference])

/-- **The encoder of a command** appends its bytes, or fails before it has written one: when the
reference it checks is too long. -/
theorem kind_exec (k : RequestKind) (buf : Bytes) :
    (k.ReferenceFits ∧ ∃ bs, (encode k).exec buf = (.ok (), buf ++ bs)) ∨
      (¬ k.ReferenceFits ∧ ∃ e, (encode k).exec buf = (.error e, buf)) := by
  cases href : k.checkedReference with
  | none =>
    left
    refine ⟨fun reference hmem => ?_, (kind_appends href).appends buf⟩
    rw [href] at hmem
    exact absurd hmem (by simp)
  | some reference =>
    obtain ⟨w, hw, hencode⟩ := kind_checked href
    have hfits : k.ReferenceFits ↔ (asBytes reference).length < 256 := by
      simp [RequestKind.ReferenceFits, href]
    rw [hencode, WriteM.exec_bind, checkReference_exec, hfits]
    by_cases hlong : 256 ≤ (asBytes reference).length
    · right
      rw [if_pos hlong]
      exact ⟨by omega, _, rfl⟩
    · left
      rw [if_neg hlong]
      exact ⟨by omega, hw.appends buf⟩

/-! ## 2. Requests

The size and the header in front of the command, four bytes each, whatever the command is. -/

/-- What the encoder of a request writes before it calls the one of the command. -/
def Request.headerBytes (req : Request) : Bytes :=
  toBE 4 (encodedSize req).toNat ++ (toBE 2 req.header.key.toNat ++ toBE 2 req.header.version.toNat)

theorem headerBytes_length (req : Request) : req.headerBytes.length = 8 := by
  simp [Request.headerBytes]

theorem request_exec (req : Request) (buf : Bytes) :
    (encode req).exec buf = (encode req.kind).exec (buf ++ req.headerBytes) := by
  have hheader : ∀ buf : Bytes, (encode req.header).exec buf =
      (.ok (), buf ++ (toBE 2 req.header.key.toNat ++ toBE 2 req.header.version.toNat)) := by
    intro buf
    unfold instEncoderHeader
    simp [WriteM.exec_bind]
  rw [Request.headerBytes]
  show (do
    encode (encodedSize req.header + encodedSize req.kind)
    encode req.header
    encode req.kind : Writer).exec buf = _
  rw [WriteM.exec_bind, exec_u32]
  show (do
    encode req.header
    encode req.kind : Writer).exec _ = _
  rw [WriteM.exec_bind, hheader, List.append_assoc]
  rfl

end RabbitMqStream.Protocol

namespace RabbitMqStream.Client

open Wire Protocol

/-! ## 3. The codec

The codec hands its buffer to the encoder and keeps it as it is left.  It neither restores nor
truncates it when the encoder fails. -/

/-- **What a call of the codec leaves in the buffer**: the whole request, or, when it fails, the
first eight bytes of it. -/
theorem codec_encode_cases (req : Request) (buf : Bytes) :
    (req.kind.ReferenceFits ∧ ∃ bs, RabbitMqStreamCodec.encode req buf =
        (.ok (), buf ++ (req.headerBytes ++ bs))) ∨
      (¬ req.kind.ReferenceFits ∧ ∃ e, RabbitMqStreamCodec.encode req buf =
        (.error e, buf ++ req.headerBytes)) := by
  unfold RabbitMqStreamCodec.encode
  rw [request_exec]
  rcases kind_exec req.kind (buf ++ req.headerBytes) with ⟨hfits, bs, hok⟩ | ⟨hlong, e, herr⟩
  · left
    rw [hok]
    exact ⟨hfits, bs, by rw [List.append_assoc]⟩
  · right
    rw [herr]
    exact ⟨hlong, _, rfl⟩

/-- **A failed encode leaves the buffer as it was** exactly for the requests that do not fail. -/
theorem codec_encode_intact_iff (req : Request) (buf : Bytes) :
    (∀ e buf', RabbitMqStreamCodec.encode req buf = (.error e, buf') → buf' = buf) ↔
      req.kind.ReferenceFits := by
  rcases codec_encode_cases req buf with ⟨hfits, bs, hok⟩ | ⟨hlong, e, herr⟩
  · rw [hok]
    simp [hfits]
  · rw [herr]
    constructor
    · intro hintact
      have hsame := congrArg List.length (hintact e _ rfl)
      rw [List.length_append, headerBytes_length] at hsame
      omega
    · intro hfits
      exact absurd hfits hlong

/-- A query with a reference of 256 bytes. -/
def longQuery : Request :=
  Request.ofCommand (.queryOffset ⟨1, String.ofList (List.replicate 256 'r'), "s"⟩)

/-- It fails on an empty buffer, and leaves eight bytes there. -/
theorem longQuery_leaves : ∃ e, RabbitMqStreamCodec.encode longQuery [] =
    (.error e, [0, 0, 1, 13, 0, 11, 0, 1]) ∧
      ¬ ∀ e buf', RabbitMqStreamCodec.encode longQuery [] = (.error e, buf') → buf' = [] := by
  have hrun : RabbitMqStreamCodec.encode longQuery [] =
      (.error (.protocol (.encode (.maxSizeError 256))), [0, 0, 1, 13, 0, 11, 0, 1]) := by
    decide +kernel
  refine ⟨_, hrun, fun hintact => ?_⟩
  exact absurd (hintact _ _ hrun) (by decide)

/-- **The next request on the connection** is written behind the bytes that the failed one has
left. -/
theorem codec_encode_after_failure {failed next : Request} {buf buf' : Bytes} {e : ClientError}
    (hfail : RabbitMqStreamCodec.encode failed buf = (.error e, buf'))
    (hnext : next.kind.ReferenceFits) :
    ∃ bs, RabbitMqStreamCodec.encode next buf' =
      (.ok (), buf ++ (failed.headerBytes ++ (next.headerBytes ++ bs))) := by
  rcases codec_encode_cases failed buf with ⟨-, bs, hok⟩ | ⟨-, e', herr⟩
  · rw [hok] at hfail
    exact absurd hfail (by simp)
  · rw [herr] at hfail
    obtain ⟨-, rfl⟩ := Prod.mk.inj hfail
    rcases codec_encode_cases next (buf ++ failed.headerBytes) with ⟨-, bs, hok⟩ | ⟨hlong, -⟩
    · exact ⟨bs, by rw [hok, List.append_assoc]⟩
    · exact absurd hnext hlong

end RabbitMqStream.Client
