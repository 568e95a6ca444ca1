/-
# Round trips of the responses

The tests of the crate encode a response of each kind with random fields and decode it again.  Here
are all responses, with any header.

A body comes back on the conditions of `FieldRoundTrip` on its fields.  Three things are beyond
them:

* the header's key has to be one that chooses the decoder of this body, and no response bit may be
  set in it, since the decoder masks it out;
* an `Open` that is not `Ok` does not come back: its properties are written and not read;
* no consumer update request comes back: no key chooses it.

`response_roundTrips_iff` puts them together.

**The argument.**  The bodies are done as the commands of `RequestRoundTrip` are.  What is
different is the key: a body can stand behind several of them, and behind the key of another body
it may be read as that one.  So it has to be shown as well that nothing else comes out as this
body (`chosen_decodeKind`): the decoder chosen by a key makes bodies of one kind only, and the key
is one of those that choose it.
-/
import RabbitMqStream.Protocol.RequestRoundTrip
import RabbitMqStream.Protocol.ResponseEncode

namespace RabbitMqStream.Protocol

open Wire

/-! ## 1. Fields and records

The fields that responses have and requests do not, as in `FieldRoundTrip`: what they are
written as, and when they come back. -/

def brokerBytes (b : Broker) : Bytes :=
  toBE 2 b.reference.toNat ++ (stringBytes b.host ++ toBE 4 b.port.toNat)

def streamBytes (m : StreamMetadata) : Bytes :=
  stringBytes m.streamName ++ (toBE 2 m.code.toU16.toNat ++ (toBE 2 m.leaderReference.toNat ++
    vecBytes (fun n : UInt16 => toBE 2 n.toNat) m.replicasReferences))

def errorBytes (e : PublishingError) : Bytes :=
  toBE 8 e.publishingId.toNat ++ toBE 2 e.errorCode.toU16.toNat

/-- A record of a `Deliver`: the size of the message, and the message. -/
def recordBytes (m : Message) : Bytes :=
  toBE 4 (encodedSize m).toNat ++ Amqp.encode m.message

section Writers

variable (buf : Bytes)

@[simp] theorem exec_i8 (n : Int8) :
    (encode n).exec buf = (.ok (), buf ++ toBE 1 n.toUInt8.toNat) := rfl

@[simp] theorem exec_i32 (n : Int32) :
    (encode n).exec buf = (.ok (), buf ++ toBE 4 n.toUInt32.toNat) := rfl

@[simp] theorem exec_u16s (ns : List UInt16) :
    (encode ns).exec buf = (.ok (), buf ++ vecBytes (fun n : UInt16 => toBE 2 n.toNat) ns) :=
  exec_encodeVec buf (fun n buf => exec_u16 buf n) ns

@[simp] theorem exec_u64s (ns : List UInt64) :
    (encode ns).exec buf = (.ok (), buf ++ vecBytes (fun n : UInt64 => toBE 8 n.toNat) ns) :=
  exec_encodeVec buf (fun n buf => exec_u64 buf n) ns

@[simp] theorem exec_errors (es : List PublishingError) :
    (encode es).exec buf = (.ok (), buf ++ vecBytes errorBytes es) :=
  exec_encodeVec buf (fun e buf => by simp [encode, WriteM.exec_bind, errorBytes]) es

@[simp] theorem exec_brokers (bs : List Broker) :
    (encode bs).exec buf = (.ok (), buf ++ vecBytes brokerBytes bs) :=
  exec_encodeVec buf (fun b buf => by
    unfold instEncoderBroker
    simp [WriteM.exec_bind, brokerBytes]) bs

@[simp] theorem exec_streams (ms : List StreamMetadata) :
    (encode ms).exec buf = (.ok (), buf ++ vecBytes streamBytes ms) :=
  exec_encodeVec buf (fun m buf => by
    unfold instEncoderStreamMetadata
    simp [WriteM.exec_bind, streamBytes]) ms

@[simp] theorem exec_records (ms : List Message) :
    (WriteM.each (fun message : Message => do
      encode (encodedSize message)
      encode message) ms).exec buf = (.ok (), buf ++ ms.flatMap recordBytes) := by
  refine WriteM.exec_each (fun m buf => ?_) ms buf
  have hbody : (encode m : Writer) = WriteM.write (Amqp.encode m.message) := rfl
  simp [WriteM.exec_bind, hbody, recordBytes]

end Writers

section Readers

variable (rest out : Bytes)

@[simp] theorem decode_i8_iff (n x : Int8) :
    (decode : DecodeM Int8) (toBE 1 n.toUInt8.toNat ++ rest) = .ok (x, out) ↔
      x = n ∧ out = rest :=
  Reader.returns_iff (readI8_append n rest)

@[simp] theorem decode_i32_iff (n x : Int32) :
    (decode : DecodeM Int32) (toBE 4 n.toUInt32.toNat ++ rest) = .ok (x, out) ↔
      x = n ∧ out = rest :=
  Reader.returns_iff (readI32_append n rest)

/-- **A vector of numbers** comes back exactly when its count fits in an `i32`. -/
theorem decode_u16s_iff [Allocator] [Allocator.Ample] (ns : List UInt16) :
    (decode : DecodeM (List UInt16)) (vecBytes (fun n : UInt16 => toBE 2 n.toNat) ns ++ rest) =
        .ok (ns, out) ↔
      ns.length < 2 ^ 31 ∧ out = rest := by
  have hnumber : ∀ n ∈ ns, ∀ rest out : Bytes,
      (decode : DecodeM UInt16) (toBE 2 n.toNat ++ rest) = .ok (n, out) ↔ True ∧ out = rest := by
    simp
  refine (readVec_iff hnumber rest out).trans ?_
  simp

theorem decode_u64s_iff [Allocator] [Allocator.Ample] (ns : List UInt64) :
    (decode : DecodeM (List UInt64)) (vecBytes (fun n : UInt64 => toBE 8 n.toNat) ns ++ rest) =
        .ok (ns, out) ↔
      ns.length < 2 ^ 31 ∧ out = rest := by
  have hnumber : ∀ n ∈ ns, ∀ rest out : Bytes,
      (decode : DecodeM UInt64) (toBE 8 n.toNat ++ rest) = .ok (n, out) ↔ True ∧ out = rest := by
    simp
  refine (readVec_iff hnumber rest out).trans ?_
  simp

theorem decode_errors_iff (es : List PublishingError) :
    (decode : DecodeM (List PublishingError)) (vecBytes errorBytes es ++ rest) = .ok (es, out) ↔
      es.length < 2 ^ 32 ∧ out = rest := by
  have herror : ∀ e ∈ es, ∀ rest out : Bytes,
      (decode : DecodeM PublishingError) (errorBytes e ++ rest) = .ok (e, out) ↔
        True ∧ out = rest := by
    rintro ⟨id, code⟩ - rest out
    rw [errorBytes, List.append_assoc]
    refine (Eq.congr_left (Reader.bind_of_ok (readU64_append id _))).trans ?_
    simp [Reader.bind_eq_ok, -bind_pure_comp]
  have hcount := countOf_eq es.length
  have hloop := loop_push_iff herror (countOf es.length) [] rest out
  rw [List.nil_append] at hloop
  rw [vecBytes, List.append_assoc]
  refine (Eq.congr_left (Reader.bind_of_ok (readU32_toBE _ _))).trans (hloop.trans ?_)
  rw [show countOf es.length = es.length ↔ es.length < 2 ^ 32 by omega]
  simp

theorem decode_broker_iff {b : Broker} (h : Short b.host) :
    (decode : DecodeM Broker) (brokerBytes b ++ rest) = .ok (b, out) ↔
      b.host ≠ "" ∧ out = rest := by
  obtain ⟨reference, host, port⟩ := b
  unfold instDecoderBroker brokerBytes
  simp [Reader.bind_eq_ok, decode_string_iff h, -bind_pure_comp]

theorem decode_stream_iff [Allocator] [Allocator.Ample] {m : StreamMetadata}
    (h : Short m.streamName) :
    (decode : DecodeM StreamMetadata) (streamBytes m ++ rest) = .ok (m, out) ↔
      (m.streamName ≠ "" ∧ m.replicasReferences.length < 2 ^ 31) ∧ out = rest := by
  obtain ⟨name, code, leader, replicas⟩ := m
  unfold instDecoderStreamMetadataOfAllocator streamBytes
  simp [Reader.bind_eq_ok, decode_string_iff h, decode_u16s_iff, and_comm, and_left_comm,
    -bind_pure_comp]

end Readers

/-! ## 2. The records of a `Deliver`

The bytes of a message are a vector of their own inside the chunk.  A record comes back when the
message does and its size fits in an `i32`. -/

section Records

variable [Amqp.Chrono] [Allocator] [Allocator.Ample]

/-- The message comes back on its own, and its size is the number of its bytes. -/
def Message.RoundTrips (m : Message) : Prop :=
  Message.decode (Amqp.encode m.message) = .ok m ∧ Amqp.Exact m.message

/-- **A record** comes back exactly when its size fits in an `i32`. -/
theorem readRecord_iff {m : Message} (h : m.RoundTrips) (rest out : Bytes) :
    readRecord (recordBytes m ++ rest) = .ok (m, out) ↔
      (encodedSize m).toNat < 2 ^ 31 ∧ out = rest := by
  obtain ⟨hback, hsize⟩ := h
  have hlt := (Amqp.encodedSize m.message).toNat_lt
  have hsame : (encodedSize m).toNat = (Amqp.encode m.message).length := hsize
  unfold Amqp.Exact at hsize
  unfold recordBytes
  rw [List.append_assoc, hsame]
  rw [hsize] at hlt
  generalize Amqp.encode m.message = body at *
  by_cases hfits : body.length < 2 ^ 31
  · refine (Eq.congr_left (Reader.bind_of_ok (readVec_bytes hfits rest))).trans ?_
    have hmessage : decodeBody body rest = .ok (m, rest) := by
      rw [decodeBody, hback]
      rfl
    rw [Reader.returns_iff hmessage]
    simp only [hfits, true_and]
  · have hneg := readVec_negative (α := UInt8) (n := body.length) (by omega) (body ++ rest)
    constructor
    · intro hrun
      obtain ⟨bs, mid, hread, -⟩ := Reader.bind_eq_ok.mp hrun
      rw [hneg] at hread
      exact absurd hread (by simp)
    · rintro ⟨hlen, -⟩
      exact absurd hlen hfits

/-- The records of a chunk come back exactly when each of them does and their number fits in a
`u32`. -/
theorem readRecords_iff {ms : List Message} (h : ∀ m ∈ ms, m.RoundTrips) (rest out : Bytes) :
    pushLoop readRecord (UInt32.ofNat ms.length).toNat (ms.flatMap recordBytes ++ rest) =
        .ok (ms, out) ↔
      (ms.length < 2 ^ 32 ∧ ∀ m ∈ ms, (encodedSize m).toNat < 2 ^ 31) ∧ out = rest := by
  have hcount := countOf_eq ms.length
  have hloop := loop_push_iff (fun m hm => readRecord_iff (h m hm)) (countOf ms.length) [] rest out
  rw [List.nil_append] at hloop
  refine hloop.trans ?_
  rw [show countOf ms.length = ms.length ↔ ms.length < 2 ^ 32 by omega]

end Records

/-! ## 3. Bodies

One statement for each body: its decoder, on what its encoder has written, returns it exactly
when it fits.  Nothing of the frame is needed. -/

/-- The bytes that the encoder appends are decoded as `x` again, with what follows them left,
exactly when the condition holds. -/
def Restores {α : Type} [Encoder α] [Decoder α] (x : α) (fits : Prop) : Prop :=
  ∃ bs, (∀ buf, (encode x).exec buf = (.ok (), buf ++ bs)) ∧
    ∀ rest, (decode : DecodeM α) (bs ++ rest) = .ok (x, rest) ↔ fits

section Bodies

variable {α : Type} [Encoder α] [Decoder α]

theorem Restores.of_exec {x : α} {fits : Prop} {bs : Bytes}
    (hw : ∀ buf, (encode x).exec buf = (.ok (), buf ++ bs))
    (hr : ∀ rest out, (decode : DecodeM α) (bs ++ rest) = .ok (x, out) ↔ fits ∧ out = rest) :
    Restores x fits :=
  ⟨bs, hw, fun rest => by rw [hr, and_iff_left rfl]⟩

/-- The bodies that are a correlation id, a code and a third field. -/
theorem restores_coded {β : Type} (mk : UInt32 → ResponseCode → β → α) {write : β → Writer}
    {read : DecodeM β}
    (hencode : ∀ id code y, encode (mk id code y) = do
      encode id
      encode code
      write y)
    (hdecode : (decode : DecodeM α) = do
      let id ← decode
      let code ← decode
      let y ← read
      pure (mk id code y))
    (hinj : ∀ id code y id' code' y',
      mk id code y = mk id' code' y' ↔ id = id' ∧ code = code' ∧ y = y')
    (id : UInt32) (code : ResponseCode) {y : β} {fits : Prop} {bs : Bytes}
    (hw : ∀ buf, (write y).exec buf = (.ok (), buf ++ bs))
    (hr : ∀ rest out, read (bs ++ rest) = .ok (y, out) ↔ fits ∧ out = rest) :
    Restores (mk id code y) fits := by
  have hexec : ∀ buf, (encode (mk id code y)).exec buf =
      (.ok (), buf ++ (toBE 4 id.toNat ++ (toBE 2 code.toU16.toNat ++ bs))) := by
    intro buf
    simp [hencode, WriteM.exec_bind, hw]
  refine .of_exec hexec fun rest out => ?_
  simp [hdecode, Reader.bind_eq_ok, hinj, hr, -bind_pure_comp]

end Bodies

theorem saslHandshakeResponse_restores {r : SaslHandshakeResponse}
    (h : ∀ s ∈ r.mechanisms, Short s) : Restores r (StringsFit r.mechanisms) :=
  restores_coded SaslHandshakeResponse.mk (fun _ _ _ => rfl) rfl (by simp) r.correlationId r.code
    (exec_strings · r.mechanisms) (decode_strings_iff h)

theorem peerPropertiesResponse_restores [Allocator] [Allocator.Ample] {r : PeerPropertiesResponse}
    (h : MapShort r.serverProperties) : Restores r (MapFits r.serverProperties) :=
  restores_coded PeerPropertiesResponse.mk (fun _ _ _ => rfl) rfl (by simp) r.correlationId r.code
    (exec_map · r.serverProperties) (decode_map_iff h)

theorem queryOffsetResponse_restores {r : QueryOffsetResponse} : Restores r True :=
  restores_coded QueryOffsetResponse.mk (fun _ _ _ => rfl) rfl (by simp) r.correlationId
    r.responseCode (exec_u64 · r.offset) (by simp)

theorem queryPublisherResponse_restores {r : QueryPublisherResponse} : Restores r True :=
  restores_coded QueryPublisherResponse.mk (fun _ _ _ => rfl) rfl (by simp) r.correlationId
    r.responseCode (exec_u64 · r.sequence) (by simp)

theorem exchangeCommandVersionsResponse_restores [Allocator] [Allocator.Ample]
    {r : ExchangeCommandVersionsResponse} :
    Restores r (r.commands.length < 2 ^ 31) :=
  restores_coded ExchangeCommandVersionsResponse.mk (fun _ _ _ => rfl) rfl (by simp)
    r.correlationId r.responseCode (exec_versions · r.commands) (decode_versions_iff _)

theorem superStreamPartitionsResponse_restores {r : SuperStreamPartitionsResponse}
    (h : ∀ s ∈ r.streams, Short s) : Restores r (StringsFit r.streams) :=
  restores_coded SuperStreamPartitionsResponse.mk (fun _ _ _ => rfl) rfl (by simp) r.correlationId
    r.responseCode (exec_strings · r.streams) (decode_strings_iff h)

theorem superStreamRouteResponse_restores {r : SuperStreamRouteResponse}
    (h : ∀ s ∈ r.streams, Short s) : Restores r (StringsFit r.streams) :=
  restores_coded SuperStreamRouteResponse.mk (fun _ _ _ => rfl) rfl (by simp) r.correlationId
    r.responseCode (exec_strings · r.streams) (decode_strings_iff h)

/-- **An `Open`** comes back exactly when it is `Ok` and its properties do: the decoder reads them
in no other case. -/
theorem openResponse_restores [Allocator] [Allocator.Ample] {r : OpenResponse}
    (h : MapShort r.connectionProperties) :
    Restores r (r.code = .ok ∧ MapFits r.connectionProperties) := by
  obtain ⟨id, code, properties⟩ := r
  refine ⟨toBE 4 id.toNat ++ (toBE 2 code.toU16.toNat ++ vecBytes entryBytes properties.entries),
    fun buf => ?_, fun rest => ?_⟩
  · unfold instEncoderOpenResponse
    simp [WriteM.exec_bind]
  · rw [List.append_assoc, List.append_assoc]
    refine (Eq.congr_left (Reader.bind_of_ok ((decode_u32_iff _ _ id id).mpr ⟨rfl, rfl⟩))).trans ?_
    refine (Eq.congr_left
      (Reader.bind_of_ok ((decode_code_iff _ _ code code).mpr ⟨rfl, rfl⟩))).trans ?_
    by_cases hcode : code = .ok
    · rw [if_pos hcode]
      simp [Reader.bind_eq_ok, decode_map_iff h, MapFits, hcode, -bind_pure_comp]
    · rw [if_neg hcode]
      have hcount : 4 ≤ (vecBytes entryBytes properties.entries).length := by
        rw [vecBytes, List.length_append, toBE_length]
        exact Nat.le_add_right ..
      constructor
      · intro hrun
        obtain ⟨-, hrest⟩ := Prod.mk.inj (Except.ok.inj hrun)
        have hlen := congrArg List.length hrest
        rw [List.length_append] at hlen
        omega
      · rintro ⟨hok, -⟩
        exact absurd hok hcode

theorem closeResponse_restores {r : CloseResponse} : Restores r True := by
  obtain ⟨id, code⟩ := r
  have hw : ∀ buf, (encode (⟨id, code⟩ : CloseResponse)).exec buf =
      (.ok (), buf ++ (toBE 4 id.toNat ++ toBE 2 code.toU16.toNat)) := by
    intro buf
    unfold instEncoderCloseResponse
    simp [WriteM.exec_bind]
  refine .of_exec hw fun rest out => ?_
  unfold instDecoderCloseResponse
  simp [Reader.bind_eq_ok, -bind_pure_comp]

theorem genericResponse_restores {r : GenericResponse} : Restores r True := by
  obtain ⟨id, code⟩ := r
  have hw : ∀ buf, (encode (⟨id, code⟩ : GenericResponse)).exec buf =
      (.ok (), buf ++ (toBE 4 id.toNat ++ toBE 2 code.toU16.toNat)) := by
    intro buf
    unfold instEncoderGenericResponse
    simp [WriteM.exec_bind]
  refine .of_exec hw fun rest out => ?_
  unfold instDecoderGenericResponse
  simp [Reader.bind_eq_ok, -bind_pure_comp]

theorem tunesCommand_restores {r : TunesCommand} : Restores r True := by
  obtain ⟨size, heartbeat⟩ := r
  have hw : ∀ buf, (encode (⟨size, heartbeat⟩ : TunesCommand)).exec buf =
      (.ok (), buf ++ (toBE 4 size.toNat ++ toBE 4 heartbeat.toNat)) := by
    intro buf
    unfold instEncoderTunesCommand
    simp [WriteM.exec_bind]
  refine .of_exec hw fun rest out => ?_
  unfold instDecoderTunesCommand
  simp [Reader.bind_eq_ok, -bind_pure_comp]

theorem heartbeatResponse_restores {r : HeartbeatResponse} : Restores r True :=
  ⟨[], fun buf => by rw [List.append_nil]; rfl, fun _ => iff_of_true rfl trivial⟩

theorem creditResponse_restores {r : CreditResponse} : Restores r True := by
  obtain ⟨code, subscription⟩ := r
  have hw : ∀ buf, (encode (⟨code, subscription⟩ : CreditResponse)).exec buf =
      (.ok (), buf ++ (toBE 2 code.toU16.toNat ++ toBE 1 subscription.toNat)) := by
    intro buf
    unfold instEncoderCreditResponse
    simp [WriteM.exec_bind]
  refine .of_exec hw fun rest out => ?_
  unfold instDecoderCreditResponse
  simp [Reader.bind_eq_ok, -bind_pure_comp]

theorem consumerUpdateCommand_restores {r : ConsumerUpdateCommand} : Restores r True := by
  obtain ⟨id, subscription, active⟩ := r
  have hw : ∀ buf, (encode (⟨id, subscription, active⟩ : ConsumerUpdateCommand)).exec buf =
      (.ok (), buf ++ (toBE 4 id.toNat ++ (toBE 1 subscription.toNat ++ toBE 1 active.toNat))) := by
    intro buf
    unfold instEncoderConsumerUpdateCommand
    simp [WriteM.exec_bind]
  refine .of_exec hw fun rest out => ?_
  unfold instDecoderConsumerUpdateCommand
  simp [Reader.bind_eq_ok, -bind_pure_comp]

theorem consumerUpdateRequestCommand_restores {r : ConsumerUpdateRequestCommand} :
    Restores r True := by
  obtain ⟨id, code, offset⟩ := r
  have hw : ∀ buf, (encode (⟨id, code, offset⟩ : ConsumerUpdateRequestCommand)).exec buf =
      (.ok (), buf ++ (toBE 4 id.toNat ++ (toBE 2 code.toNat ++ offsetBytes offset))) := by
    intro buf
    unfold instEncoderConsumerUpdateRequestCommand
    simp [WriteM.exec_bind]
  refine .of_exec hw fun rest out => ?_
  unfold instDecoderConsumerUpdateRequestCommand
  simp [Reader.bind_eq_ok, -bind_pure_comp]

theorem metadataUpdateCommand_restores {r : MetadataUpdateCommand} (h : Short r.stream) :
    Restores r (r.stream ≠ "") := by
  obtain ⟨code, stream⟩ := r
  have hw : ∀ buf, (encode (⟨code, stream⟩ : MetadataUpdateCommand)).exec buf =
      (.ok (), buf ++ (toBE 2 code.toU16.toNat ++ stringBytes stream)) := by
    intro buf
    unfold instEncoderMetadataUpdateCommand
    simp [WriteM.exec_bind]
  refine .of_exec hw fun rest out => ?_
  unfold instDecoderMetadataUpdateCommand
  simp [Reader.bind_eq_ok, decode_string_iff h, and_comm, -bind_pure_comp]

theorem publishConfirm_restores [Allocator] [Allocator.Ample] {r : PublishConfirm} :
    Restores r (r.publishingIds.length < 2 ^ 31) := by
  obtain ⟨publisher, ids⟩ := r
  have hw : ∀ buf, (encode (⟨publisher, ids⟩ : PublishConfirm)).exec buf =
      (.ok (), buf ++ (toBE 1 publisher.toNat ++
        vecBytes (fun n : UInt64 => toBE 8 n.toNat) ids)) := by
    intro buf
    unfold instEncoderPublishConfirm
    simp [WriteM.exec_bind]
  refine .of_exec hw fun rest out => ?_
  unfold instDecoderPublishConfirmOfAllocator
  simp [Reader.bind_eq_ok, decode_u64s_iff, -bind_pure_comp]

theorem publishErrorResponse_restores {r : PublishErrorResponse} :
    Restores r (r.publishingErrors.length < 2 ^ 32) := by
  obtain ⟨publisher, errors⟩ := r
  have hw : ∀ buf, (encode (⟨publisher, errors⟩ : PublishErrorResponse)).exec buf =
      (.ok (), buf ++ (toBE 1 publisher.toNat ++ vecBytes errorBytes errors)) := by
    intro buf
    unfold instEncoderPublishErrorResponse
    simp [WriteM.exec_bind]
  refine .of_exec hw fun rest out => ?_
  unfold instDecoderPublishErrorResponse
  simp [Reader.bind_eq_ok, decode_errors_iff, -bind_pure_comp]

/-- What a `Metadata` needs: neither a host nor a stream without a name. -/
structure MetadataResponse.Fits (r : MetadataResponse) : Prop where
  brokers : r.brokers.length < 2 ^ 31
  hosts : ∀ b ∈ r.brokers, b.host ≠ ""
  streams : r.streamMetadata.length < 2 ^ 31
  names : ∀ m ∈ r.streamMetadata, m.streamName ≠ "" ∧ m.replicasReferences.length < 2 ^ 31

theorem metadataResponse_restores [Allocator] [Allocator.Ample] {r : MetadataResponse}
    (hb : ∀ b ∈ r.brokers, Short b.host)
    (hm : ∀ m ∈ r.streamMetadata, Short m.streamName) : Restores r r.Fits := by
  obtain ⟨id, brokers, streams⟩ := r
  have hw : ∀ buf, (encode (⟨id, brokers, streams⟩ : MetadataResponse)).exec buf =
      (.ok (), buf ++ (toBE 4 id.toNat ++ (vecBytes brokerBytes brokers ++
        vecBytes streamBytes streams))) := by
    intro buf
    unfold instEncoderMetadataResponse
    simp [WriteM.exec_bind]
  refine .of_exec hw fun rest out => ?_
  have hbrokers := readVec_iff fun b hmem rest out => decode_broker_iff rest out (hb b hmem)
  have hstreams := readVec_iff fun m hmem rest out => decode_stream_iff rest out (hm m hmem)
  have hfits : MetadataResponse.Fits ⟨id, brokers, streams⟩ ↔
      (brokers.length < 2 ^ 31 ∧ ∀ b ∈ brokers, b.host ≠ "") ∧ streams.length < 2 ^ 31 ∧
        ∀ m ∈ streams, m.streamName ≠ "" ∧ m.replicasReferences.length < 2 ^ 31 :=
    ⟨fun h => ⟨⟨h.brokers, h.hosts⟩, h.streams, h.names⟩,
      fun h => ⟨h.1.1, h.1.2, h.2.1, h.2.2⟩⟩
  rw [hfits]
  unfold instDecoderMetadataResponseOfAllocator
  simp [Reader.bind_eq_ok, hbrokers, hstreams, and_assoc, -bind_pure_comp]

section Deliver

/-- What stands in front of the records of a chunk. -/
def deliverFront (r : DeliverCommand) : Bytes :=
  toBE 1 r.subscriptionId.toNat ++ (toBE 1 r.magicVersion.toUInt8.toNat ++
    (toBE 1 r.chunkType.toNat ++ (toBE 2 r.numEntries.toNat ++
      (toBE 4 (UInt32.ofNat r.messages.length).toNat ++ (toBE 8 r.timestamp.toNat ++
        (toBE 8 r.epoch.toNat ++ (toBE 8 r.chunkFirstOffset.toNat ++
          (toBE 4 r.chunkCrc.toUInt32.toNat ++ (toBE 4 r.dataLength.toNat ++
            (toBE 4 r.trailerLength.toNat ++ toBE 4 r.reserved.toNat))))))))))

theorem exec_deliver (r : DeliverCommand) (buf : Bytes) :
    (encode r).exec buf = (.ok (), buf ++ (deliverFront r ++ r.messages.flatMap recordBytes)) := by
  unfold instEncoderDeliverCommand deliverFront
  simp only [WriteM.exec_bind, exec_u8, exec_i8, exec_u16, exec_u32, exec_u64, exec_i32,
    exec_records, List.append_assoc]

variable [Amqp.Chrono] [Allocator] [Allocator.Ample]

theorem deliverCommand_restores {r : DeliverCommand} (h : ∀ m ∈ r.messages, m.RoundTrips) :
    Restores r (r.messages.length < 2 ^ 32 ∧
      ∀ m ∈ r.messages, (encodedSize m).toNat < 2 ^ 31) := by
  refine .of_exec (exec_deliver r) fun rest out => ?_
  unfold deliverFront
  obtain ⟨subscription, magic, chunkType, entries, timestamp, epoch, offset, crc, trailer,
    reserved, messages⟩ := r
  generalize DeliverCommand.dataLength _ = length
  unfold instDecoderDeliverCommandOfChronoOfAllocator
  simp [Reader.bind_eq_ok, withCapacity_iff, readRecords_iff h, and_assoc, -bind_pure_comp,
    -UInt32.toNat_ofNat']

end Deliver

/-! ## 4. Frames

The key in the header chooses the body.  A frame comes back when its key is one of those that
stand for the body that it has, and the body comes back. -/

namespace ResponseKind

/-- The keys that choose the decoder of this body, as `Response::decode` lists them. -/
def keys : ResponseKind → List ℕ
  | .open _ => [21]
  | .close _ => [22]
  | .peerProperties _ => [17]
  | .saslHandshake _ => [18]
  | .generic _ => [1, 6, 19, 7, 12, 13, 29, 30, 32794, 14]
  | .tunes _ => [20]
  | .deliver _ => [8]
  | .heartbeat _ => [23]
  | .metadata _ => [15]
  | .metadataUpdate _ => [16]
  | .publishConfirm _ => [3]
  | .publishError _ => [4]
  | .queryOffset _ => [11]
  | .credit _ => [9]
  | .queryPublisherSequence _ => [5]
  | .exchangeCommandVersions _ => [27]
  | .superStreamPartitions _ => [25]
  | .superStreamRoute _ => [24]
  | .consumerUpdate _ => [26]
  | .consumerUpdateRequest _ => []

/-- The strings that are written into a body. -/
def strings : ResponseKind → List String
  | .open cmd => mapStrings cmd.connectionProperties
  | .peerProperties cmd => mapStrings cmd.serverProperties
  | .saslHandshake cmd => cmd.mechanisms
  | .metadata cmd => cmd.brokers.map Broker.host ++ cmd.streamMetadata.map StreamMetadata.streamName
  | .metadataUpdate cmd => [cmd.stream]
  | .superStreamPartitions cmd => cmd.streams
  | .superStreamRoute cmd => cmd.streams
  | .close _ | .generic _ | .tunes _ | .deliver _ | .heartbeat _ | .publishConfirm _
  | .publishError _ | .queryOffset _ | .credit _ | .queryPublisherSequence _
  | .exchangeCommandVersions _ | .consumerUpdate _ | .consumerUpdateRequest _ => []

def messages : ResponseKind → List Message
  | .deliver cmd => cmd.messages
  | _ => []

/-- What the fields of a body have to be for it to come back. -/
def Fits : ResponseKind → Prop
  | .open cmd => cmd.code = .ok ∧ MapFits cmd.connectionProperties
  | .peerProperties cmd => MapFits cmd.serverProperties
  | .saslHandshake cmd => StringsFit cmd.mechanisms
  | .deliver cmd => cmd.messages.length < 2 ^ 32 ∧
      ∀ m ∈ cmd.messages, (encodedSize m).toNat < 2 ^ 31
  | .metadata cmd => cmd.Fits
  | .metadataUpdate cmd => cmd.stream ≠ ""
  | .publishConfirm cmd => cmd.publishingIds.length < 2 ^ 31
  | .publishError cmd => cmd.publishingErrors.length < 2 ^ 32
  | .exchangeCommandVersions cmd => cmd.commands.length < 2 ^ 31
  | .superStreamPartitions cmd => StringsFit cmd.streams
  | .superStreamRoute cmd => StringsFit cmd.streams
  | .close _ | .generic _ | .tunes _ | .heartbeat _ | .queryOffset _ | .credit _
  | .queryPublisherSequence _ | .consumerUpdate _ | .consumerUpdateRequest _ => True

end ResponseKind

/-- A decoder of bodies that the key is one of the keys of. -/
def Chosen (key : UInt16) (read : DecodeM ResponseKind) : Prop :=
  ∀ k b out, read b = .ok (k, out) → key.toNat ∈ k.keys

theorem chosen_decodeAs {α : Type} [Decoder α] {variant : α → ResponseKind} {key : UInt16}
    (h : ∀ x, key.toNat ∈ (variant x).keys) : Chosen key (decodeAs variant) := by
  intro k b out hread
  obtain ⟨x, mid, -, hpure⟩ := Reader.bind_eq_ok.mp hread
  obtain ⟨rfl, -⟩ := Prod.mk.inj (Except.ok.inj hpure)
  exact h x

section Frames

variable [Amqp.Chrono] [Allocator] [Allocator.Ample]

omit [Allocator.Ample] in
/-- **The key of a body that is decoded** is one of those that choose it. -/
theorem chosen_decodeKind (key : UInt16) : Chosen key (decodeKind key) := by
  unfold decodeKind
  split
  case h_29 =>
    intro k b out hread
    exact absurd hread (by simp)
  all_goals exact chosen_decodeAs fun _ => by simp [ResponseKind.keys, *]

/-- What comes back of a body behind a key. -/
def KindRestores (k : ResponseKind) (fits : Prop) : Prop :=
  ∃ bs, (∀ buf, (encode k).exec buf = (.ok (), buf ++ bs)) ∧
    ∀ key rest, decodeKind key (bs ++ rest) = .ok (k, rest) ↔ key.toNat ∈ k.keys ∧ fits

omit [Allocator.Ample] in
/-- **A body comes back behind its keys** exactly when it comes back. -/
theorem Restores.kind {α : Type} [Encoder α] [Decoder α] {variant : α → ResponseKind} {cmd : α}
    {fits : Prop} (h : Restores cmd fits) (hencode : encode (variant cmd) = encode cmd)
    (hdecode : ∀ key : UInt16, key.toNat ∈ (variant cmd).keys → decodeKind key = decodeAs variant)
    (hinj : ∀ x y, variant x = variant y → x = y) : KindRestores (variant cmd) fits := by
  obtain ⟨bs, hw, hr⟩ := h
  refine ⟨bs, hencode ▸ hw, fun key rest => ?_⟩
  constructor
  · intro hread
    have hkey := chosen_decodeKind key _ _ _ hread
    rw [hdecode key hkey] at hread
    obtain ⟨x, mid, hx, hpure⟩ := Reader.bind_eq_ok.mp hread
    obtain ⟨hvariant, rfl⟩ := Prod.mk.inj (Except.ok.inj hpure)
    rw [hinj _ _ hvariant] at hx
    exact ⟨hkey, (hr mid).mp hx⟩
  · rintro ⟨hkey, hfits⟩
    rw [hdecode key hkey]
    exact Reader.bind_of_ok ((hr rest).mpr hfits)

omit [Allocator.Ample] in
/-- The keys of a body choose its decoder. -/
theorem decodeKind_of_mem {key : UInt16} {n : ℕ} {read : DecodeM ResponseKind}
    (h : key.toNat ∈ [n]) (hn : decodeKind (UInt16.ofNat n) = read) : decodeKind key = read := by
  rw [← hn, ← List.mem_singleton.mp h, UInt16.ofNat_toNat]

/-- Every body, one case for each of the 20. -/
theorem kind_restores (k : ResponseKind) (hs : ∀ s ∈ k.strings, Short s)
    (hm : ∀ m ∈ k.messages, m.RoundTrips) : KindRestores k k.Fits := by
  cases k with
  | «open» cmd =>
    exact (openResponse_restores (mapShort_of_strings hs)).kind rfl
      (fun _ hkey => decodeKind_of_mem hkey rfl) fun _ _ => ResponseKind.open.inj
  | close cmd =>
    exact closeResponse_restores.kind rfl (fun _ hkey => decodeKind_of_mem hkey rfl)
      fun _ _ => ResponseKind.close.inj
  | peerProperties cmd =>
    exact (peerPropertiesResponse_restores (mapShort_of_strings hs)).kind rfl
      (fun _ hkey => decodeKind_of_mem hkey rfl) fun _ _ => ResponseKind.peerProperties.inj
  | saslHandshake cmd =>
    exact (saslHandshakeResponse_restores hs).kind rfl
      (fun _ hkey => decodeKind_of_mem hkey rfl) fun _ _ => ResponseKind.saslHandshake.inj
  | generic cmd =>
    refine genericResponse_restores.kind rfl (fun key hkey => ?_)
      fun _ _ => ResponseKind.generic.inj
    simp only [ResponseKind.keys, List.mem_cons, List.not_mem_nil, or_false] at hkey
    rcases hkey with h | h | h | h | h | h | h | h | h | h
    all_goals exact decodeKind_of_mem (List.mem_singleton.mpr h) rfl
  | tunes cmd =>
    exact tunesCommand_restores.kind rfl (fun _ hkey => decodeKind_of_mem hkey rfl)
      fun _ _ => ResponseKind.tunes.inj
  | deliver cmd =>
    exact (deliverCommand_restores hm).kind rfl
      (fun _ hkey => decodeKind_of_mem hkey rfl) fun _ _ => ResponseKind.deliver.inj
  | heartbeat cmd =>
    exact heartbeatResponse_restores.kind rfl (fun _ hkey => decodeKind_of_mem hkey rfl)
      fun _ _ => ResponseKind.heartbeat.inj
  | metadata cmd =>
    obtain ⟨hhosts, hnames⟩ := List.forall_mem_append.mp hs
    exact (metadataResponse_restores (List.forall_mem_map.mp hhosts)
      (List.forall_mem_map.mp hnames)).kind rfl
      (fun _ hkey => decodeKind_of_mem hkey rfl) fun _ _ => ResponseKind.metadata.inj
  | metadataUpdate cmd =>
    exact (metadataUpdateCommand_restores (hs _ (by simp [ResponseKind.strings]))).kind rfl
      (fun _ hkey => decodeKind_of_mem hkey rfl) fun _ _ => ResponseKind.metadataUpdate.inj
  | publishConfirm cmd =>
    exact publishConfirm_restores.kind rfl (fun _ hkey => decodeKind_of_mem hkey rfl)
      fun _ _ => ResponseKind.publishConfirm.inj
  | publishError cmd =>
    exact publishErrorResponse_restores.kind rfl (fun _ hkey => decodeKind_of_mem hkey rfl)
      fun _ _ => ResponseKind.publishError.inj
  | queryOffset cmd =>
    exact queryOffsetResponse_restores.kind rfl (fun _ hkey => decodeKind_of_mem hkey rfl)
      fun _ _ => ResponseKind.queryOffset.inj
  | queryPublisherSequence cmd =>
    exact queryPublisherResponse_restores.kind rfl (fun _ hkey => decodeKind_of_mem hkey rfl)
      fun _ _ => ResponseKind.queryPublisherSequence.inj
  | credit cmd =>
    exact creditResponse_restores.kind rfl (fun _ hkey => decodeKind_of_mem hkey rfl)
      fun _ _ => ResponseKind.credit.inj
  | exchangeCommandVersions cmd =>
    exact exchangeCommandVersionsResponse_restores.kind rfl
      (fun _ hkey => decodeKind_of_mem hkey rfl) fun _ _ => ResponseKind.exchangeCommandVersions.inj
  | superStreamPartitions cmd =>
    exact (superStreamPartitionsResponse_restores hs).kind rfl
      (fun _ hkey => decodeKind_of_mem hkey rfl) fun _ _ => ResponseKind.superStreamPartitions.inj
  | superStreamRoute cmd =>
    exact (superStreamRouteResponse_restores hs).kind rfl
      (fun _ hkey => decodeKind_of_mem hkey rfl) fun _ _ => ResponseKind.superStreamRoute.inj
  | consumerUpdate cmd =>
    exact consumerUpdateCommand_restores.kind rfl (fun _ hkey => decodeKind_of_mem hkey rfl)
      fun _ _ => ResponseKind.consumerUpdate.inj
  | consumerUpdateRequest cmd =>
    exact consumerUpdateRequestCommand_restores.kind rfl
      (fun _ hkey => absurd hkey (by simp [ResponseKind.keys]))
      fun _ _ => ResponseKind.consumerUpdateRequest.inj

omit [Amqp.Chrono] [Allocator] [Allocator.Ample] in
/-- What the encoder of a frame writes, when that of the body writes `bs`. -/
theorem exec_response (key version : UInt16) {k : ResponseKind} {bs : Bytes}
    (h : ∀ buf, (encode k).exec buf = (.ok (), buf ++ bs)) :
    ∃ size : UInt32, (encode (⟨⟨key, version⟩, k⟩ : Response)).exec [] =
      (.ok (), toBE 4 size.toNat ++ (toBE 2 key.toNat ++ (toBE 2 version.toNat ++ bs))) := by
  unfold instEncoderResponse instEncoderHeader
  simp only [WriteM.exec_bind, exec_u32, exec_u16, h, List.append_assoc, List.nil_append]
  exact ⟨_, rfl⟩

omit [Allocator.Ample] in
/-- A frame is decoded as its header and the body that its key chooses. -/
theorem decode_response_iff {size : UInt32} {key version : UInt16} {k : ResponseKind}
    {b rest : Bytes} :
    (decode : DecodeM Response)
        (toBE 4 size.toNat ++ (toBE 2 key.toNat ++ (toBE 2 version.toNat ++ b))) =
          .ok (⟨⟨key, version⟩, k⟩, rest) ↔
      extractResponseCode key = key ∧ decodeKind key b = .ok (k, rest) := by
  refine (Eq.congr_left (Reader.bind_of_ok (readU32_append size _))).trans ?_
  have hheader : (decode : DecodeM Header)
      (toBE 2 key.toNat ++ (toBE 2 version.toNat ++ b)) =
        .ok (⟨extractResponseCode key, version⟩, b) := by
    refine (Reader.bind_of_ok (readU16_append key _)).trans ?_
    exact Reader.bind_of_ok (readU16_append version _)
  refine (Eq.congr_left (Reader.bind_of_ok hheader)).trans ?_
  constructor
  · intro hread
    obtain ⟨kind, mid, hkind, hpure⟩ := Reader.bind_eq_ok.mp hread
    obtain ⟨hresponse, rfl⟩ := Prod.mk.inj (Except.ok.inj hpure)
    obtain ⟨hheader, rfl⟩ := Response.mk.inj hresponse
    have hmask : extractResponseCode key = key := (Header.mk.inj hheader).1
    rw [hmask] at hkind
    exact ⟨hmask, hkind⟩
  · rintro ⟨hmask, hkind⟩
    rw [hmask]
    exact Reader.bind_of_ok hkind

/-- **Which responses come back.**  The encoder of a response never fails, and what it writes is
decoded as the response again, in front of whatever follows, exactly when the key of the header has
no response bit and is one of the keys of the body, and the body fits.

The frame is put around the body, and its own condition is about the key: the response bit that is
masked out, and the choice. -/
theorem response_roundTrips_iff (r : Response) (hs : ∀ s ∈ r.kind.strings, Short s)
    (hm : ∀ m ∈ r.kind.messages, m.RoundTrips) :
    ∃ bytes, (encode r).exec [] = (.ok (), bytes) ∧
      ∀ rest, (decode : DecodeM Response) (bytes ++ rest) = .ok (r, rest) ↔
        extractResponseCode r.header.key = r.header.key ∧
          r.header.key.toNat ∈ r.kind.keys ∧ r.kind.Fits := by
  obtain ⟨⟨key, version⟩, k⟩ := r
  obtain ⟨bs, hw, hr⟩ := kind_restores k hs hm
  obtain ⟨size, hexec⟩ := exec_response key version hw
  refine ⟨_, hexec, fun rest => ?_⟩
  simp only [List.append_assoc]
  rw [decode_response_iff, hr]

end Frames

/-- A chunk of one message of two bytes. -/
def sampleDeliver : Response where
  header := ⟨8, 1⟩
  kind := .deliver
    { subscriptionId := 1
      magicVersion := 80
      chunkType := 0
      numEntries := 1
      timestamp := 0
      epoch := 0
      chunkFirstOffset := 7
      chunkCrc := -1
      trailerLength := 0
      reserved := 0
      messages := [{ message := { body := { data := [[0x68, 0x69]] } } }] }

/-- The rule at a chunk. -/
theorem response_roundTrips_iff_deliver :
    letI := Amqp.Chrono.range; letI := Allocator.unbounded
    ∃ bytes, (encode sampleDeliver).exec [] = (.ok (), bytes) ∧
      ∀ rest, (decode : DecodeM Response) (bytes ++ rest) = .ok (sampleDeliver, rest) := by
  let _ := Amqp.Chrono.range
  let _ := Allocator.unbounded
  have hmessages : ∀ m ∈ sampleDeliver.kind.messages, m.RoundTrips := by
    intro m hm
    obtain rfl : m = _ := List.mem_singleton.mp hm
    exact ⟨rfl, rfl⟩
  obtain ⟨bytes, hexec, hback⟩ := response_roundTrips_iff sampleDeliver
    (fun s hs => by cases hs) hmessages
  refine ⟨bytes, hexec, fun rest => (hback rest).mpr ⟨rfl, by decide, by decide, fun m hm => ?_⟩⟩
  obtain rfl : m = _ := List.mem_singleton.mp hm
  decide +kernel

end RabbitMqStream.Protocol
