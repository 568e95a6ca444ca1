/-
# Round trips of the requests

A request that is encoded and decoded again: which of the 25 commands come back as they were, and
which do not.  The strings have at most `i16::MAX` bytes; the messages of a publish command come
back on their own and know their size.

A field comes back on the conditions of `FieldRoundTrip`, and a command exactly when its fields
do (`Recovers`), with three exceptions that no field explains:

* a string that a command needs is unwrapped, so the empty string makes `Request::decode` panic;
* a publish command comes back with version 1, so one of version 2 never does;
* the key of a consumer update request is compared after its response bit has been masked out, so
  no consumer update request is decoded.

`request_roundTrips_iff` puts them together: a request comes back, in front of whatever follows
it, exactly when its command `Fits`.

**The argument.**  A command is the sequence of its fields in both directions, so its decoder is
run line by line on what its encoder has written.  Each line is an equivalence, and the conditions
are collected on the way.  Where a record is built at the end, the lines have already left nothing
open but the strings that are unwrapped.  Twenty-five such statements are put together by one that
knows of the size, the header and the key only (`request_recovers`).
-/
import RabbitMqStream.Protocol.FieldRoundTrip

namespace RabbitMqStream.Protocol

open Wire

/-! ## 1. Commands

One statement for each command: it comes back exactly under its own condition, in front of any
bytes.  Commands with the same fields share a lemma. -/

/-- Whatever a run of the encoder that succeeds has appended to the buffer, the decoder makes `x`
of it again, and leaves what follows, exactly when the condition holds. -/
def Recovers {α : Type} [Encoder α] [Decoder α] (x : α) (fits : Prop) : Prop :=
  ∀ buf buf', (encode x).exec buf = (.ok (), buf') →
    ∃ bs, buf' = buf ++ bs ∧
      ∀ rest out, (decode : DecodeM α) (bs ++ rest) = .ok (x, out) ↔ fits ∧ out = rest

section Shapes

variable {α : Type} [Encoder α] [Decoder α]

theorem Recovers.of_exec {x : α} {fits : Prop} {bs : Bytes}
    (hw : ∀ buf, (encode x).exec buf = (.ok (), buf ++ bs))
    (hr : ∀ rest out, (decode : DecodeM α) (bs ++ rest) = .ok (x, out) ↔ fits ∧ out = rest) :
    Recovers x fits := by
  intro buf buf' hrun
  rw [hw, Prod.mk.injEq] at hrun
  exact ⟨bs, hrun.2.symm, hr⟩

/-- The commands that are a correlation id and a string that they need. -/
theorem recovers_needed (mk : UInt32 → String → α)
    (hencode : ∀ id s, encode (mk id s) = do
      encode id
      encode s)
    (hdecode : (decode : DecodeM α) = do
      let id ← decode
      let s ← decode
      let s ← unwrap s
      pure (mk id s))
    (hinj : ∀ id s id' s', mk id s = mk id' s' ↔ id = id' ∧ s = s') (id : UInt32) {s : String}
    (h : Short s) : Recovers (mk id s) (s ≠ "") := by
  have hw : ∀ buf, (encode (mk id s)).exec buf =
      (.ok (), buf ++ (toBE 4 id.toNat ++ stringBytes s)) := by
    intro buf
    simp [hencode, WriteM.exec_bind]
  refine .of_exec hw fun rest out => ?_
  simp [hdecode, Reader.bind_eq_ok, hinj, decode_string_iff h, -bind_pure_comp]

theorem checkReference_exec (reference : String) (buf : Bytes) :
    (checkReference reference).exec buf =
      if 256 ≤ (asBytes reference).length then
        (.error (.maxSizeError (asBytes reference).length), buf)
      else (.ok (), buf) := by
  unfold checkReference
  split <;> rfl

/-- A run that succeeds has passed the check of the reference, and the decoder's check is the
same. -/
theorem checkReference_passes {reference : String} {w : Writer} {buf buf' : Bytes}
    (h : (do checkReference reference; w : Writer).exec buf = (.ok (), buf')) :
    (asBytes reference).length ≤ 255 ∧ w.exec buf = (.ok (), buf') := by
  rw [WriteM.exec_bind, checkReference_exec] at h
  by_cases hlen : 256 ≤ (asBytes reference).length
  · rw [if_pos hlen] at h
    exact absurd h (by simp)
  · rw [if_neg hlen] at h
    exact ⟨by omega, h⟩

theorem withReference_of_le {β : Type} {reference : String} (h : (asBytes reference).length ≤ 255)
    (next : DecodeM β) : withReference reference next = next := if_pos h

/-- The two queries: a correlation id, a reference that is checked, and a stream. -/
theorem recovers_query (mk : UInt32 → String → String → α)
    (hencode : ∀ id r s, encode (mk id r s) = do
      checkReference r
      encode id
      encode r
      encode s)
    (hdecode : (decode : DecodeM α) = do
      let id ← decode
      let r ← (decode : DecodeM (Option String))
      match r with
      | some r => withReference r do
        let s ← decode
        let s ← unwrap s
        pure (mk id r s)
      | none => throw (.error .empty))
    (hinj : ∀ id r s id' r' s', mk id r s = mk id' r' s' ↔ id = id' ∧ r = r' ∧ s = s')
    (id : UInt32) {r s : String} (hr : Short r) (hs : Short s) :
    Recovers (mk id r s) (r ≠ "" ∧ s ≠ "") := by
  intro buf buf' hrun
  rw [hencode] at hrun
  obtain ⟨hlen, hrun⟩ := checkReference_passes hrun
  simp only [WriteM.exec_bind, exec_u32, exec_string, List.append_assoc, Prod.mk.injEq,
    true_and] at hrun
  refine ⟨_, hrun.symm, fun rest out => ?_⟩
  rw [hdecode, List.append_assoc, List.append_assoc,
    Reader.bind_of_ok ((decode_u32_iff _ _ id id).mpr ⟨rfl, rfl⟩),
    Reader.bind_of_ok (decode_string hr _)]
  by_cases hempty : r = ""
  · simp [hempty]
  · rw [if_neg hempty]
    show withReference r _ _ = _ ↔ _
    rw [withReference_of_le hlen]
    simp [Reader.bind_eq_ok, hinj, decode_string_iff hs, hempty, -bind_pure_comp]

end Shapes

theorem open_recovers {c : OpenCommand} (h : Short c.virtualHost) :
    Recovers c (c.virtualHost ≠ "") :=
  recovers_needed OpenCommand.mk (fun _ _ => rfl) rfl (by simp) c.correlationId h

theorem delete_recovers {c : Delete} (h : Short c.stream) : Recovers c (c.stream ≠ "") :=
  recovers_needed Delete.mk (fun _ _ => rfl) rfl (by simp) c.correlationId h

theorem deleteSuperStream_recovers {c : DeleteSuperStreamCommand} (h : Short c.superStreamName) :
    Recovers c (c.superStreamName ≠ "") :=
  recovers_needed DeleteSuperStreamCommand.mk (fun _ _ => rfl) rfl (by simp) c.correlationId h

theorem superStreamPartitions_recovers {c : SuperStreamPartitionsRequest}
    (h : Short c.superStream) : Recovers c (c.superStream ≠ "") :=
  recovers_needed SuperStreamPartitionsRequest.mk (fun _ _ => rfl) rfl (by simp) c.correlationId h

theorem queryOffset_recovers {c : QueryOffsetRequest} (hr : Short c.reference)
    (hs : Short c.stream) : Recovers c (c.reference ≠ "" ∧ c.stream ≠ "") :=
  recovers_query QueryOffsetRequest.mk (fun _ _ _ => rfl) rfl (by simp) c.correlationId hr hs

theorem queryPublisher_recovers {c : QueryPublisherRequest} (hr : Short c.publisherReference)
    (hs : Short c.stream) : Recovers c (c.publisherReference ≠ "" ∧ c.stream ≠ "") :=
  recovers_query QueryPublisherRequest.mk (fun _ _ _ => rfl) rfl (by simp) c.correlationId hr hs

/-- A string map whose entries all come back. -/
def MapFits (m : HashMap String String) : Prop := m.len < 2 ^ 32 ∧ ∀ e ∈ m.entries, EntryFits e

def StringsFit (xs : List String) : Prop := xs.length < 2 ^ 32 ∧ ∀ s ∈ xs, s ≠ ""

def MapShort (m : HashMap String String) : Prop := ∀ e ∈ m.entries, Short e.1 ∧ Short e.2

theorem peerProperties_recovers [Allocator] [Allocator.Ample] {c : PeerPropertiesCommand}
    (h : MapShort c.clientProperties) :
    Recovers c (MapFits c.clientProperties) := by
  have hw : ∀ buf, (encode c).exec buf =
      (.ok (), buf ++ (toBE 4 c.correlationId.toNat ++
        vecBytes entryBytes c.clientProperties.entries)) := by
    intro buf
    unfold instEncoderPeerPropertiesCommand
    simp [WriteM.exec_bind]
  refine .of_exec hw fun rest out => ?_
  obtain ⟨id, m⟩ := c
  unfold instDecoderPeerPropertiesCommandOfAllocator
  simp [Reader.bind_eq_ok, decode_map_iff h, MapFits, -bind_pure_comp]

theorem saslHandshake_recovers {c : SaslHandshakeCommand} : Recovers c True := by
  refine .of_exec (fun buf => exec_u32 buf c.correlationId) fun rest out => ?_
  obtain ⟨id⟩ := c
  unfold instDecoderSaslHandshakeCommand
  simp [Reader.bind_eq_ok, -bind_pure_comp]

theorem saslAuthenticate_recovers {c : SaslAuthenticateCommand} (h : Short c.mechanism) :
    Recovers c (c.mechanism ≠ "" ∧ LengthSurvives c.saslData.length) := by
  have hw : ∀ buf, (encode c).exec buf =
      (.ok (), buf ++ (toBE 4 c.correlationId.toNat ++ (stringBytes c.mechanism ++
        (toBE 4 c.saslData.length ++ c.saslData)))) := by
    intro buf
    unfold instEncoderSaslAuthenticateCommand
    simp [WriteM.exec_bind]
  refine .of_exec hw fun rest out => ?_
  obtain ⟨id, mechanism, data⟩ := c
  unfold instDecoderSaslAuthenticateCommand
  simp [Reader.bind_eq_ok, decode_string_iff h, decode_bytes_iff, and_assoc, -bind_pure_comp]

theorem tunes_recovers {c : TunesCommand} :
    Recovers c (True) := by
  have hw : ∀ buf, (encode c).exec buf =
      (.ok (), buf ++ (toBE 4 c.maxFrameSize.toNat ++ toBE 4 c.heartbeat.toNat)) := by
    intro buf
    unfold instEncoderTunesCommand
    simp [WriteM.exec_bind]
  refine .of_exec hw fun rest out => ?_
  obtain ⟨size, heartbeat⟩ := c
  unfold instDecoderTunesCommand
  simp [Reader.bind_eq_ok, -bind_pure_comp]

theorem close_recovers {c : CloseRequest} (h : Short c.closingReason) :
    Recovers c (c.closingReason ≠ "") := by
  have hw : ∀ buf, (encode c).exec buf =
      (.ok (), buf ++ (toBE 4 c.correlationId.toNat ++ (toBE 2 c.closingCode.toU16.toNat ++
        stringBytes c.closingReason))) := by
    intro buf
    unfold instEncoderCloseRequest
    simp [WriteM.exec_bind]
  refine .of_exec hw fun rest out => ?_
  obtain ⟨id, code, reason⟩ := c
  unfold instDecoderCloseRequest
  simp [Reader.bind_eq_ok, decode_string_iff h, -bind_pure_comp]

theorem createStream_recovers [Allocator] [Allocator.Ample] {c : CreateStreamCommand}
    (h : Short c.streamName)
    (hm : MapShort c.args) :
    Recovers c (c.streamName ≠ "" ∧ MapFits c.args) := by
  have hw : ∀ buf, (encode c).exec buf =
      (.ok (), buf ++ (toBE 4 c.correlationId.toNat ++ (stringBytes c.streamName ++
        vecBytes entryBytes c.args.entries))) := by
    intro buf
    unfold instEncoderCreateStreamCommand
    simp [WriteM.exec_bind]
  refine .of_exec hw fun rest out => ?_
  obtain ⟨id, name, args⟩ := c
  unfold instDecoderCreateStreamCommandOfAllocator
  simp [Reader.bind_eq_ok, decode_string_iff h, decode_map_iff hm, MapFits, and_assoc,
    -bind_pure_comp]

theorem subscribe_recovers [Allocator] [Allocator.Ample] {c : SubscribeCommand}
    (h : Short c.streamName)
    (hm : MapShort c.properties) :
    Recovers c (c.streamName ≠ "" ∧ MapFits c.properties) := by
  have hw : ∀ buf, (encode c).exec buf =
      (.ok (), buf ++ (toBE 4 c.correlationId.toNat ++ (toBE 1 c.subscriptionId.toNat ++
        (stringBytes c.streamName ++ (offsetBytes c.offsetSpecification ++
          (toBE 2 c.credit.toNat ++ vecBytes entryBytes c.properties.entries)))))) := by
    intro buf
    unfold instEncoderSubscribeCommand
    simp [WriteM.exec_bind]
  refine .of_exec hw fun rest out => ?_
  obtain ⟨id, subscription, name, offset, credit, properties⟩ := c
  unfold instDecoderSubscribeCommandOfAllocator
  simp [Reader.bind_eq_ok, decode_string_iff h, decode_map_iff hm, MapFits, and_assoc,
    -bind_pure_comp]

theorem credit_recovers {c : CreditCommand} :
    Recovers c (True) := by
  have hw : ∀ buf, (encode c).exec buf =
      (.ok (), buf ++ (toBE 1 c.subscriptionId.toNat ++ toBE 2 c.credit.toNat)) := by
    intro buf
    unfold instEncoderCreditCommand
    simp [WriteM.exec_bind]
  refine .of_exec hw fun rest out => ?_
  obtain ⟨id, credit⟩ := c
  unfold instDecoderCreditCommand
  simp [Reader.bind_eq_ok, -bind_pure_comp]

theorem metadata_recovers {c : MetadataCommand} (h : ∀ s ∈ c.streams, Short s) :
    Recovers c (StringsFit c.streams) := by
  have hw : ∀ buf, (encode c).exec buf =
      (.ok (), buf ++ (toBE 4 c.correlationId.toNat ++ vecBytes stringBytes c.streams)) := by
    intro buf
    unfold instEncoderMetadataCommand
    simp [WriteM.exec_bind]
  refine .of_exec hw fun rest out => ?_
  obtain ⟨id, streams⟩ := c
  unfold instDecoderMetadataCommand
  simp [Reader.bind_eq_ok, decode_strings_iff h, StringsFit, -bind_pure_comp]

theorem declarePublisher_recovers {c : DeclarePublisherCommand}
    (hr : ∀ s ∈ c.publisherReference, Short s)
    (hs : Short c.streamName) :
    Recovers c (c.publisherReference ≠ some "" ∧ c.streamName ≠ "") := by
  have hw : ∀ buf, (encode c).exec buf =
      (.ok (), buf ++ (toBE 4 c.correlationId.toNat ++ (toBE 1 c.publisherId.toNat ++
        (optStringBytes c.publisherReference ++ stringBytes c.streamName)))) := by
    intro buf
    unfold instEncoderDeclarePublisherCommand
    simp [WriteM.exec_bind]
  refine .of_exec hw fun rest out => ?_
  obtain ⟨id, publisher, reference, name⟩ := c
  unfold instDecoderDeclarePublisherCommand
  simp [Reader.bind_eq_ok, decode_optString_iff hr, decode_string_iff hs, and_assoc,
    -bind_pure_comp]

theorem deletePublisher_recovers {c : DeletePublisherCommand} :
    Recovers c (True) := by
  have hw : ∀ buf, (encode c).exec buf =
      (.ok (), buf ++ (toBE 4 c.correlationId.toNat ++ toBE 1 c.publisherId.toNat)) := by
    intro buf
    unfold instEncoderDeletePublisherCommand
    simp [WriteM.exec_bind]
  refine .of_exec hw fun rest out => ?_
  obtain ⟨id, publisher⟩ := c
  unfold instDecoderDeletePublisherCommand
  simp [Reader.bind_eq_ok, -bind_pure_comp]

theorem heartbeat_recovers {c : HeartBeatCommand} : Recovers c True := by
  have hw : ∀ buf, (encode c).exec buf = (.ok (), buf ++ []) := by
    intro buf
    rw [List.append_nil]
    rfl
  refine .of_exec hw fun rest out => ?_
  have hread : (decode : DecodeM HeartBeatCommand) rest = .ok (c, rest) := rfl
  rw [List.nil_append, Reader.returns_iff hread]
  simp

theorem unsubscribe_recovers {c : UnSubscribeCommand} :
    Recovers c (True) := by
  have hw : ∀ buf, (encode c).exec buf =
      (.ok (), buf ++ (toBE 4 c.correlationId.toNat ++ toBE 1 c.subscriptionId.toNat)) := by
    intro buf
    unfold instEncoderUnSubscribeCommand
    simp [WriteM.exec_bind]
  refine .of_exec hw fun rest out => ?_
  obtain ⟨id, subscription⟩ := c
  unfold instDecoderUnSubscribeCommand
  simp [Reader.bind_eq_ok, -bind_pure_comp]

theorem exchangeCommandVersions_recovers [Allocator] [Allocator.Ample]
    {c : ExchangeCommandVersionsRequest} :
    Recovers c (c.commands.length < 2 ^ 31) := by
  have hw : ∀ buf, (encode c).exec buf =
      (.ok (), buf ++ (toBE 4 c.correlationId.toNat ++ vecBytes versionBytes c.commands)) := by
    intro buf
    unfold instEncoderExchangeCommandVersionsRequest
    simp [WriteM.exec_bind]
  refine .of_exec hw fun rest out => ?_
  obtain ⟨id, commands⟩ := c
  unfold instDecoderExchangeCommandVersionsRequestOfAllocator
  simp [Reader.bind_eq_ok, decode_versions_iff, -bind_pure_comp]

theorem createSuperStream_recovers [Allocator] [Allocator.Ample]
    {c : CreateSuperStreamCommand}
    (h : Short c.superStreamName)
    (hp : ∀ s ∈ c.partitions, Short s)
    (hb : ∀ s ∈ c.bindingKeys, Short s)
    (hm : MapShort c.args) :
    Recovers c (c.superStreamName ≠ "" ∧ StringsFit c.partitions ∧ StringsFit c.bindingKeys ∧
      MapFits c.args) := by
  have hw : ∀ buf, (encode c).exec buf =
      (.ok (), buf ++ (toBE 4 c.correlationId.toNat ++ (stringBytes c.superStreamName ++
        (vecBytes stringBytes c.partitions ++ (vecBytes stringBytes c.bindingKeys ++
          vecBytes entryBytes c.args.entries))))) := by
    intro buf
    unfold instEncoderCreateSuperStreamCommand
    simp [WriteM.exec_bind]
  refine .of_exec hw fun rest out => ?_
  obtain ⟨id, name, partitions, keys, args⟩ := c
  unfold instDecoderCreateSuperStreamCommandOfAllocator
  simp [Reader.bind_eq_ok, decode_string_iff h, decode_strings_iff hp, decode_strings_iff hb,
    decode_map_iff hm, StringsFit, MapFits, and_assoc, -bind_pure_comp]

theorem superStreamRoute_recovers {c : SuperStreamRouteRequest}
    (hk : Short c.routingKey)
    (hs : Short c.superStream) :
    Recovers c (c.routingKey ≠ "" ∧ c.superStream ≠ "") := by
  have hw : ∀ buf, (encode c).exec buf =
      (.ok (), buf ++ (toBE 4 c.correlationId.toNat ++ (stringBytes c.routingKey ++
        stringBytes c.superStream))) := by
    intro buf
    unfold instEncoderSuperStreamRouteRequest
    simp [WriteM.exec_bind]
  refine .of_exec hw fun rest out => ?_
  obtain ⟨id, key, stream⟩ := c
  unfold instDecoderSuperStreamRouteRequest
  simp [Reader.bind_eq_ok, decode_string_iff hk, decode_string_iff hs, and_assoc, -bind_pure_comp]

theorem storeOffset_recovers {c : StoreOffset} (hr : Short c.reference) (hs : Short c.stream) :
    Recovers c (c.reference ≠ "" ∧ c.stream ≠ "") := by
  intro buf buf' hrun
  obtain ⟨hlen, hrun⟩ := checkReference_passes hrun
  simp only [WriteM.exec_bind, exec_u64, exec_string, List.append_assoc, Prod.mk.injEq,
    true_and] at hrun
  refine ⟨_, hrun.symm, fun rest out => ?_⟩
  obtain ⟨reference, stream, offset⟩ := c
  rw [List.append_assoc, List.append_assoc]
  refine (Eq.congr_left (Reader.bind_of_ok (decode_string hr _))).trans ?_
  refine (Eq.congr_left (Reader.bind_of_ok (decode_string hs _))).trans ?_
  by_cases hr0 : reference = ""
  · simp [hr0]
  by_cases hs0 : stream = ""
  · simp [hs0]
  rw [if_neg hr0, if_neg hs0]
  show withReference reference _ _ = _ ↔ _
  rw [withReference_of_le hlen]
  simp [Reader.bind_eq_ok, hr0, hs0, -bind_pure_comp]

section Publish

variable [Amqp.Chrono] [Allocator] [Allocator.Ample]

omit [Allocator.Ample] in
/-- Whatever a publish command is decoded from, it is one of version 1. -/
theorem publish_version {c : PublishCommand} {b out : Bytes}
    (h : (decode : DecodeM PublishCommand) b = .ok (c, out)) : c.version = 1 := by
  obtain ⟨id, mid, -, h⟩ := Reader.bind_eq_ok.mp h
  obtain ⟨messages, mid', -, h⟩ := Reader.bind_eq_ok.mp h
  simp only [Reader.pure_apply, Except.ok.injEq, Prod.mk.injEq] at h
  rw [← h.1]

theorem publish_recovers {c : PublishCommand} (h : ∀ m ∈ c.publishedMessages, m.RoundTrips) :
    Recovers c (c.version = 1 ∧ c.publishedMessages.length < 2 ^ 32 ∧
      ∀ m ∈ c.publishedMessages, m.Fits) := by
  by_cases hv : c.version = protocolVersion2
  · have hw : ∀ buf, (encode c).exec buf = (.ok (), buf ++ (toBE 1 c.publisherId.toNat ++
        vecBytes publishedBytesVersion2 c.publishedMessages)) := by
      intro buf
      unfold instEncoderPublishCommand
      simp [WriteM.exec_bind, hv]
    refine .of_exec hw fun rest out => ?_
    have hne : c.version ≠ 1 := by
      rw [hv]
      decide
    constructor
    · intro hrun
      exact absurd (publish_version hrun) hne
    · rintro ⟨⟨hone, -⟩, -⟩
      exact absurd hone hne
  · have hw : ∀ buf, (encode c).exec buf = (.ok (), buf ++ (toBE 1 c.publisherId.toNat ++
        vecBytes publishedBytes c.publishedMessages)) := by
      intro buf
      unfold instEncoderPublishCommand
      simp [WriteM.exec_bind, hv]
    refine .of_exec hw fun rest out => ?_
    obtain ⟨id, messages, version⟩ := c
    unfold instDecoderPublishCommandOfChronoOfAllocator
    simp [Reader.bind_eq_ok, decode_messages_iff h, and_assoc, -bind_pure_comp]
    constructor
    · rintro ⟨hlen, hfits, hout, rfl⟩
      exact ⟨rfl, hlen, hfits, hout⟩
    · rintro ⟨rfl, hlen, hfits, hout⟩
      exact ⟨hlen, hfits, hout, rfl⟩

end Publish

/-! ## 2. Requests

The commands together.  Two of the conditions come from the frame and not from a field: the
version of a publish command, and the key of a consumer update, which is never found. -/

/-- The strings of a string map. -/
def mapStrings (m : HashMap String String) : List String := m.entries.flatMap fun e => [e.1, e.2]

theorem mapShort_of_strings {m : HashMap String String} (h : ∀ s ∈ mapStrings m, Short s) :
    MapShort m := by
  intro e he
  exact ⟨h e.1 (List.mem_flatMap.mpr ⟨e, he, by simp⟩),
    h e.2 (List.mem_flatMap.mpr ⟨e, he, by simp⟩)⟩

namespace RequestKind

/-- The strings of a command. -/
def strings : RequestKind → List String
  | .peerProperties cmd => mapStrings cmd.clientProperties
  | .saslAuthenticate cmd => [cmd.mechanism]
  | .open cmd => [cmd.virtualHost]
  | .close cmd => [cmd.closingReason]
  | .delete cmd => [cmd.stream]
  | .createStream cmd => cmd.streamName :: mapStrings cmd.args
  | .subscribe cmd => cmd.streamName :: mapStrings cmd.properties
  | .metadata cmd => cmd.streams
  | .declarePublisher cmd => cmd.streamName :: cmd.publisherReference.toList
  | .publish cmd => cmd.publishedMessages.flatMap fun m => m.filterValue.toList
  | .queryOffset cmd => [cmd.reference, cmd.stream]
  | .queryPublisherSequence cmd => [cmd.publisherReference, cmd.stream]
  | .storeOffset cmd => [cmd.reference, cmd.stream]
  | .createSuperStream cmd =>
    cmd.superStreamName :: (cmd.partitions ++ cmd.bindingKeys ++ mapStrings cmd.args)
  | .deleteSuperStream cmd => [cmd.superStreamName]
  | .superStreamPartitions cmd => [cmd.superStream]
  | .superStreamRoute cmd => [cmd.routingKey, cmd.superStream]
  | .saslHandshake _ | .tunes _ | .credit _ | .deletePublisher _ | .heartbeat _ | .unsubscribe _
  | .exchangeCommandVersions _ | .consumerUpdateRequest _ => []

/-- The messages of a command, with what is published around them. -/
def published : RequestKind → List PublishedMessage
  | .publish cmd => cmd.publishedMessages
  | _ => []

/-- The condition under which a command comes back. -/
def Fits : RequestKind → Prop
  | .peerProperties cmd => MapFits cmd.clientProperties
  | .saslAuthenticate cmd => cmd.mechanism ≠ "" ∧ LengthSurvives cmd.saslData.length
  | .open cmd => cmd.virtualHost ≠ ""
  | .close cmd => cmd.closingReason ≠ ""
  | .delete cmd => cmd.stream ≠ ""
  | .createStream cmd => cmd.streamName ≠ "" ∧ MapFits cmd.args
  | .subscribe cmd => cmd.streamName ≠ "" ∧ MapFits cmd.properties
  | .metadata cmd => StringsFit cmd.streams
  | .declarePublisher cmd => cmd.publisherReference ≠ some "" ∧ cmd.streamName ≠ ""
  | .publish cmd => cmd.version = 1 ∧ cmd.publishedMessages.length < 2 ^ 32 ∧
      ∀ m ∈ cmd.publishedMessages, m.Fits
  | .queryOffset cmd => cmd.reference ≠ "" ∧ cmd.stream ≠ ""
  | .queryPublisherSequence cmd => cmd.publisherReference ≠ "" ∧ cmd.stream ≠ ""
  | .storeOffset cmd => cmd.reference ≠ "" ∧ cmd.stream ≠ ""
  | .exchangeCommandVersions cmd => cmd.commands.length < 2 ^ 31
  | .createSuperStream cmd => cmd.superStreamName ≠ "" ∧ StringsFit cmd.partitions ∧
      StringsFit cmd.bindingKeys ∧ MapFits cmd.args
  | .deleteSuperStream cmd => cmd.superStreamName ≠ ""
  | .superStreamPartitions cmd => cmd.superStream ≠ ""
  | .superStreamRoute cmd => cmd.routingKey ≠ "" ∧ cmd.superStream ≠ ""
  | .saslHandshake _ | .tunes _ | .credit _ | .deletePublisher _ | .heartbeat _
  | .unsubscribe _ => True
  | .consumerUpdateRequest _ => False

end RequestKind

/-- What an encoder of requests writes before the command. -/
theorem exec_request {k : RequestKind} {buf buf' : Bytes}
    (h : (encode (Request.ofCommand k)).exec buf = (.ok (), buf')) :
    ∃ size : UInt32, (encode k).exec
      (buf ++ (toBE 4 size.toNat ++ (toBE 2 k.key.toNat ++ toBE 2 k.version.toNat))) =
        (.ok (), buf') := by
  unfold instEncoderRequest instEncoderHeader at h
  simp only [WriteM.exec_bind, exec_u32, exec_u16, List.append_assoc] at h
  exact ⟨_, h⟩

section Frames

variable [Amqp.Chrono] [Allocator] [Allocator.Ample]

omit [Allocator.Ample] in
/-- A request is its size, its header and its command; the key chooses the decoder of the command
after the response bit has been masked out. -/
theorem decode_request (size : UInt32) (header : Header) (b : Bytes) :
    (decode : DecodeM Request)
        (toBE 4 size.toNat ++ (toBE 2 header.key.toNat ++ (toBE 2 header.version.toNat ++ b))) =
      (do
        let cmd ← decodeRequestKind (extractResponseCode header.key)
        pure ⟨⟨extractResponseCode header.key, header.version⟩, cmd⟩ : DecodeM Request) b := by
  have hheader : (decode : DecodeM Header)
      (toBE 2 header.key.toNat ++ (toBE 2 header.version.toNat ++ b)) =
        .ok (⟨extractResponseCode header.key, header.version⟩, b) := by
    refine (Reader.bind_of_ok (readU16_append header.key _)).trans ?_
    exact Reader.bind_of_ok (readU16_append header.version _)
  refine (Reader.bind_of_ok (readU32_append size _)).trans ?_
  exact Reader.bind_of_ok hheader

omit [Allocator.Ample] in
/-- **A request comes back exactly when its command does**, when the key has no response bit and
chooses the decoder of the command. -/
theorem request_recovers {α : Type} [Encoder α] [Decoder α] {variant : α → RequestKind} {cmd : α}
    {fits : Prop} (key : UInt16) (hmask : extractResponseCode key = key) (h : Recovers cmd fits)
    (hkey : (variant cmd).key = key) (hencode : encode (variant cmd) = encode cmd)
    (hdecode : decodeRequestKind key = decodeRequestAs variant)
    (hinj : ∀ x y, variant x = variant y → x = y) :
    Recovers (Request.ofCommand (variant cmd)) fits := by
  intro buf buf' hrun
  obtain ⟨size, hrun⟩ := exec_request hrun
  rw [hencode] at hrun
  obtain ⟨bs, rfl, hbs⟩ := h _ _ hrun
  refine ⟨_, List.append_assoc .., fun rest out => ?_⟩
  simp only [List.append_assoc]
  rw [← hbs]
  refine (Eq.congr_left
    (decode_request size ⟨(variant cmd).key, (variant cmd).version⟩ _)).trans ?_
  rw [hkey, hmask, hdecode]
  constructor
  · intro hback
    obtain ⟨k, mid, hk, hpure⟩ := Reader.bind_eq_ok.mp hback
    obtain ⟨x, mid', hx, hvariant⟩ := Reader.bind_eq_ok.mp hk
    simp only [Reader.pure_apply, Except.ok.injEq, Prod.mk.injEq] at hpure hvariant
    obtain ⟨hrequest, rfl⟩ := hpure
    obtain ⟨rfl, rfl⟩ := hvariant
    rw [← hinj x cmd (congrArg Request.kind hrequest)]
    exact hx
  · intro hcmd
    have hk : decodeRequestAs variant (bs ++ rest) = .ok (variant cmd, out) :=
      Reader.bind_of_ok hcmd
    have hrequest : Request.ofCommand (variant cmd) =
        ⟨⟨key, (variant cmd).version⟩, variant cmd⟩ := by rw [Request.ofCommand, hkey]
    rw [hrequest]
    exact Reader.bind_of_ok hk

omit [Allocator.Ample] in
/-- The key of a consumer update request loses its response bit, and no command has the key that
is left. -/
theorem consumerUpdateRequest_recovers (cmd : ConsumerUpdateRequestCommand) :
    Recovers (Request.ofCommand (.consumerUpdateRequest cmd)) False := by
  have hw : ∀ buf, (encode cmd).exec buf = (.ok (), buf ++ (toBE 4 cmd.correlationId.toNat ++
      (toBE 2 cmd.responseCode.toNat ++ offsetBytes cmd.offsetSpecification))) := by
    intro buf
    unfold instEncoderConsumerUpdateRequestCommand
    simp [WriteM.exec_bind]
  have hkey : decodeRequestKind (extractResponseCode 32794) =
      throw (.error (.unsupportedResponseType 26)) := rfl
  intro buf buf' hrun
  obtain ⟨size, hrun⟩ := exec_request hrun
  have hbytes := (congrArg Prod.snd (hrun.symm.trans (hw _)))
  refine ⟨_, hbytes.trans (List.append_assoc ..), fun rest out => ?_⟩
  simp only [List.append_assoc]
  refine (Eq.congr_left (decode_request size ⟨32794, protocolVersion⟩ _)).trans ?_
  rw [hkey]
  constructor
  · intro hback
    obtain ⟨k, mid, hk, -⟩ := Reader.bind_eq_ok.mp hback
    exact absurd hk (by simp)
  · rintro ⟨h, -⟩
    exact h.elim

/-- Every command, one case for each of the 25. -/
theorem kind_recovers (k : RequestKind) (hs : ∀ s ∈ k.strings, Short s)
    (hm : ∀ m ∈ k.published, m.RoundTrips) : Recovers (Request.ofCommand k) k.Fits := by
  cases k with
  | peerProperties cmd =>
    exact request_recovers 17 (by decide)
      (peerProperties_recovers (mapShort_of_strings hs)) rfl rfl rfl
      fun _ _ => RequestKind.peerProperties.inj
  | saslHandshake cmd =>
    exact request_recovers 18 (by decide) saslHandshake_recovers rfl rfl rfl
      fun _ _ => RequestKind.saslHandshake.inj
  | saslAuthenticate cmd =>
    exact request_recovers 19 (by decide)
      (saslAuthenticate_recovers (hs _ (by simp [RequestKind.strings]))) rfl rfl rfl
      fun _ _ => RequestKind.saslAuthenticate.inj
  | tunes cmd =>
    exact request_recovers 20 (by decide) tunes_recovers rfl rfl rfl
      fun _ _ => RequestKind.tunes.inj
  | «open» cmd =>
    exact request_recovers 21 (by decide)
      (open_recovers (hs _ (by simp [RequestKind.strings]))) rfl rfl rfl
      fun _ _ => RequestKind.open.inj
  | close cmd =>
    exact request_recovers 22 (by decide)
      (close_recovers (hs _ (by simp [RequestKind.strings]))) rfl rfl rfl
      fun _ _ => RequestKind.close.inj
  | delete cmd =>
    exact request_recovers 14 (by decide)
      (delete_recovers (hs _ (by simp [RequestKind.strings]))) rfl rfl rfl
      fun _ _ => RequestKind.delete.inj
  | createStream cmd =>
    obtain ⟨hname, hargs⟩ := List.forall_mem_cons.mp hs
    exact request_recovers 13 (by decide)
      (createStream_recovers hname (mapShort_of_strings hargs)) rfl rfl rfl
      fun _ _ => RequestKind.createStream.inj
  | subscribe cmd =>
    obtain ⟨hname, hproperties⟩ := List.forall_mem_cons.mp hs
    exact request_recovers 7 (by decide)
      (subscribe_recovers hname (mapShort_of_strings hproperties)) rfl rfl rfl
      fun _ _ => RequestKind.subscribe.inj
  | credit cmd =>
    exact request_recovers 9 (by decide) credit_recovers rfl rfl rfl
      fun _ _ => RequestKind.credit.inj
  | metadata cmd =>
    exact request_recovers 15 (by decide) (metadata_recovers hs) rfl rfl rfl
      fun _ _ => RequestKind.metadata.inj
  | declarePublisher cmd =>
    obtain ⟨hname, hreference⟩ := List.forall_mem_cons.mp hs
    have hreference' : ∀ s ∈ cmd.publisherReference, Short s := fun s h =>
      hreference s (Option.mem_toList.mpr h)
    exact request_recovers 1 (by decide) (declarePublisher_recovers hreference' hname) rfl rfl rfl
      fun _ _ => RequestKind.declarePublisher.inj
  | deletePublisher cmd =>
    exact request_recovers 6 (by decide) deletePublisher_recovers rfl rfl rfl
      fun _ _ => RequestKind.deletePublisher.inj
  | heartbeat cmd =>
    exact request_recovers 23 (by decide) heartbeat_recovers rfl rfl rfl
      fun _ _ => RequestKind.heartbeat.inj
  | publish cmd =>
    exact request_recovers 2 (by decide) (publish_recovers hm) rfl rfl rfl
      fun _ _ => RequestKind.publish.inj
  | queryOffset cmd =>
    obtain ⟨hreference, hstream⟩ := List.forall_mem_cons.mp hs
    exact request_recovers 11 (by decide)
      (queryOffset_recovers hreference (hstream _ (by simp))) rfl rfl rfl
      fun _ _ => RequestKind.queryOffset.inj
  | queryPublisherSequence cmd =>
    obtain ⟨hreference, hstream⟩ := List.forall_mem_cons.mp hs
    exact request_recovers 5 (by decide)
      (queryPublisher_recovers hreference (hstream _ (by simp))) rfl rfl rfl
      fun _ _ => RequestKind.queryPublisherSequence.inj
  | storeOffset cmd =>
    obtain ⟨hreference, hstream⟩ := List.forall_mem_cons.mp hs
    exact request_recovers 10 (by decide)
      (storeOffset_recovers hreference (hstream _ (by simp))) rfl rfl rfl
      fun _ _ => RequestKind.storeOffset.inj
  | unsubscribe cmd =>
    exact request_recovers 12 (by decide) unsubscribe_recovers rfl rfl rfl
      fun _ _ => RequestKind.unsubscribe.inj
  | exchangeCommandVersions cmd =>
    exact request_recovers 27 (by decide) exchangeCommandVersions_recovers rfl rfl rfl
      fun _ _ => RequestKind.exchangeCommandVersions.inj
  | createSuperStream cmd =>
    obtain ⟨hname, hrest⟩ := List.forall_mem_cons.mp hs
    obtain ⟨hlists, hargs⟩ := List.forall_mem_append.mp hrest
    obtain ⟨hpartitions, hkeys⟩ := List.forall_mem_append.mp hlists
    exact request_recovers 29 (by decide)
      (createSuperStream_recovers hname hpartitions hkeys (mapShort_of_strings hargs)) rfl rfl rfl
      fun _ _ => RequestKind.createSuperStream.inj
  | deleteSuperStream cmd =>
    exact request_recovers 30 (by decide)
      (deleteSuperStream_recovers (hs _ (by simp [RequestKind.strings]))) rfl rfl rfl
      fun _ _ => RequestKind.deleteSuperStream.inj
  | superStreamPartitions cmd =>
    exact request_recovers 25 (by decide)
      (superStreamPartitions_recovers (hs _ (by simp [RequestKind.strings]))) rfl rfl rfl
      fun _ _ => RequestKind.superStreamPartitions.inj
  | superStreamRoute cmd =>
    obtain ⟨hkey, hstream⟩ := List.forall_mem_cons.mp hs
    exact request_recovers 24 (by decide)
      (superStreamRoute_recovers hkey (hstream _ (by simp))) rfl rfl rfl
      fun _ _ => RequestKind.superStreamRoute.inj
  | consumerUpdateRequest cmd => exact consumerUpdateRequest_recovers cmd

/-- **Which requests come back.**  The bytes of a request that is encoded without error are
decoded as the request again, in front of whatever follows them, exactly when its command fits.

By cases on the command (`kind_recovers`).  What follows the bytes is the same in the equivalence
of each field, so one rest decides for all. -/
theorem request_roundTrips_iff (k : RequestKind) (hs : ∀ s ∈ k.strings, Short s)
    (hm : ∀ m ∈ k.published, m.RoundTrips) {bytes : Bytes}
    (hrun : (encode (Request.ofCommand k)).exec [] = (.ok (), bytes)) :
    (∀ rest, (decode : DecodeM Request) (bytes ++ rest) = .ok (Request.ofCommand k, rest)) ↔
      k.Fits := by
  obtain ⟨bs, rfl, hbs⟩ := kind_recovers k hs hm [] bytes hrun
  constructor
  · intro hback
    exact ((hbs [] []).mp (hback [])).1
  · intro hfits rest
    exact (hbs rest rest).mpr ⟨hfits, rfl⟩

end Frames

/-- One message of two bytes, in the layout of version 1. -/
def samplePublish : PublishCommand where
  publisherId := 3
  publishedMessages := [⟨5, { message := { body := { data := [[0x68, 0x69]] } } }, none⟩]
  version := 1

def samplePublishBytes : Bytes :=
  [0, 0, 0, 28, 0, 2, 0, 1, 3, 0, 0, 0, 1, 0, 0, 0, 0, 0, 0, 0, 5, 0, 0, 0, 7, 0, 0x53, 0x75, 0xa0,
    2, 0x68, 0x69]

/-- The rule at a publish command. -/
theorem request_roundTrips_iff_publish :
    letI := Amqp.Chrono.range; letI := Allocator.unbounded
    (encode (Request.ofCommand (.publish samplePublish))).exec [] =
        (.ok (), samplePublishBytes) ∧
      ∀ rest, (decode : DecodeM Request) (samplePublishBytes ++ rest) =
        .ok (Request.ofCommand (.publish samplePublish), rest) := by
  let _ := Amqp.Chrono.range
  let _ := Allocator.unbounded
  have hrun : (encode (Request.ofCommand (.publish samplePublish))).exec [] =
      (.ok (), samplePublishBytes) := by
    decide +kernel
  have hstrings : ∀ s ∈ (RequestKind.publish samplePublish).strings, Short s := by
    decide
  have hmessages : ∀ m ∈ (RequestKind.publish samplePublish).published, m.RoundTrips := by
    intro m hm
    obtain rfl : m = _ := List.mem_singleton.mp hm
    exact ⟨rfl, rfl⟩
  have hfits : (RequestKind.publish samplePublish).Fits := by
    refine ⟨rfl, by decide, fun m hm => ?_⟩
    obtain rfl : m = _ := List.mem_singleton.mp hm
    exact ⟨by decide +kernel, rfl⟩
  exact ⟨hrun, (request_roundTrips_iff _ hstrings hmessages hrun).mpr hfits⟩

/-- An empty virtual host, a publish command of version 2 and a consumer update request. -/
theorem requests_not_roundTrip :
    letI := Amqp.Chrono.range; letI := Allocator.unbounded
    (encode (Request.ofCommand (.open ⟨7, ""⟩))).exec [] =
        (.ok (), [0, 0, 0, 10, 0, 21, 0, 1, 0, 0, 0, 7, 0, 0]) ∧
      (decode : DecodeM Request) [0, 0, 0, 10, 0, 21, 0, 1, 0, 0, 0, 7, 0, 0] =
        .error (.panic .unwrapNone) ∧
      (encode (Request.ofCommand (.publish ⟨3, [], 2⟩))).exec [] =
        (.ok (), [0, 0, 0, 9, 0, 2, 0, 2, 3, 0, 0, 0, 0]) ∧
      (decode : DecodeM Request) [0, 0, 0, 9, 0, 2, 0, 2, 3, 0, 0, 0, 0] =
        .ok (⟨⟨2, 2⟩, .publish ⟨3, [], 1⟩⟩, []) ∧
      (encode (Request.ofCommand (.consumerUpdateRequest ⟨7, 1, .first⟩))).exec [] =
        (.ok (), [0, 0, 0, 12, 0x80, 26, 0, 1, 0, 0, 0, 7, 0, 1, 0, 1]) ∧
      (decode : DecodeM Request) [0, 0, 0, 12, 0x80, 26, 0, 1, 0, 0, 0, 7, 0, 1, 0, 1] =
        .error (.error (.unsupportedResponseType 26)) :=
  ⟨rfl, rfl, rfl, rfl, rfl, rfl⟩

end RabbitMqStream.Protocol
