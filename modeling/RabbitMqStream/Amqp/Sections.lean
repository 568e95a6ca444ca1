/-
# The sections of a message, written and read back

`Message::encode` writes the sections of a message one after another, each behind a descriptor;
`Message::decode` is a loop that looks at the next descriptor and sends the section to the
decoder of its kind.  Some of these decoders read the descriptor again, the others start behind
it.

The encoder is a list of sections (`Message.sections`, `encode_eq_sections`).  Reading one of
them back is `decode_section`, a case for each kind; reading all of them back is an induction
over the list with the message read so far as the accumulator (`decodeFrom_sections`); and
adding the sections of a message to the empty one gives the message again
(`foldl_add_sections`).

* `message_decode_encode`: a message whose parts read back reads back.
-/
import RabbitMqStream.Amqp.Progress

namespace RabbitMqStream.Amqp

open Wire

/-! ## 1. Type codes and descriptors

A descriptor is a number that is written in the shortest form of an unsigned long, so the
section kinds are told apart by one byte behind two that are always the same. -/

theorem typeCode_decode (c : TypeCode) (rest : Bytes) :
    TypeCode.decode (encode c ++ rest) = .ok (c, rest) := by
  have hread : (readU8 : AmqpReader UInt8) (encode c ++ rest) = .ok (c.toU8, rest) := by
    have h : (readU8 : AmqpReader UInt8) (toBE 1 c.toU8.toNat ++ rest) = .ok (c.toU8, rest) :=
      readU8_append c.toU8 rest
    rwa [show toBE 1 c.toU8.toNat = encode c by cases c <;> rfl] at h
  rw [TypeCode.decode, Reader.bind_of_ok hread, TypeCode.ofU8_toU8]
  rfl

/-- Decoding `encode x`, in front of anything, gives `x` and leaves what is behind it. -/
def RoundTrips {α : Type} [AmqpEncoder α] [AmqpDecoder α] (x : α) : Prop :=
  ∀ rest, decode (encode x ++ rest) = .ok (x, rest)

theorem decodeAs_encode {α β : Type} [AmqpEncoder α] [AmqpDecoder α] {x : α} (h : RoundTrips x)
    (f : α → β) (rest : Bytes) : decodeAs f (encode x ++ rest) = .ok (f x, rest) := by
  rw [decodeAs, Reader.bind_of_ok (h rest), Reader.pure_apply]

theorem ulong_roundTrips (n : UInt64) : RoundTrips n := by
  intro rest
  change (TypeCode.decode >>= _) (_ ++ rest) = _
  by_cases h0 : n = 0
  · subst h0
    exact Reader.bind_of_ok (typeCode_decode .ulong0 rest)
  · by_cases hw : n > 255
    · have he : encode n = encode TypeCode.ulong ++ toBE 8 n.toNat := by
        simp only [AmqpEncoder.encode, if_neg h0, if_pos hw]
      rw [he, List.append_assoc, Reader.bind_of_ok (typeCode_decode .ulong _)]
      exact readU64_append n rest
    · have he : encode n = encode TypeCode.ulongSmall ++ toBE 1 n.toNat := by
        simp only [AmqpEncoder.encode, if_neg h0, if_neg hw]
      have hlt : n.toNat < 256 := by
        simp only [gt_iff_lt, UInt64.lt_iff_toNat_lt, UInt64.reduceToNat, not_lt] at hw
        omega
      rw [he, List.append_assoc, Reader.bind_of_ok (typeCode_decode .ulongSmall _)]
      have hread : (readU8 : AmqpReader UInt8) _ = _ := readU8_append (UInt8.ofNat n.toNat) rest
      rw [UInt8.toNat_ofNat', Nat.mod_eq_of_lt hlt] at hread
      refine (Reader.bind_of_ok hread).trans ?_
      have hback : (UInt8.ofNat n.toNat).toUInt64 = n := by
        apply UInt64.toNat_inj.mp
        rw [UInt8.toNat_toUInt64, UInt8.toNat_ofNat', Nat.mod_eq_of_lt hlt]
      rw [hback, Reader.pure_apply]

/-- The type code an unsigned long is written behind. -/
theorem ulong_code (n : UInt64) : ∃ (code : TypeCode) (tail : Bytes), encode n = encode code ++ tail ∧
    (code = .ulong ∨ code = .ulongSmall ∨ code = .ulong0 ∧ n = 0 ∧ tail = []) := by
  by_cases h0 : n = 0
  · exact ⟨.ulong0, [], by subst h0; rfl, Or.inr (Or.inr ⟨rfl, h0, rfl⟩)⟩
  · by_cases hw : n > 255
    · exact ⟨.ulong, toBE 8 n.toNat, by simp only [AmqpEncoder.encode, if_neg h0, if_pos hw],
        Or.inl rfl⟩
    · exact ⟨.ulongSmall, toBE 1 n.toNat,
        by simp only [AmqpEncoder.encode, if_neg h0, if_neg hw], Or.inr (Or.inl rfl)⟩

theorem descriptor_decode (n : UInt64) (rest : Bytes) :
    Descriptor.decode (encode (Descriptor.ulong n) ++ rest) = .ok (.ulong n, rest) := by
  have he : encode (Descriptor.ulong n) = encode TypeCode.described ++ encode n := rfl
  rw [he, List.append_assoc, Descriptor.decode,
    Reader.bind_of_ok (typeCode_decode .described _)]
  have hulong := decodeAs_encode (ulong_roundTrips n) Descriptor.ulong rest
  obtain ⟨code, tail, hcode, h⟩ := ulong_code n
  have hlook := Reader.lookahead_of_ok (typeCode_decode code (tail ++ rest))
  rw [← List.append_assoc, ← hcode] at hlook
  refine (Reader.bind_of_ok hlook).trans ?_
  rcases h with rfl | rfl | ⟨rfl, rfl, rfl⟩
  · exact hulong
  · exact hulong
  · exact Reader.bind_of_ok (typeCode_decode .ulong0 rest)

/-! ## 2. One section

A decoder that is given the section from its start, and one that is given what is behind the
descriptor, come to the same: the descriptor was read before, to choose the decoder. -/

section Chrono

variable [Chrono]

/-- The bytes of a section, its descriptor included. -/
def MessageSection.encode : MessageSection → Bytes
  | .header val => Amqp.encode val
  | .deliveryAnnotations val => Amqp.encode messageDeliveryAnnotations ++ Amqp.encode val
  | .messageAnnotations val => Amqp.encode Amqp.messageAnnotations ++ Amqp.encode val
  | .applicationProperties val => Amqp.encode messageApplicationProperties ++ Amqp.encode val
  | .data val => Amqp.encode messageBodyData ++ Amqp.encode val
  | .amqpSequence val => Amqp.encode messageBodySequence ++ Amqp.encode val
  | .amqpValue val => Amqp.encode messageBodyValue ++ Amqp.encode val
  | .footer val => Amqp.encode messageFooter ++ Amqp.encode val
  | .properties val => Amqp.encode val

/-- The content of a section reads back. -/
def MessageSection.PartRoundTrips : MessageSection → Prop
  | .header val => RoundTrips val
  | .deliveryAnnotations val => RoundTrips val
  | .messageAnnotations val => RoundTrips val
  | .applicationProperties val => RoundTrips val
  | .data val => RoundTrips val
  | .amqpSequence val => RoundTrips val
  | .amqpValue val => RoundTrips val
  | .footer val => RoundTrips val
  | .properties val => RoundTrips val

omit [Chrono] in
/-- The dispatch of `MessageSection::decode`, for the kinds whose decoder starts behind the
descriptor. -/
theorem decodeRemaining_encode {α : Type} [AmqpEncoder α] [AmqpDecoder α] {n : UInt64} {x : α}
    (h : RoundTrips x) (f : α → MessageSection) (rest : Bytes) :
    decodeRemaining f (encode (Descriptor.ulong n) ++ (encode x ++ rest)) = .ok (f x, rest) := by
  rw [decodeRemaining, Reader.bind_of_ok (descriptor_decode n _)]
  exact decodeAs_encode h f rest

/-- **A section reads back**, into the section it was. -/
theorem decode_section {s : MessageSection} (h : s.PartRoundTrips) (rest : Bytes) :
    MessageSection.decode (s.encode ++ rest) = .ok (s, rest) := by
  have hlook : ∀ n tail, Reader.lookahead Descriptor.decode
      (Amqp.encode (Descriptor.ulong n) ++ tail) =
        .ok (.ulong n, Amqp.encode (Descriptor.ulong n) ++ tail) :=
    fun n tail => Reader.lookahead_of_ok (descriptor_decode n tail)
  unfold MessageSection.decode
  cases s with
  | header val =>
    obtain ⟨tail, htail⟩ : ∃ tail, Amqp.encode val = Amqp.encode (Descriptor.ulong 112) ++ tail :=
      ⟨_, List.append_assoc _ _ _⟩
    have hread := hlook 112 (tail ++ rest)
    rw [← List.append_assoc, ← htail] at hread
    exact (Reader.bind_of_ok hread).trans (decodeAs_encode h _ rest)
  | properties val =>
    obtain ⟨tail, htail⟩ : ∃ tail, Amqp.encode val = Amqp.encode (Descriptor.ulong 115) ++ tail :=
      ⟨_, List.append_assoc _ _ _⟩
    have hread := hlook 115 (tail ++ rest)
    rw [← List.append_assoc, ← htail] at hread
    exact (Reader.bind_of_ok hread).trans (decodeAs_encode h _ rest)
  | deliveryAnnotations val | messageAnnotations val | applicationProperties val | data val
  | amqpSequence val | amqpValue val | footer val =>
    simp only [MessageSection.encode, List.append_assoc]
    exact (Reader.bind_of_ok (hlook _ _)).trans (decodeRemaining_encode h _ rest)

/-! ## 3. The whole message

The loop is followed from any message that has been read so far, so that the induction on the
sections has an accumulator to speak of.  Putting the sections into place is a matter of the
message alone. -/

omit [Chrono] in
theorem section_encode_ne_nil (s : MessageSection) : s.encode ≠ [] := by
  obtain ⟨tail, htail⟩ : ∃ tail, s.encode = TypeCode.described.toU8 :: tail := by
    cases s <;> exact ⟨_, rfl⟩
  rw [htail]
  simp

/-- Reading sections one after another, from a message that has the ones before. -/
theorem decodeFrom_sections : ∀ (ss : List MessageSection) (m : Message),
    (∀ s ∈ ss, s.PartRoundTrips) →
      m.decodeFrom (ss.flatMap MessageSection.encode) = .ok (ss.foldl Message.add m, []) := by
  intro ss
  induction ss with
  | nil =>
    intro m _
    rw [Message.decodeFrom_eq]; rfl
  | cons s ss ih =>
    intro m h
    have hread : m.round (s.encode ++ ss.flatMap MessageSection.encode) =
        .ok (m.add s, ss.flatMap MessageSection.encode) := by
      rw [Message.round, Reader.bind_of_ok (decode_section (h s (by simp)) _),
        Reader.pure_apply]
    rw [Message.decodeFrom_eq, List.flatMap_cons, if_neg (by simp [section_encode_ne_nil]),
      Reader.bind_of_ok hread, List.foldl_cons]
    exact ih (m.add s) (fun t ht => h t (by simp [ht]))

/-- The sections `Message::encode` writes, in its order. -/
def Message.sections (m : Message) : List MessageSection :=
  m.header.toList.map .header ++ m.deliveryAnnotations.toList.map .deliveryAnnotations ++
    m.messageAnnotations.toList.map .messageAnnotations ++
    m.properties.toList.map .properties ++
    m.applicationProperties.toList.map .applicationProperties ++
    m.body.data.map .data ++ m.body.sequence.map .amqpSequence ++
    m.body.value.toList.map .amqpValue ++ m.footer.toList.map .footer

omit [Chrono] in
theorem encodeSection_eq {α : Type} [AmqpEncoder α] (d : Descriptor) (f : α → MessageSection)
    (hf : ∀ x, (f x).encode = encode d ++ encode x) (o : Option α) :
    encodeSection d o = (o.toList.map f).flatMap MessageSection.encode := by
  cases o <;> simp [encodeSection, hf]

omit [Chrono] in
theorem encodeOwnSection_eq {α : Type} [AmqpEncoder α] (f : α → MessageSection)
    (hf : ∀ x, (f x).encode = encode x) (o : Option α) :
    encodeOwnSection o = (o.toList.map f).flatMap MessageSection.encode := by
  cases o <;> simp [encodeOwnSection, hf]

omit [Chrono] in
theorem encode_body (b : MessageBody) : encode b =
    (b.data.map MessageSection.data).flatMap MessageSection.encode ++
      (b.sequence.map MessageSection.amqpSequence).flatMap MessageSection.encode ++
      (b.value.toList.map MessageSection.amqpValue).flatMap MessageSection.encode := by
  rw [List.flatMap_map, List.flatMap_map,
    ← encodeSection_eq messageBodyValue MessageSection.amqpValue (fun _ => rfl)]
  obtain ⟨data, sequence, value⟩ := b
  cases value <;> rfl

omit [Chrono] in
/-- **What `Message::encode` writes**: its sections, one after another. -/
theorem encode_eq_sections (m : Message) :
    encode m = m.sections.flatMap MessageSection.encode := by
  have hm : encode m = encodeOwnSection m.header ++
      encodeSection messageDeliveryAnnotations m.deliveryAnnotations ++
      encodeSection Amqp.messageAnnotations m.messageAnnotations ++
      encodeOwnSection m.properties ++
      encodeSection messageApplicationProperties m.applicationProperties ++ encode m.body ++
      encodeSection messageFooter m.footer := rfl
  rw [hm, encode_body, encodeOwnSection_eq .header (fun _ => rfl),
    encodeOwnSection_eq .properties (fun _ => rfl),
    encodeSection_eq _ .deliveryAnnotations (fun _ => rfl),
    encodeSection_eq _ .messageAnnotations (fun _ => rfl),
    encodeSection_eq _ .applicationProperties (fun _ => rfl),
    encodeSection_eq _ .footer (fun _ => rfl)]
  simp only [Message.sections, List.flatMap_append, List.append_assoc]

omit [Chrono] in
theorem foldl_add_data : ∀ (ds : List Bytes) (m : Message),
    (ds.map MessageSection.data).foldl Message.add m =
      { m with body := { m.body with data := m.body.data ++ ds } } := by
  intro ds
  induction ds with
  | nil => simp
  | cons d ds ih =>
    intro m
    rw [List.map_cons, List.foldl_cons, ih]
    simp [Message.add]

omit [Chrono] in
theorem foldl_add_sequence : ∀ (ls : List AmqpList) (m : Message),
    (ls.map MessageSection.amqpSequence).foldl Message.add m =
      { m with body := { m.body with sequence := m.body.sequence ++ ls } } := by
  intro ls
  induction ls with
  | nil => simp
  | cons l ls ih =>
    intro m
    rw [List.map_cons, List.foldl_cons, ih]
    simp [Message.add]

section Options

/-! A section that there is at most one of is put into its field. -/

variable (m : Message)

omit [Chrono] in
theorem foldl_add_header (o : Option Header) :
    (o.toList.map .header).foldl Message.add m = { m with header := o.or m.header } := by
  cases o <;> rfl

omit [Chrono] in
theorem foldl_add_deliveryAnnotations (o : Option Annotations) :
    (o.toList.map .deliveryAnnotations).foldl Message.add m =
      { m with deliveryAnnotations := o.or m.deliveryAnnotations } := by
  cases o <;> rfl

omit [Chrono] in
theorem foldl_add_messageAnnotations (o : Option Annotations) :
    (o.toList.map .messageAnnotations).foldl Message.add m =
      { m with messageAnnotations := o.or m.messageAnnotations } := by
  cases o <;> rfl

omit [Chrono] in
theorem foldl_add_properties (o : Option Properties) :
    (o.toList.map .properties).foldl Message.add m =
      { m with properties := o.or m.properties } := by
  cases o <;> rfl

omit [Chrono] in
theorem foldl_add_applicationProperties (o : Option ApplicationProperties) :
    (o.toList.map .applicationProperties).foldl Message.add m =
      { m with applicationProperties := o.or m.applicationProperties } := by
  cases o <;> rfl

omit [Chrono] in
theorem foldl_add_value (o : Option Value) :
    (o.toList.map .amqpValue).foldl Message.add m =
      { m with body := { m.body with value := o.or m.body.value } } := by
  cases o <;> rfl

omit [Chrono] in
theorem foldl_add_footer (o : Option Annotations) :
    (o.toList.map .footer).foldl Message.add m = { m with footer := o.or m.footer } := by
  cases o <;> rfl

end Options

omit [Chrono] in
/-- Putting the sections of a message in place, from the empty message, gives the message. -/
theorem foldl_add_sections (m : Message) : m.sections.foldl Message.add {} = m := by
  simp only [Message.sections, List.foldl_append, foldl_add_header, foldl_add_deliveryAnnotations,
    foldl_add_messageAnnotations, foldl_add_properties, foldl_add_applicationProperties,
    foldl_add_data, foldl_add_sequence, foldl_add_value, foldl_add_footer, Option.or_none,
    List.nil_append]

/-- The parts of a message, each of which reads back on its own. -/
structure Message.PartsRoundTrip (m : Message) : Prop where
  header : ∀ x ∈ m.header, RoundTrips x
  deliveryAnnotations : ∀ x ∈ m.deliveryAnnotations, RoundTrips x
  messageAnnotations : ∀ x ∈ m.messageAnnotations, RoundTrips x
  properties : ∀ x ∈ m.properties, RoundTrips x
  applicationProperties : ∀ x ∈ m.applicationProperties, RoundTrips x
  data : ∀ x ∈ m.body.data, RoundTrips x
  sequence : ∀ x ∈ m.body.sequence, RoundTrips x
  value : ∀ x ∈ m.body.value, RoundTrips x
  footer : ∀ x ∈ m.footer, RoundTrips x

theorem sections_roundTrip {m : Message} (h : m.PartsRoundTrip) :
    ∀ s ∈ m.sections, s.PartRoundTrips := by
  intro s hs
  simp only [Message.sections, List.mem_append, List.mem_map, Option.mem_toList] at hs
  rcases hs with (((((((⟨x, hx, rfl⟩ | ⟨x, hx, rfl⟩) | ⟨x, hx, rfl⟩) | ⟨x, hx, rfl⟩) |
    ⟨x, hx, rfl⟩) | ⟨x, hx, rfl⟩) | ⟨x, hx, rfl⟩) | ⟨x, hx, rfl⟩) | ⟨x, hx, rfl⟩
  · exact h.header x hx
  · exact h.deliveryAnnotations x hx
  · exact h.messageAnnotations x hx
  · exact h.properties x hx
  · exact h.applicationProperties x hx
  · exact h.data x hx
  · exact h.sequence x hx
  · exact h.value x hx
  · exact h.footer x hx

/-- **A message reads back**, given that its parts do: every section comes back in its own
field, the data and the sequences in their order, and nothing else appears.

The sections of the message come back one by one (`decodeFrom_sections`), and put into place they
are the message (`foldl_add_sections`). -/
theorem message_decode_encode (m : Message) (h : m.PartsRoundTrip) :
    Message.decode (encode m) = .ok (m, []) := by
  rw [Message.decode_eq, encode_eq_sections, decodeFrom_sections _ _ (sections_roundTrip h),
    foldl_add_sections]

end Chrono

/-- A message with annotations, two data sections, a sequence, a value and a footer. -/
def sampleMessage : Message :=
  { messageAnnotations := some HashMap.empty
    footer := some (HashMap.empty.insert (.ulong 8) (.simple .null) rfl)
    body := { data := [[1, 2], [3]], sequence := [⟨[.simple (.uint 5)]⟩]
              value := some (.simple (.boolean true)) } }

/-- The rule at a message with two data sections. -/
theorem message_decode_encode_sample :
    @Message.decode Chrono.range (encode sampleMessage) = .ok (sampleMessage, []) := by
  let _ := Chrono.range
  refine message_decode_encode sampleMessage ⟨?_, ?_, ?_, ?_, ?_, ?_, ?_, ?_, ?_⟩
  all_goals simp only [sampleMessage, Option.mem_def, Option.some.injEq, List.mem_cons,
    List.not_mem_nil, or_false, reduceCtorEq, false_imp_iff, implies_true, forall_eq',
    forall_eq_or_imp, forall_eq]
  · exact fun _ => rfl
  · exact ⟨fun _ => rfl, fun _ => rfl⟩
  · exact fun _ => rfl
  · exact fun _ => rfl
  · exact fun _ => rfl

end RabbitMqStream.Amqp
