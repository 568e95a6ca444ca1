/-
# Headers and properties: lists of optional fields

A header and a properties section are lists of fields, written in order and read back by index:
`list_decoder!` makes a function that reads field number `idx` and puts it in its place, and
`List::decode_with_fields` calls it for as many indices as the list has elements.

* `header_roundTrips`, `properties_roundTrips`: a header always comes back, properties do as long
  as their fields take at most 254 bytes.  What happens past that is in
  `Amqp/LongProperties.lean`.
* `omitted_eq_null_iff`: a list may stop before its last field.  For properties a field that is
  left out means the same as a field that is `Null`.  For a header it does not: the delivery
  count has the default 0 in `Header::default`, which holds where the field is left out, and 4 in
  the table of the macro, which holds where it is `Null`.

**The argument.**  A list of fields is read by an induction on the fields with the record so far
as the accumulator.  A field that is there, or `Null` in place of one that is not, goes into its
own place and touches no other.  For padding, the same loop is followed a second time with more
rounds at its end: these read `Null` into fields that are still missing, and for properties that
leaves them missing (`fields_nulls`).  In a header one of the fields has a default in the record
and another one in the table, so that one round makes a difference (`fields_nulls_deliveryCount`).
-/
import RabbitMqStream.Amqp.Compound
import Mathlib.Tactic.IntervalCases

namespace RabbitMqStream.Amqp

open Wire

/-! ## 1. Reading the fields

One round of the loop reads one field, present or `Null`, and puts it into its place.  Rounds
are put together with the record so far in between. -/

section Fields

variable {T : Type} {f : ℕ → T → AmqpReader T}

theorem fields_cons {count idx : ℕ} {dest dest' : T} {b rest : Bytes}
    (h : f idx dest b = .ok (dest', rest)) :
    AmqpList.fields f (count + 1) idx dest b = AmqpList.fields f count (idx + 1) dest' rest := by
  rw [AmqpList.fields, Reader.bind_of_ok h]

/-- The first fields of a list, then the others. -/
theorem fields_add : ∀ (m n idx : ℕ) (dest : T) (b : Bytes),
    AmqpList.fields f (m + n) idx dest b =
      (AmqpList.fields f m idx dest >>= AmqpList.fields f n (idx + m)) b := by
  intro m
  induction m with
  | zero =>
    intro n idx dest b
    rw [Nat.zero_add, Nat.add_zero]; rfl
  | succ m ih =>
    intro n idx dest b
    rw [Nat.add_right_comm, AmqpList.fields, AmqpList.fields, bind_assoc, Reader.bind_apply,
      Reader.bind_apply]
    cases f idx dest b with
    | error e => rfl
    | ok p =>
      have h := ih n (idx + 1) p.1 p.2
      rw [show idx + 1 + m = idx + (m + 1) by omega] at h
      exact h

instance fields_isLocal [hf : ∀ i x, Reader.IsLocal (f i x)] :
    ∀ (count idx : ℕ) (dest : T), Reader.IsLocal (AmqpList.fields f count idx dest) := by
  intro count
  induction count with
  | zero => exact fun _ dest => inferInstanceAs (Reader.IsLocal (pure dest))
  | succ count ih => exact fun idx dest => (hf idx dest).bind fun x => ih (idx + 1) x

end Fields

/-- An optional field, read into its place. -/
theorem listField_encode {α T : Type} [AmqpEncoder α] [AmqpDecoder α] {o : Option α}
    (h : RoundTrips o) (set : Option α → T) (rest : Bytes) :
    listField set (encode o ++ rest) = .ok (set o, rest) := decodeAs_encode h set rest

/-- A field that is `Null`. -/
theorem listField_null {α T : Type} [AmqpDecoder α] (set : Option α → T) (rest : Bytes) :
    listField set (encode TypeCode.null ++ rest) = .ok (set none, rest) :=
  decodeAs_of_ok ((Reader.bind_of_ok (Reader.lookahead_of_ok (typeCode_decode .null rest))).trans
    (Reader.bind_of_ok (typeCode_decode .null rest))) set

instance {α T : Type} [AmqpDecoder α] [Progress α] [Plain α] (set : Option α → T) :
    Reader.IsLocal (listField set) := inferInstanceAs (Reader.IsLocal (decodeAs set))

instance (idx : ℕ) (dest : Header) : Reader.IsLocal (listDecoderHeader idx dest) := by
  unfold listDecoderHeader
  split <;> infer_instance

instance [Chrono] (idx : ℕ) (dest : Properties) :
    Reader.IsLocal (listDecoderProperties idx dest) := by
  unfold listDecoderProperties
  split <;> infer_instance

/-- Behind its descriptor a header is a list of fields. -/
theorem header_decode (b : Bytes) : Header.decode (encode messageHeader ++ b) =
    AmqpList.decodeWithFields listDecoderHeader {} b := by
  have h := descriptor_decode 112 b
  rw [Header.decode, show encode messageHeader = encode (Descriptor.ulong 112) from rfl,
    Reader.bind_of_ok h]
  rfl

theorem properties_decode [Chrono] (b : Bytes) : Properties.decode (encode messageProperties ++ b) =
    AmqpList.decodeWithFields listDecoderProperties {} b := by
  have h := descriptor_decode 115 b
  rw [Properties.decode, show encode messageProperties = encode (Descriptor.ulong 115) from rfl,
    Reader.bind_of_ok h]
  rfl

/-! ## 2. Written and read back

The fields that the encoder has written, taken in one after the other from the default record.
A header is always short; properties are if their content is. -/

/-- The fields of a header come back on their own. -/
structure Header.FieldsRoundTrip (h : Header) : Prop where
  durable : RoundTrips h.durable
  priority : RoundTrips h.priority
  ttl : ∀ x ∈ h.ttl, RoundTrips x
  firstAcquirer : RoundTrips h.firstAcquirer
  deliveryCount : RoundTrips h.deliveryCount

theorem uint_encodedSize (n : UInt32) :
    encodedSize n = 1 ∨ encodedSize n = 2 ∨ encodedSize n = 5 := by
  simp only [AmqpEncoder.encodedSize]
  split
  · exact Or.inl rfl
  · split
    · exact Or.inr (Or.inr rfl)
    · exact Or.inr (Or.inl rfl)

/-- A header takes the one-byte form. -/
theorem header_narrow (h : Header) : ¬ (h.contentSize + encodedSize messageHeader > 255) := by
  have hcount := uint_encodedSize h.deliveryCount
  have httl : encodedSize h.ttl = 1 ∨ encodedSize h.ttl = 2 ∨ encodedSize h.ttl = 5 := by
    cases h.ttl with
    | none => exact Or.inl rfl
    | some n => exact uint_encodedSize n
  have hsum : h.contentSize = 1 + 2 + encodedSize h.ttl + 1 + encodedSize h.deliveryCount := rfl
  rw [hsum]
  rcases httl with ht | ht | ht <;> rcases hcount with hc | hc | hc <;> rw [ht, hc] <;> decide

/-- **A header comes back.** -/
theorem header_roundTrips {h : Header} (hf : h.FieldsRoundTrip) : RoundTrips h := by
  intro rest
  have henc : encode h = encode messageHeader ++ (encode TypeCode.list8 ++
      (toBE 1 (h.contentSize + 4).toNat ++ (toBE 1 5 ++ h.encodeFields))) := by
    change encode messageHeader ++ (if _ then _ else _ : Bytes) ++ h.encodeFields = _
    rw [if_neg (header_narrow h)]
    simp only [List.append_assoc]
  have hfields : h.encodeFields ++ rest = encode (some h.durable) ++ (encode (some h.priority) ++
      (encode h.ttl ++ (encode (some h.firstAcquirer) ++
        (encode (some h.deliveryCount) ++ rest)))) := by
    simp only [Header.encodeFields, List.append_assoc]
    rfl
  have hdecode : decode (encode h ++ rest) =
      AmqpList.fields listDecoderHeader 5 0 {} (h.encodeFields ++ rest) := by
    rw [henc]
    simp only [List.append_assoc]
    refine (header_decode _).trans ((afterCode_encode _ .list8 _).trans ?_)
    exact Reader.bind_of_ok (count8_encode _ (by decide) _)
  rw [hdecode, hfields, fields_cons (listField_encode hf.durable.some _ _),
    fields_cons (listField_encode hf.priority.some _ _),
    fields_cons (listField_encode (option_roundTrips hf.ttl) _ _),
    fields_cons (listField_encode hf.firstAcquirer.some _ _),
    fields_cons (listField_encode hf.deliveryCount.some _ _)]
  rfl

/-- How much the size of a message id is off by. -/
def MessageId.excess : MessageId → ℕ
  | .long id => if Long.isWide id then 0 else 1
  | _ => 0

theorem announces_messageId {id : MessageId} (h : (encode id).length < 2 ^ 32) :
    Announces (encodedSize id) (encode id) id.excess := by
  cases id with
  | ulong id => exact announces_u64 id
  | long id => exact announces_i64 id
  | uuid id => exact announces_uuid id
  | binary id => exact announces_binary h
  | string id => exact announces_text .string8 .string32 h

/-- An optional field is off by what its content is off by, and a missing one is the byte of
`Null`. -/
theorem announces_optional {α : Type} [AmqpEncoder α] {excess : α → ℕ}
    (h : ∀ x : α, (encode x).length < 2 ^ 32 → Announces (encodedSize x) (encode x) (excess x))
    {o : Option α} (hlt : (encode o).length < 2 ^ 32) :
    Announces (encodedSize o) (encode o) (o.elim 0 excess) := by
  cases o with
  | none => rfl
  | some x => exact h x hlt

theorem announces_optionalExact {α : Type} [AmqpEncoder α]
    (h : ∀ x : α, (encode x).length < 2 ^ 32 → Announces (encodedSize x) (encode x) 0)
    {o : Option α} (hlt : (encode o).length < 2 ^ 32) :
    Announces (encodedSize o) (encode o) 0 := by
  have hoff := announces_optional h hlt
  cases o with
  | none => exact hoff
  | some _ => exact hoff

theorem announces_optionalText {o : Option String} (h : (encode o).length < 2 ^ 32) :
    Announces (encodedSize o) (encode o) 0 :=
  announces_optionalExact (fun _ => announces_text .string8 .string32) h

theorem announces_optionalSymbol {o : Option Symbol} (h : (encode o).length < 2 ^ 32) :
    Announces (encodedSize o) (encode o) 0 :=
  announces_optionalExact (fun _ => announces_text .symbol8 .symbol32) h

theorem announces_time (t : Timestamp) : Announces (encodedSize t) (encode t) 0 := rfl

theorem announces_optionalTime {o : Option Timestamp} (h : (encode o).length < 2 ^ 32) :
    Announces (encodedSize o) (encode o) 0 :=
  announces_optionalExact (fun t _ => announces_time t) h

/-- The two message ids are the fields whose size can be off. -/
def Properties.excess (p : Properties) : ℕ :=
  p.messageId.elim 0 MessageId.excess + p.correlationId.elim 0 MessageId.excess

theorem Properties.excess_le (p : Properties) : p.excess ≤ 2 := by
  have h : ∀ o : Option MessageId, o.elim 0 MessageId.excess ≤ 1 := by
    intro o
    cases o with
    | none => exact Nat.zero_le 1
    | some id =>
      cases id with
      | long n =>
        change (if Long.isWide n then 0 else 1) ≤ 1
        split <;> decide
      | _ => exact Nat.zero_le 1
  exact Nat.add_le_add (h p.messageId) (h p.correlationId)

/-- The size of the fields as `content_size` computes it: their bytes, and one more for every
small long among the message ids. -/
def Properties.bulk (p : Properties) : ℕ := p.encodeFields.length + p.excess

theorem properties_contentSize {p : Properties} (hlt : p.encodeFields.length < 2 ^ 32) :
    p.contentSize = UInt32.ofNat p.bulk := by
  simp only [Properties.encodeFields, List.length_append] at hlt
  have hid : ∀ {o : Option MessageId}, (encode o).length < 2 ^ 32 →
      Announces (encodedSize o) (encode o) (o.elim 0 MessageId.excess) :=
    announces_optional fun _ => announces_messageId
  have h1 := (hid (o := p.messageId) (by omega)).append
    (announces_optionalExact (o := p.userId) (fun _ => announces_binary) (by omega))
  have h2 := ((h1.append (announces_optionalText (o := p.to) (by omega))).append
    (announces_optionalText (o := p.subject) (by omega))).append
    (announces_optionalText (o := p.replyTo) (by omega))
  have h3 := ((h2.append (hid (o := p.correlationId) (by omega))).append
    (announces_optionalSymbol (o := p.contentType) (by omega))).append
    (announces_optionalSymbol (o := p.contentEncoding) (by omega))
  have h4 := ((h3.append (announces_optionalTime (o := p.absoluteExpiryTime) (by omega))).append
    (announces_optionalTime (o := p.creationTime) (by omega))).append
    (announces_optionalText (o := p.groupId) (by omega))
  have h5 := (h4.append (announces_optionalExact (o := p.groupSequence)
    (fun n _ => announces_u32 n) (by omega))).append
    (announces_optionalText (o := p.replyToGroupId) (by omega))
  simp only [Nat.add_zero] at h5
  exact h5

/-- The fields of a properties section come back on their own. -/
structure Properties.FieldsRoundTrip [Chrono] (p : Properties) : Prop where
  messageId : ∀ x ∈ p.messageId, RoundTrips x
  userId : ∀ x ∈ p.userId, RoundTrips x
  «to» : ∀ x ∈ p.to, RoundTrips x
  subject : ∀ x ∈ p.subject, RoundTrips x
  replyTo : ∀ x ∈ p.replyTo, RoundTrips x
  correlationId : ∀ x ∈ p.correlationId, RoundTrips x
  contentType : ∀ x ∈ p.contentType, RoundTrips x
  contentEncoding : ∀ x ∈ p.contentEncoding, RoundTrips x
  absoluteExpiryTime : ∀ x ∈ p.absoluteExpiryTime, RoundTrips x
  creationTime : ∀ x ∈ p.creationTime, RoundTrips x
  groupId : ∀ x ∈ p.groupId, RoundTrips x
  groupSequence : ∀ x ∈ p.groupSequence, RoundTrips x
  replyToGroupId : ∀ x ∈ p.replyToGroupId, RoundTrips x

theorem encode_properties (p : Properties) : encode p = encode messageProperties ++
    (Compound.frame .list8 .list8 p.contentSize 13 ++ p.encodeFields) := List.append_assoc _ _ _

section Chrono

variable [Chrono]

/-- The fields of a properties section, read one after another. -/
theorem properties_fields {p : Properties} (hf : p.FieldsRoundTrip) (rest : Bytes) :
    AmqpList.fields listDecoderProperties 13 0 {} (p.encodeFields ++ rest) = .ok (p, rest) := by
  have hfields : p.encodeFields ++ rest = encode p.messageId ++ (encode p.userId ++
      (encode p.to ++ (encode p.subject ++ (encode p.replyTo ++ (encode p.correlationId ++
      (encode p.contentType ++ (encode p.contentEncoding ++ (encode p.absoluteExpiryTime ++
      (encode p.creationTime ++ (encode p.groupId ++ (encode p.groupSequence ++
      (encode p.replyToGroupId ++ rest)))))))))))) := by
    simp only [Properties.encodeFields, List.append_assoc]
  rw [hfields, fields_cons (listField_encode (option_roundTrips hf.messageId) _ _),
    fields_cons (listField_encode (option_roundTrips hf.userId) _ _),
    fields_cons (listField_encode (option_roundTrips hf.to) _ _),
    fields_cons (listField_encode (option_roundTrips hf.subject) _ _),
    fields_cons (listField_encode (option_roundTrips hf.replyTo) _ _),
    fields_cons (listField_encode (option_roundTrips hf.correlationId) _ _),
    fields_cons (listField_encode (option_roundTrips hf.contentType) _ _),
    fields_cons (listField_encode (option_roundTrips hf.contentEncoding) _ _),
    fields_cons (listField_encode (option_roundTrips hf.absoluteExpiryTime) _ _),
    fields_cons (listField_encode (option_roundTrips hf.creationTime) _ _),
    fields_cons (listField_encode (option_roundTrips hf.groupId) _ _),
    fields_cons (listField_encode (option_roundTrips hf.groupSequence) _ _),
    fields_cons (listField_encode (option_roundTrips hf.replyToGroupId) _ _)]
  rfl

/-- **Short properties come back.** -/
theorem properties_roundTrips {p : Properties} (hf : p.FieldsRoundTrip) (hsmall : p.bulk ≤ 254) :
    RoundTrips p := by
  intro rest
  have hbulk : p.bulk = p.encodeFields.length + p.excess := rfl
  have hsize := properties_contentSize (p := p) (by omega)
  have hnarrow : ¬ Compound.isWide p.contentSize := by
    rw [isWide_iff hsize (by omega)]
    omega
  rw [encode_properties, list8_frame hnarrow, List.append_assoc, List.append_assoc]
  refine (properties_decode _).trans (Eq.trans ?_ (properties_fields hf rest))
  refine decode_frame (g := fun count => AmqpList.fields listDecoderProperties count 0 {}) ?_ ?_
    (fun _ => ?_) ?_ _
  · rfl
  · rfl
  · decide
  · decide

/-! ## 3. Fields that are left out

A list that was read is read again with more elements behind it, all of them `Null`.  The
question is what the additional rounds do to a record whose fields from there on are missing. -/

end Chrono

/-- The ways to start a list of `n` elements.  The decoder does not look at the size. -/
inductive ListHead : ℕ → Bytes → Prop where
  | list0 : ListHead 0 (encode TypeCode.list0)
  | list8 (size count : UInt8) : ListHead count.toNat (encode TypeCode.list8 ++ [size, count])
  | list32 (size count : Bytes) (hsize : size.length = 4) (hcount : count.length = 4) :
      ListHead (ofBE count) (encode TypeCode.list32 ++ (size ++ count))

theorem count8_bytes (size count : UInt8) (b : Bytes) :
    Compound.count8 (size :: count :: b) = .ok (count.toNat, b) := by
  have h := count8_encode size.toNat count.toNat_lt b
  rwa [toBE_one, toBE_one, UInt8.ofNat_toNat, UInt8.ofNat_toNat] at h

theorem count32_bytes {size count : Bytes} (hsize : size.length = 4) (hcount : count.length = 4)
    (b : Bytes) : Compound.count32 (size ++ (count ++ b)) = .ok (ofBE count, b) := by
  have hlt := ofBE_lt count
  rw [hcount] at hlt
  rw [Compound.count32, Reader.bind_of_ok (readU32_of_length hsize _),
    Reader.bind_of_ok (readU32_of_length hcount _), UInt32.toNat_ofNat',
    Nat.mod_eq_of_lt (by omega), Reader.pure_apply]

/-- However a list starts, its fields are read one after another. -/
theorem decodeWithFields_head {T : Type} {f : ℕ → T → AmqpReader T} {n : ℕ} {head : Bytes}
    (h : ListHead n head) (dest : T) (b : Bytes) :
    AmqpList.decodeWithFields f dest (head ++ b) = AmqpList.fields f n 0 dest b := by
  cases h with
  | list0 => exact afterCode_encode _ .list0 b
  | list8 size count =>
    rw [List.append_assoc]
    exact (afterCode_encode _ .list8 _).trans (Reader.bind_of_ok (count8_bytes size count b))
  | list32 size count hsize hcount =>
    rw [List.append_assoc, List.append_assoc]
    exact (afterCode_encode _ .list32 _).trans
      (Reader.bind_of_ok (count32_bytes hsize hcount b))

/-- `n` elements that are `Null`. -/
def nulls (n : ℕ) : Bytes := (List.replicate n (encode TypeCode.null)).flatten

theorem nulls_succ (n : ℕ) (rest : Bytes) :
    nulls (n + 1) ++ rest = encode TypeCode.null ++ (nulls n ++ rest) := by
  rw [nulls, List.replicate_succ, List.flatten_cons, List.append_assoc]
  rfl

/-- A list that was read can be read again with more fields behind the ones it had. -/
theorem fields_padded {T : Type} {f : ℕ → T → AmqpReader T} [∀ i x, Reader.IsLocal (f i x)]
    {n m : ℕ} {dest x : T} {fs rest : Bytes}
    (h : AmqpList.fields f n 0 dest (fs ++ rest) = .ok (x, rest)) (tail : Bytes) :
    AmqpList.fields f (n + m) 0 dest (fs ++ tail) = AmqpList.fields f m n x tail := by
  obtain ⟨c, hc, hread⟩ := (fields_isLocal n 0 dest).isLocal _ _ _ h
  have hfs : fs = c := List.append_cancel_right hc
  rw [fields_add, hfs, Reader.bind_of_ok (hread tail), Nat.zero_add]

theorem listField_eq_ok {α T : Type} [AmqpDecoder α] {set : Option α → T} {b rest : Bytes} {x : T}
    (h : listField set b = .ok (x, rest)) : ∃ o, x = set o := by
  obtain ⟨o, hx, -⟩ := decodeAs_eq_ok h
  exact ⟨o, hx⟩

/-- The fields from number `i` on are missing. -/
structure Properties.MissingFrom (i : ℕ) (p : Properties) : Prop where
  messageId : i ≤ 0 → p.messageId = none
  userId : i ≤ 1 → p.userId = none
  «to» : i ≤ 2 → p.to = none
  subject : i ≤ 3 → p.subject = none
  replyTo : i ≤ 4 → p.replyTo = none
  correlationId : i ≤ 5 → p.correlationId = none
  contentType : i ≤ 6 → p.contentType = none
  contentEncoding : i ≤ 7 → p.contentEncoding = none
  absoluteExpiryTime : i ≤ 8 → p.absoluteExpiryTime = none
  creationTime : i ≤ 9 → p.creationTime = none
  groupId : i ≤ 10 → p.groupId = none
  groupSequence : i ≤ 11 → p.groupSequence = none
  replyToGroupId : i ≤ 12 → p.replyToGroupId = none

section Chrono

variable [Chrono]

omit [Chrono] in
theorem Properties.MissingFrom.mono {i j : ℕ} {p : Properties} (h : p.MissingFrom i)
    (hij : i ≤ j) : p.MissingFrom j := by
  obtain ⟨h0, h1, h2, h3, h4, h5, h6, h7, h8, h9, h10, h11, h12⟩ := h
  exact ⟨fun hj => h0 (by omega), fun hj => h1 (by omega), fun hj => h2 (by omega),
    fun hj => h3 (by omega), fun hj => h4 (by omega), fun hj => h5 (by omega),
    fun hj => h6 (by omega), fun hj => h7 (by omega), fun hj => h8 (by omega),
    fun hj => h9 (by omega), fun hj => h10 (by omega), fun hj => h11 (by omega),
    fun hj => h12 (by omega)⟩

/-- Reading a field leaves the ones behind it missing. -/
theorem listDecoderProperties_missing {i : ℕ} {p p' : Properties} {b rest : Bytes}
    (h : p.MissingFrom i) (hread : listDecoderProperties i p b = .ok (p', rest)) :
    p'.MissingFrom (i + 1) := by
  have hnext := h.mono (Nat.le_succ i)
  unfold listDecoderProperties at hread
  split at hread
  case h_14 =>
    simp only [Reader.pure_apply, Except.ok.injEq, Prod.mk.injEq] at hread
    rw [← hread.1]
    exact hnext
  all_goals obtain ⟨o, rfl⟩ := listField_eq_ok hread
  · exact { hnext with messageId := by omega }
  · exact { hnext with userId := by omega }
  · exact { hnext with «to» := by omega }
  · exact { hnext with subject := by omega }
  · exact { hnext with replyTo := by omega }
  · exact { hnext with correlationId := by omega }
  · exact { hnext with contentType := by omega }
  · exact { hnext with contentEncoding := by omega }
  · exact { hnext with absoluteExpiryTime := by omega }
  · exact { hnext with creationTime := by omega }
  · exact { hnext with groupId := by omega }
  · exact { hnext with groupSequence := by omega }
  · exact { hnext with replyToGroupId := by omega }

theorem fields_missing : ∀ {n i : ℕ} {p p' : Properties} {b rest : Bytes}, p.MissingFrom i →
    AmqpList.fields listDecoderProperties n i p b = .ok (p', rest) → p'.MissingFrom (i + n) := by
  intro n
  induction n with
  | zero =>
    intro i p p' b rest h hread
    simp only [AmqpList.fields, Reader.pure_apply, Except.ok.injEq, Prod.mk.injEq] at hread
    rw [← hread.1]
    exact h
  | succ n ih =>
    intro i p p' b rest h hread
    obtain ⟨p1, mid, hfield, hrest⟩ := Reader.bind_eq_ok.mp hread
    have h1 := ih (listDecoderProperties_missing h hfield) hrest
    rwa [show i + 1 + n = i + (n + 1) by omega] at h1

/-- A missing field that is read as `Null` is still missing. -/
theorem listDecoderProperties_null {i : ℕ} {p : Properties} (h : p.MissingFrom i) (hi : i < 13)
    (rest : Bytes) : listDecoderProperties i p (encode TypeCode.null ++ rest) = .ok (p, rest) := by
  have hset : ∀ {p' : Properties}, p' = p →
      (.ok (p', rest) : Except (Fault AmqpDecodeError) (Properties × Bytes)) = .ok (p, rest) := by
    rintro p' rfl; rfl
  obtain ⟨h0, h1, h2, h3, h4, h5, h6, h7, h8, h9, h10, h11, h12⟩ := h
  interval_cases i
  · exact (listField_null _ rest).trans (hset (by rw [← h0 (by omega)]))
  · exact (listField_null _ rest).trans (hset (by rw [← h1 (by omega)]))
  · exact (listField_null _ rest).trans (hset (by rw [← h2 (by omega)]))
  · exact (listField_null _ rest).trans (hset (by rw [← h3 (by omega)]))
  · exact (listField_null _ rest).trans (hset (by rw [← h4 (by omega)]))
  · exact (listField_null _ rest).trans (hset (by rw [← h5 (by omega)]))
  · exact (listField_null _ rest).trans (hset (by rw [← h6 (by omega)]))
  · exact (listField_null _ rest).trans (hset (by rw [← h7 (by omega)]))
  · exact (listField_null _ rest).trans (hset (by rw [← h8 (by omega)]))
  · exact (listField_null _ rest).trans (hset (by rw [← h9 (by omega)]))
  · exact (listField_null _ rest).trans (hset (by rw [← h10 (by omega)]))
  · exact (listField_null _ rest).trans (hset (by rw [← h11 (by omega)]))
  · exact (listField_null _ rest).trans (hset (by rw [← h12 (by omega)]))

theorem fields_nulls : ∀ {n i : ℕ} {p : Properties}, p.MissingFrom i → i + n ≤ 13 →
    ∀ rest : Bytes,
      AmqpList.fields listDecoderProperties n i p (nulls n ++ rest) = .ok (p, rest) := by
  intro n
  induction n with
  | zero =>
    intro i p h hi rest
    exact rfl
  | succ n ih =>
    intro i p h hi rest
    have hnext : p.MissingFrom (i + 1) := listDecoderProperties_missing h
      (listDecoderProperties_null h (by omega) [])
    rw [nulls_succ, fields_cons (listDecoderProperties_null h (by omega) _)]
    exact ih hnext (by omega) rest

end Chrono

/-! A header starts with a delivery count of 0, and reads a `Null` there as 4. -/

theorem listDecoderHeader_deliveryCount {i : ℕ} {h h' : Header} {b rest : Bytes} (hi : i ≠ 4)
    (hread : listDecoderHeader i h b = .ok (h', rest)) : h'.deliveryCount = h.deliveryCount := by
  unfold listDecoderHeader at hread
  split at hread
  case h_5 => exact absurd rfl hi
  case h_6 =>
    simp only [Reader.pure_apply, Except.ok.injEq, Prod.mk.injEq] at hread
    rw [hread.1]
  all_goals
    obtain ⟨o, rfl⟩ := listField_eq_ok hread
    rfl

theorem fields_deliveryCount : ∀ {n i : ℕ} {h h' : Header} {b rest : Bytes}, i + n ≤ 4 →
    AmqpList.fields listDecoderHeader n i h b = .ok (h', rest) →
      h'.deliveryCount = h.deliveryCount := by
  intro n
  induction n with
  | zero =>
    intro i h h' b rest _ hread
    simp only [AmqpList.fields, Reader.pure_apply, Except.ok.injEq, Prod.mk.injEq] at hread
    rw [hread.1]
  | succ n ih =>
    intro i h h' b rest hi hread
    obtain ⟨h1, mid, hfield, hrest⟩ := Reader.bind_eq_ok.mp hread
    rw [ih (by omega) hrest,
      listDecoderHeader_deliveryCount (by omega) hfield]

theorem fields_nulls_deliveryCount : ∀ {n i : ℕ} (h : Header) (rest : Bytes), i + n = 4 →
    ∃ h', AmqpList.fields listDecoderHeader (n + 1) i h (nulls (n + 1) ++ rest) = .ok (h', rest) ∧
      h'.deliveryCount = 4 := by
  intro n
  induction n with
  | zero =>
    intro i h rest hi
    obtain rfl : i = 4 := by omega
    exact ⟨_, (fields_cons (listField_null _ _)).trans rfl, rfl⟩
  | succ n ih =>
    intro i h rest hi
    obtain ⟨h1, hread⟩ : ∃ h1, ∀ b, listDecoderHeader i h (encode TypeCode.null ++ b) =
        .ok (h1, b) := by
      have hlt : i < 4 := by omega
      interval_cases i <;> exact ⟨_, listField_null _⟩
    obtain ⟨h', hrest, hcount⟩ := ih (i := i + 1) h1 rest (by omega)
    refine ⟨h', ?_, hcount⟩
    rw [nulls_succ, fields_cons (hread _)]
    exact hrest

/-- **Omitted fields are `Null` for properties, and for a header only when none is omitted.**  The
list has `n` fields, decodes to a record, and is padded with `Null` up to the full number of
fields.

For properties the record that was read is missing from the field number `n` on, and stays so.
For a header the delivery count is the last field, so it is read as `Null` whenever anything is
omitted. -/
theorem omitted_eq_null_iff [Chrono] :
    (∀ (n : ℕ) (head full fs rest : Bytes) (h : Header), n ≤ 5 → ListHead n head →
        ListHead 5 full →
        Header.decode (encode messageHeader ++ (head ++ (fs ++ rest))) = .ok (h, rest) →
          (Header.decode (encode messageHeader ++ (full ++ (fs ++ (nulls (5 - n) ++ rest)))) =
            .ok (h, rest) ↔ n = 5)) ∧
      (∀ (n : ℕ) (head full fs rest : Bytes) (p : Properties), n ≤ 13 → ListHead n head →
        ListHead 13 full →
        Properties.decode (encode messageProperties ++ (head ++ (fs ++ rest))) = .ok (p, rest) →
          Properties.decode (encode messageProperties ++ (full ++ (fs ++ (nulls (13 - n) ++ rest)))) =
            .ok (p, rest)) := by
  constructor
  · intro n head full fs rest h hn hhead hfull hread
    rw [header_decode, decodeWithFields_head hhead] at hread
    have hpad := fields_padded (m := 5 - n) hread (nulls (5 - n) ++ rest)
    rw [Nat.add_sub_cancel' hn] at hpad
    rw [header_decode, decodeWithFields_head hfull, hpad]
    rcases Nat.lt_or_eq_of_le hn with hlt | rfl
    · refine ⟨fun hok => ?_, fun h5 => absurd h5 (by omega)⟩
      have hzero := fields_deliveryCount (by omega) hread
      obtain ⟨k, hk⟩ : ∃ k, 5 - n = k + 1 := ⟨4 - n, by omega⟩
      rw [hk] at hok
      obtain ⟨h', hfour, hcount⟩ := fields_nulls_deliveryCount (i := n) h rest
        (show n + k = 4 by omega)
      rw [hfour] at hok
      simp only [Except.ok.injEq, Prod.mk.injEq] at hok
      rw [hok.1, hzero] at hcount
      exact absurd hcount (by decide)
    · exact ⟨fun _ => rfl, fun _ => rfl⟩
  · intro n head full fs rest p hn hhead hfull hread
    rw [properties_decode, decodeWithFields_head hhead] at hread
    have hpad := fields_padded (m := 13 - n) hread (nulls (13 - n) ++ rest)
    rw [Nat.add_sub_cancel' hn] at hpad
    have hmissing : p.MissingFrom n := by
      have h0 : Properties.MissingFrom 0 {} := by constructor <;> exact fun _ => rfl
      have hall := fields_missing h0 hread
      rwa [Nat.zero_add] at hall
    rw [properties_decode, decodeWithFields_head hfull, hpad]
    exact fields_nulls hmissing (by omega) rest

/-- The rule at a header with all its fields, and at properties with a message id only. -/
theorem omitted_eq_null_iff_sample : letI := Chrono.range
    Header.decode (encode messageHeader ++ (encode TypeCode.list8 ++ [7, 5] ++
      ([0x41, 0x50, 9, 0x40, 0x42, 0x43] ++ (nulls 0 ++ [])))) =
        .ok ({ durable := true, priority := 9 }, []) ∧
      Properties.decode (encode messageProperties ++ (encode TypeCode.list8 ++ [15, 13] ++
        ([0x53, 7] ++ (nulls 12 ++ [])))) = .ok ({ messageId := some (.ulong 7) }, []) := by
  let _ := Chrono.range
  have hfive : ListHead 5 (encode TypeCode.list8 ++ [7, 5]) := .list8 7 5
  have hone : ListHead 1 (encode TypeCode.list8 ++ [3, 1]) := .list8 3 1
  have hfull : ListHead 13 (encode TypeCode.list8 ++ [15, 13]) := .list8 15 13
  exact ⟨(omitted_eq_null_iff.1 5 _ _ _ [] _ (by decide) hfive hfive rfl).mpr rfl,
    omitted_eq_null_iff.2 1 _ _ _ [] _ (by decide) hone hfull rfl⟩

/-- A header without fields has a delivery count of 0, and one with five `Null` fields one of
4. -/
theorem header_null_deliveryCount :
    Header.decode (encode messageHeader ++ encode TypeCode.list0) = .ok ({}, []) ∧
      Header.decode (encode messageHeader ++ (encode TypeCode.list8 ++ [6, 5] ++ nulls 5)) =
        .ok ({ deliveryCount := 4 }, []) ∧
      ({} : Header) ≠ { deliveryCount := 4 } := ⟨rfl, rfl, by decide⟩

end RabbitMqStream.Amqp
