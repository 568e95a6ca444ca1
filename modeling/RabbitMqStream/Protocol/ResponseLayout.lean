/-
# Where the fields of a response frame are

`Frame.layout` lists the fields of a response frame as a `Wire.Layout`: the length, the header
and, chosen by the masked key, the body.  It says of each field how long it is, whether the
decoder checks its length first, which of its contents are refused, and where the decoder
unwraps or allocates what it should not.  It builds no values; the one decoder in it is that of
the AMQP message inside the bytes of a delivered record.

* `response_follows`: `Response::decode` does what the layout says, on every input.

So each question about how a frame is consumed is one about the layout: what a frame cut short
does to the decoder, how many bytes are removed, when the decoder asks for more.
`Client/Codec.lean` answers them.

**The argument.**  Each decoder is compared with its layout line by line: the primitive ones in
section 3, the bodies out of them in section 5.  One comparison is not line by line.  The bytes of
a message are read by a loop over single bytes and stand in the layout as one field; that they
come to the same, and with the same error when they run out, is section 4.
-/
import RabbitMqStream.Protocol.Response

namespace RabbitMqStream.Protocol.Frame

open Wire

/-! ## 1. The fields

The vocabulary of a frame.  A field is checked, a slice is not; a required string is a crash
where it is absent, and a capacity that is not granted is a crash, too. -/

/-- What kind of stop a failure of a decoder is. -/
def stopOf : Fault DecodeError → Stop
  | .error (.incomplete _) => .incomplete
  | .error _ => .rejected
  | .panic _ => .crashed

abbrev Fields : Type := Layout UInt8

/-- A number of `width` bytes. -/
def number (width : ℕ) : Fields := .field width fun _ => .empty

/-- Numbers of these widths, one behind the other, and what follows them. -/
def numbers : List ℕ → Fields → Fields
  | [], next => next
  | width :: widths, next => .seq (number width) (numbers widths next)

/-- A response code and what follows it. -/
def codeThen (next : ResponseCode → Fields) : Fields :=
  .field 2 fun bs =>
    match ResponseCode.ofU16 (UInt16.ofNat (ofBE bs)) with
    | some c => next c
    | none => .reject

def code : Fields := codeThen fun _ => .empty

/-- A string and what follows it: a checked length, and then the bytes, which are cut out of
the input without a check. -/
def stringThen (next : Option String → Fields) : Fields :=
  .field 2 fun bs =>
    let len := (UInt16.ofNat (ofBE bs)).toInt16
    if len = 0 then next none
    else .slice (asUsize16 len) fun body =>
      match fromUtf8 body with
      | some s => next (some s)
      | none => .reject

def string : Fields := stringThen fun _ => .empty

/-- The end of a record with a required string. -/
def required : Option String → Fields
  | some _ => .empty
  | none => .crash

/-- A `u32` count and the elements. -/
def counted (item : Fields) : Fields :=
  .field 4 fun bs => .repeated (UInt32.ofNat (ofBE bs)).toNat item

section Memory

variable [Allocator]

/-- A capacity, and what is read when it is granted. -/
def granted (C : Type) (n : ℕ) (next : Fields) : Fields :=
  if Allocator.grants C n then next else .crash

/-- An `i32` count and what is made of it, as `read_vec` has it. -/
def allocated (α : Type) (next : ℕ → Fields) : Fields :=
  .field 4 fun bs =>
    let len := (UInt32.ofNat (ofBE bs)).toInt32
    if len < 0 then .crash else granted (List α) (asUsize32 len) (next (asUsize32 len))

def vector (α : Type) (item : Fields) : Fields := allocated α fun count => .repeated count item

/-- The bytes of one message.  They are complete when the AMQP decoder sees them; if it runs
out of bytes all the same, the message in them is cut short. -/
def record [Amqp.Chrono] : Fields :=
  allocated UInt8 fun len => .field len fun body =>
    match Message.decode body with
    | .ok _ => .empty
    | .error (.error (.incomplete _)) => .cut
    | .error (.error _) => .reject
    | .error (.panic _) => .crash

/-! ## 2. The bodies and the frame

The layouts are written from the fields of the decoders, without their values. -/

def strings : Fields := counted string

/-- A `u32` count, for which the map is allocated, and the entries. -/
def stringMap : Fields :=
  .field 4 fun bs =>
    let count := (UInt32.ofNat (ofBE bs)).toNat
    granted (HashMap String String) count (.repeated count (.seq string string))

def broker : Fields :=
  .seq (number 2) (stringThen fun host => .seq (number 4) (required host))

def streamMetadata : Fields :=
  stringThen fun name => .seq code (.seq (number 2) (.seq (vector UInt16 (number 2)) (required name)))

/-- The records of a chunk, for which the vector of the messages is allocated. -/
def records [Amqp.Chrono] (numRecords : ℕ) : Fields :=
  granted (List Message) numRecords (.repeated numRecords record)

/-- The number of the records, the rest of the header of the chunk, and the records. -/
def chunk [Amqp.Chrono] : Fields :=
  .field 4 fun numRecords =>
    numbers [8, 8, 8, 4, 4, 4, 4] (records (UInt32.ofNat (ofBE numRecords)).toNat)

def deliver [Amqp.Chrono] : Fields := numbers [1, 1, 1, 2] chunk

/-- The body a masked key stands for. -/
def body [Amqp.Chrono] (key : UInt16) : Fields :=
  match key.toNat with
  | 21 => .seq (number 4) (codeThen fun c => if c = .ok then stringMap else .empty)
  | 22 => .record [number 4, code]
  | 17 => .record [number 4, code, stringMap]
  | 18 => .record [number 4, code, strings]
  | 1 | 6 | 19 | 7 | 12 | 13 | 29 | 30 | 32794 | 14 => .record [number 4, code]
  | 20 => .record [number 4, number 4]
  | 8 => deliver
  | 23 => .empty
  | 15 => .record [number 4, vector Broker broker, vector StreamMetadata streamMetadata]
  | 16 => .seq code (stringThen required)
  | 3 => .record [number 1, vector UInt64 (number 8)]
  | 4 => .record [number 1, counted (.record [number 8, code])]
  | 11 => .record [number 4, code, number 8]
  | 9 => .record [code, number 1]
  | 5 => .record [number 4, code, number 8]
  | 27 =>
    .record [number 4, code, vector ExchangeCommandVersion (.record [number 2, number 2, number 2])]
  | 25 => .record [number 4, code, strings]
  | 24 => .record [number 4, code, strings]
  | 26 => .record [number 4, number 1, number 1]
  | _ => .reject

/-- The header and the body: what the length in front of a frame is the length of. -/
def headerAndBody [Amqp.Chrono] : Fields :=
  .field 2 fun key => .seq (number 2) (body (extractResponseCode (UInt16.ofNat (ofBE key))))

/-- The length, which the decoder drops, and what it is the length of. -/
def layout [Amqp.Chrono] : Fields := .seq (number 4) headerAndBody

end Memory

/-! ## 3. The primitive decoders follow their fields

The statements that have a rest take it as a parameter, since a count or a code decides what
comes behind it. -/

section Rules

variable {α β : Type}

/-- A number, on which the rest of the decoder may depend. -/
theorem follows_number {n : ℕ} {f : Bytes → α} {k : α → DecodeM β} {l : α → Fields}
    (hk : ∀ x, Follows stopOf (k x) (l x)) :
    Follows stopOf ((readExact n >>= fun bs => pure (f bs)) >>= k)
      (.field n fun bs => l (f bs)) := by
  simp only [bind_assoc, pure_bind]
  exact Follows.field rfl fun bs => hk (f bs)

theorem follows_width (n : ℕ) (f : Bytes → α) :
    Follows stopOf (readExact n >>= fun bs => pure (f bs) : DecodeM α) (number n) :=
  Follows.field rfl fun bs => .pure (f bs)

theorem follows_u8 : Follows stopOf (decode : DecodeM UInt8) (number 1) :=
  follows_width 1 fun bs => UInt8.ofNat (ofBE bs)

theorem follows_i8 : Follows stopOf (decode : DecodeM Int8) (number 1) :=
  follows_width 1 fun bs => (UInt8.ofNat (ofBE bs)).toInt8

theorem follows_u16 : Follows stopOf (decode : DecodeM UInt16) (number 2) :=
  follows_width 2 fun bs => UInt16.ofNat (ofBE bs)

theorem follows_u32 : Follows stopOf (decode : DecodeM UInt32) (number 4) :=
  follows_width 4 fun bs => UInt32.ofNat (ofBE bs)

theorem follows_i32 : Follows stopOf (decode : DecodeM Int32) (number 4) :=
  follows_width 4 fun bs => (UInt32.ofNat (ofBE bs)).toInt32

theorem follows_u64 : Follows stopOf (decode : DecodeM UInt64) (number 8) :=
  follows_width 8 fun bs => UInt64.ofNat (ofBE bs)

/-- A `u32`, on which the rest of the decoder may depend. -/
theorem follows_u32Then {k : UInt32 → DecodeM β} {next : UInt32 → Fields}
    (hk : ∀ n, Follows stopOf (k n) (next n)) :
    Follows stopOf ((decode : DecodeM UInt32) >>= k)
      (.field 4 fun bs => next (UInt32.ofNat (ofBE bs))) :=
  follows_number (f := fun bs => UInt32.ofNat (ofBE bs)) hk

theorem follows_codeThen {k : ResponseCode → DecodeM β} {next : ResponseCode → Fields}
    (hk : ∀ c, Follows stopOf (k c) (next c)) :
    Follows stopOf ((decode : DecodeM ResponseCode) >>= k) (codeThen next) := by
  show Follows stopOf ((readU16 >>= _) >>= k) _
  rw [bind_assoc]
  refine follows_number (l := fun n => match ResponseCode.ofU16 n with
    | some c => next c
    | none => .reject) fun n => ?_
  cases ResponseCode.ofU16 n with
  | some c => exact hk c
  | none => exact Follows.throw rfl

theorem follows_code : Follows stopOf (decode : DecodeM ResponseCode) code := by
  have h := follows_codeThen (k := pure) fun c => Follows.pure c
  rwa [bind_pure] at h

theorem follows_stringThen {k : Option String → DecodeM β} {next : Option String → Fields}
    (hk : ∀ o, Follows stopOf (k o) (next o)) :
    Follows stopOf ((decode : DecodeM (Option String)) >>= k) (stringThen next) := by
  show Follows stopOf ((readI16 >>= _) >>= k) _
  rw [bind_assoc]
  refine follows_number (l := fun len => if len = 0 then next none
    else .slice (asUsize16 len) fun body => match fromUtf8 body with
      | some s => next (some s)
      | none => .reject) fun len => ?_
  by_cases hlen : len = 0
  · rw [if_pos hlen, if_pos hlen, pure_bind]
    exact hk none
  · rw [if_neg hlen, if_neg hlen, bind_assoc]
    refine Follows.slice rfl fun body => ?_
    cases fromUtf8 body with
    | some s => exact hk (some s)
    | none => exact Follows.throw rfl

theorem follows_string : Follows stopOf (decode : DecodeM (Option String)) string := by
  have h := follows_stringThen (k := pure) fun o => Follows.pure o
  rwa [bind_pure] at h

/-- Unwrapping a string at the end of a record. -/
theorem follows_unwrap (f : String → β) (o : Option String) :
    Follows stopOf (unwrap o >>= fun s => pure (f s) : DecodeM β) (required o) := by
  cases o with
  | some s => exact Follows.pure _
  | none => exact Follows.crash rfl

theorem follows_pushLoop {elem : DecodeM α} {item : Fields} (h : Follows stopOf elem item)
    (n : ℕ) : Follows stopOf (pushLoop elem n) (.repeated n item) :=
  Follows.loop (fun _ => h.map _) n []

theorem follows_granted [Allocator] {C : Type} {n : ℕ} {k : DecodeM β} {next : Fields}
    (hk : Follows stopOf k next) :
    Follows stopOf (withCapacity C n >>= fun _ => k) (granted C n next) := by
  unfold withCapacity granted
  split
  · rwa [pure_bind]
  · exact Follows.crash rfl

theorem follows_allocated [Allocator] {k : ℕ → DecodeM β} {next : ℕ → Fields}
    (hk : ∀ n, Follows stopOf (k n) (next n)) :
    Follows stopOf ((readI32 : DecodeM Int32) >>= fun len =>
      if len < 0 then throw (.panic .capacityOverflow)
      else withCapacity (List α) (asUsize32 len) >>= fun _ => k (asUsize32 len))
      (allocated α next) := by
  refine follows_number (l := fun len =>
    if len < 0 then .crash
    else granted (List α) (asUsize32 len) (next (asUsize32 len))) fun len => ?_
  split
  · exact Follows.crash rfl
  · exact follows_granted (hk _)

theorem follows_readVec [Allocator] [Decoder α] {item : Fields}
    (h : Follows stopOf (decode : DecodeM α) item) :
    Follows stopOf (readVec : DecodeM (List α)) (vector α item) :=
  follows_allocated fun n => follows_pushLoop h n

theorem follows_counted {body : β → DecodeM β} {item : Fields}
    (h : ∀ acc, Follows stopOf (body acc) item) (acc : β) :
    Follows stopOf ((readU32 : DecodeM UInt32) >>= fun count =>
      Reader.loop body count.toNat acc) (counted item) :=
  follows_u32Then fun count => Follows.loop h count.toNat acc

end Rules

/-- An absent string of a vector is left out, its length has been read all the same. -/
theorem follows_strings : Follows stopOf (decode : DecodeM (List String)) strings := by
  refine follows_counted (fun vec => follows_stringThen fun value => ?_) []
  cases value with
  | some v => exact .pure (vec ++ [v])
  | none => exact .pure vec

theorem follows_stringMap [Allocator] :
    Follows stopOf (decode : DecodeM (HashMap String String)) stringMap := by
  refine follows_u32Then fun count => follows_granted (Follows.loop (fun map =>
    follows_string.seq fun key => follows_stringThen fun value => ?_) count.toNat HashMap.empty)
  cases key with
  | some k =>
    cases value with
    | some v => exact .pure (map.insert k v rfl)
    | none => exact .pure map
  | none => exact .pure map

/-! ## 4. The bytes of a message -/

/-- `read_vec` of bytes goes through the input byte by byte and comes to the same as cutting the
bytes out, with the error of the byte that is missing.  By induction on the count: one byte is read
and pushed, and the rest is cut out by the hypothesis. -/
theorem pushBytes_eq : ∀ (n : ℕ) (acc b : Bytes),
    Reader.loop (fun result : Bytes => do
        let value ← (readU8 : DecodeM UInt8)
        pure (result ++ [value])) n acc b =
      (Reader.takeN n (.error (.incomplete 1)) >>= fun bs => pure (acc ++ bs)) b := by
  intro n
  induction n with
  | zero =>
    intro acc b
    rw [Reader.loop, Reader.bind_apply, Reader.takeN, if_neg (Nat.not_lt_zero _)]
    simp
  | succ n ih =>
    intro acc b
    cases b with
    | nil =>
      rw [Reader.bind_apply, Reader.takeN, if_pos (by simp)]
      rfl
    | cons x b =>
      have hx : (readU8 : DecodeM UInt8) (x :: b) = .ok (x, b) := by
        have h : (readU8 : DecodeM UInt8) (toBE 1 x.toNat ++ b) = .ok (x, b) :=
          readU8_append x b
        simpa [toBE] using h
      rw [Reader.loop, Reader.bind_of_ok (by rw [Reader.bind_of_ok hx]; rfl),
        ih (acc ++ [x]) b, Reader.bind_apply, Reader.bind_apply, Reader.takeN, Reader.takeN]
      by_cases h : b.length < n
      · rw [if_pos h, if_pos (by rw [List.length_cons]; omega)]
      · rw [if_neg h, if_neg (by rw [List.length_cons]; omega)]
        simp

theorem follows_record [Amqp.Chrono] [Allocator] : Follows stopOf readRecord record := by
  have hbytes : ∀ n, (pushLoop decode n : DecodeM Bytes) =
      Reader.takeN n (.error (.incomplete 1)) := by
    intro n
    funext b
    exact (pushBytes_eq n [] b).trans (by simp only [List.nil_append, bind_pure])
  have hread : (readRecord : DecodeM Message) = readI32 >>= fun len =>
      if len < 0 then throw (.panic .capacityOverflow)
      else withCapacity (List UInt8) (asUsize32 len) >>= fun _ =>
        Reader.takeN (asUsize32 len) (.error (.incomplete 1)) >>= decodeBody := by
    simp only [readRecord, readVec, bind_assoc, hbytes]
    congr 1
    funext len
    split
    · rfl
    · rw [bind_assoc]
  rw [hread]
  refine follows_allocated (k := fun n => Reader.takeN n _ >>= decodeBody) fun n => ?_
  refine Follows.field rfl fun bs => ?_
  unfold decodeBody
  rcases Message.decode bs with (e | p) | m
  · cases e with
    | incomplete needed => exact Follows.cut rfl
    | _ => exact Follows.throw rfl
  · exact Follows.crash rfl
  · exact .pure m

/-! ## 5. The bodies and the frame follow their layouts

Each body by the rules for its fields.  Bodies that differ only in one field at their end share
a lemma. -/

theorem follows_open [Allocator] : Follows stopOf (decode : DecodeM OpenResponse)
    (.seq (number 4) (codeThen fun c => if c = .ok then stringMap else .empty)) := by
  refine follows_u32.seq fun id => follows_codeThen fun c => ?_
  by_cases h : c = .ok
  · rw [if_pos h, if_pos h]
    exact follows_stringMap.map _
  · rw [if_neg h, if_neg h, pure_bind]
    exact .pure _

theorem follows_broker : Follows stopOf (decode : DecodeM Broker) broker :=
  follows_u16.seq fun _ => follows_stringThen fun host =>
    follows_u32.seq fun _ => follows_unwrap _ host

theorem follows_streamMetadata [Allocator] :
    Follows stopOf (decode : DecodeM StreamMetadata) streamMetadata :=
  follows_stringThen fun name => follows_code.seq fun _ => follows_u16.seq fun _ =>
    (follows_readVec follows_u16).seq fun _ => follows_unwrap _ name

theorem follows_records [Amqp.Chrono] [Allocator] {β : Type} (numRecords : ℕ)
    (f : List Message → β) :
    Follows stopOf (do
      withCapacity (List Message) numRecords
      let messages ← pushLoop readRecord numRecords
      pure (f messages)) (records numRecords) :=
  follows_granted ((follows_pushLoop follows_record numRecords).map f)

theorem follows_deliver [Amqp.Chrono] [Allocator] :
    Follows stopOf (decode : DecodeM DeliverCommand) deliver :=
  follows_u8.seq fun _ => follows_i8.seq fun _ => follows_u8.seq fun _ =>
    follows_u16.seq fun _ => follows_u32Then fun numRecords =>
      follows_u64.seq fun _ => follows_u64.seq fun _ => follows_u64.seq fun _ =>
      follows_i32.seq fun _ => follows_u32.seq fun _ => follows_u32.seq fun _ =>
      follows_u32.seq fun _ => follows_records numRecords.toNat _

theorem follows_publishingError :
    Follows stopOf (decode : DecodeM PublishingError) (.record [number 8, code]) :=
  follows_u64.seq fun _ => follows_code.seq fun _ => .pure _

theorem follows_exchangeCommandVersion :
    Follows stopOf (decode : DecodeM ExchangeCommandVersion)
      (.record [number 2, number 2, number 2]) :=
  follows_u16.seq fun _ => follows_u16.seq fun _ => follows_u16.seq fun _ => .pure _

theorem follows_decodeAs {α : Type} [Decoder α] {l : Fields} (variant : α → ResponseKind)
    (h : Follows stopOf (decode : DecodeM α) l) : Follows stopOf (decodeAs variant) l :=
  h.map variant

/-- The bodies of a correlation id, a code and one thing more. -/
theorem follows_correlated {α β : Type} {more : DecodeM α} {l : Fields}
    (h : Follows stopOf more l) (f : UInt32 → ResponseCode → α → β) :
    Follows stopOf (do
      let correlationId ← decode
      let code ← decode
      let x ← more
      pure (f correlationId code x) : DecodeM β) (.record [number 4, code, l]) :=
  follows_u32.seq fun _ => follows_code.seq fun _ => h.seq fun _ => .pure _

theorem follows_generic :
    Follows stopOf (decode : DecodeM GenericResponse) (.record [number 4, code]) :=
  follows_u32.seq fun _ => follows_code.seq fun _ => .pure _

/-- **Each key's decoder follows the body of the key**, in the order of the `match`. -/
theorem follows_body [Amqp.Chrono] [Allocator] (key : UInt16) :
    Follows stopOf (decodeKind key) (body key) := by
  unfold decodeKind
  split
  all_goals simp only [body, *]
  · exact follows_decodeAs _ follows_open
  · exact follows_decodeAs _ (follows_u32.seq fun _ => follows_code.seq fun _ => .pure _)
  · exact follows_decodeAs _ (follows_correlated follows_stringMap PeerPropertiesResponse.mk)
  · exact follows_decodeAs _ (follows_correlated follows_strings SaslHandshakeResponse.mk)
  iterate 10 exact follows_decodeAs _ follows_generic
  · exact follows_decodeAs _ (follows_u32.seq fun _ => follows_u32.seq fun _ => .pure _)
  · exact follows_decodeAs _ follows_deliver
  · exact follows_decodeAs _ (.pure _)
  · exact follows_decodeAs _ (follows_u32.seq fun _ =>
      (follows_readVec follows_broker).seq fun _ =>
      (follows_readVec follows_streamMetadata).seq fun _ => .pure _)
  · exact follows_decodeAs _ (follows_code.seq fun _ => follows_stringThen fun stream =>
      follows_unwrap _ stream)
  · exact follows_decodeAs _ (follows_u8.seq fun _ =>
      (follows_readVec follows_u64).seq fun _ => .pure _)
  · exact follows_decodeAs _ (follows_u8.seq fun _ =>
      (follows_counted (fun _ => follows_publishingError.map _) []).seq fun _ => .pure _)
  · exact follows_decodeAs _ (follows_correlated follows_u64 QueryOffsetResponse.mk)
  · exact follows_decodeAs _ (follows_code.seq fun _ => follows_u8.seq fun _ => .pure _)
  · exact follows_decodeAs _ (follows_correlated follows_u64 QueryPublisherResponse.mk)
  · exact follows_decodeAs _ (follows_correlated
      (follows_readVec follows_exchangeCommandVersion) ExchangeCommandVersionsResponse.mk)
  · exact follows_decodeAs _ (follows_correlated follows_strings SuperStreamPartitionsResponse.mk)
  · exact follows_decodeAs _ (follows_correlated follows_strings SuperStreamRouteResponse.mk)
  · exact follows_decodeAs _ (follows_u32.seq fun _ => follows_u8.seq fun _ =>
      follows_u8.seq fun _ => .pure _)
  · exact Follows.throw rfl

theorem follows_headerAndBody [Amqp.Chrono] [Allocator] :
    Follows stopOf (do
      let header ← decode
      let kind ← decodeKind header.key
      pure ⟨header, kind⟩ : DecodeM Response) headerAndBody := by
  show Follows stopOf ((readU16 >>= _) >>= _) _
  rw [bind_assoc]
  refine follows_number (f := fun bs => UInt16.ofNat (ofBE bs)) (l := fun key =>
    .seq (number 2) (body (extractResponseCode key))) fun key => ?_
  rw [bind_assoc]
  exact follows_u16.seq fun version => (follows_body _).map _

/-- **`Response::decode` follows the frame.** -/
theorem response_follows [Amqp.Chrono] [Allocator] :
    Follows stopOf (decode : DecodeM Response) layout :=
  follows_u32.seq fun _ => follows_headerAndBody

end RabbitMqStream.Protocol.Frame
