/-
# Round trips of the entries of a publish command

A publish command carries its messages in one of two layouts, and each layout has an encoder and
a decoder of its own.

* **Version 1.**  An entry is an id, the size of the message and the message, so a batch delimits
  itself: `publishBatch_selfDelimiting`.
* **Version 2.**  The encoder writes the filter value in front of the size, which is where the
  broker looks for it; the decoder reads it behind the message.  So what the decoder takes for an
  entry is the layout with the two swapped (`decodeVersion2_iff`), and an entry comes back exactly
  when the swap does not show (`PublishedMessage.FilterCommutes`): without a filter value that is
  an entry whose message has no section, with one it takes a message of as many times 64 KiB as
  the filter value has bytes (`filterCommutes_size`).  The vector has no `decode_version_2` at
  all.  The one of the trait calls the decoder of version 1, which looks for no filter value: no
  batch with an entry in it comes back.

`version2_roundTrips_iff` says both exactly.

**The argument.**  For one entry, what the decoder has taken in is turned into an equation of
bytes (`decodeVersion2_iff`): the bytes of the encoder are also an id, a size, as many bytes, and
a filter value.  Comparing the front of both sides gives `FilterCommutes`.  For a batch one has to
see that no coincidence can help, however many entries there are.  The first entry has to be empty
and leaves two of its bytes; these are zeros, and every later entry is then read behind zeros and
leaves two zeros more (`later_entries`).  At the end of the batch the zeros are left, and the rest
is not the rest.
-/
import RabbitMqStream.Amqp.Interop
import RabbitMqStream.Protocol.FieldRoundTrip

namespace RabbitMqStream.Protocol

open Wire

/-! ## 1. What a decoder has taken in

The decoders read backwards: from a success to the bytes that it has used.  The converse of a
round trip needs this, since it begins with what the decoder has returned. -/

/-- The rounds of a loop that reads bytes. -/
theorem loop_bytes_eq_ok : ∀ {n : ℕ} {acc bs b rest : Bytes},
    Reader.loop (pushBody (decode : DecodeM UInt8)) n acc b = .ok (bs, rest) →
      ∃ cs, bs = acc ++ cs ∧ b = cs ++ rest ∧ cs.length = n := by
  intro n
  induction n with
  | zero =>
    intro acc bs b rest h
    simp only [Reader.loop, Reader.pure_apply, Except.ok.injEq, Prod.mk.injEq] at h
    exact ⟨[], by rw [List.append_nil, h.1], h.2, rfl⟩
  | succ n ih =>
    intro acc bs b rest h
    obtain ⟨acc', mid, hbody, hloop⟩ := Reader.bind_eq_ok.mp h
    obtain ⟨x, mid', hx, hpush⟩ := Reader.bind_eq_ok.mp hbody
    simp only [Reader.pure_apply, Except.ok.injEq, Prod.mk.injEq] at hpush
    obtain ⟨rfl, rfl⟩ := hpush
    obtain ⟨cs, rfl, rfl, hlen⟩ := ih hloop
    exact ⟨x :: cs, by simp, readU8_eq_ok hx, by rw [List.length_cons, hlen]⟩

/-- **A vector of bytes that was read**: a count, which is no negative `i32`, and the bytes. -/
theorem readVec_bytes_eq_ok [Allocator] {b bs rest : Bytes}
    (h : (readVec : DecodeM (List UInt8)) b = .ok (bs, rest)) :
    bs.length < 2 ^ 31 ∧ b = toBE 4 bs.length ++ (bs ++ rest) := by
  obtain ⟨n, mid, hcount, hread⟩ := Reader.bind_eq_ok.mp h
  obtain ⟨len, rfl, hlen, rfl⟩ := readI32_eq_ok hcount
  have hlt := ofBE_lt len
  rw [hlen] at hlt
  split at hread
  · exact absurd hread (by simp)
  · rename_i hneg
    rw [count_neg_iff, Nat.mod_eq_of_lt (by omega)] at hneg
    obtain ⟨cs, hbs, rfl, hcs⟩ := loop_bytes_eq_ok (eq_ok_of_withCapacity hread)
    obtain rfl : bs = cs := hbs
    have hlength : bs.length = ofBE len := by
      rw [hcs, asUsize32, toInt_count, Nat.mod_eq_of_lt (by omega), if_pos (by omega)]
      omega
    refine ⟨by omega, ?_⟩
    rw [hlength, ← hlen, toBE_ofBE]

/-- The length of a string, read as an `i16`. -/
theorem toInt_length {n : ℕ} (h : n < 2 ^ 16) :
    (UInt16.ofNat n).toInt16.toInt = if n < 2 ^ 15 then (n : ℤ) else (n : ℤ) - 2 ^ 16 := by
  rw [Int16.toInt, UInt16.toBitVec_toInt16, BitVec.toInt_eq_toNat_cond]
  simp only [UInt16.toBitVec_ofNat', BitVec.toNat_ofNat]
  split <;> split <;> omega

/-- An optional string that was read, and is no longer than the ones the encoder can write.  A
length of zero is no string.  Any other counts the bytes that were cut out, and since they are not
more than 32767 it is the one the encoder writes for them. -/
theorem optString_eq_ok {b rest : Bytes} {s : Option String} (hshort : ∀ t ∈ s, Short t)
    (h : (decode : DecodeM (Option String)) b = .ok (s, rest)) :
    s ≠ some "" ∧ b = optStringBytes s ++ rest := by
  obtain ⟨n, mid, hlen, hread⟩ := Reader.bind_eq_ok.mp h
  obtain ⟨len, rfl, htwo, rfl⟩ := readNumber_eq_ok hlen
  have hlt := ofBE_lt len
  rw [htwo] at hlt
  have hint := toInt_length hlt
  have hback := toBE_ofBE len
  rw [htwo] at hback
  split at hread
  · rename_i hzero
    simp only [Reader.pure_apply, Except.ok.injEq, Prod.mk.injEq] at hread
    obtain ⟨rfl, rfl⟩ := hread
    rw [hzero, Int16.toInt_zero] at hint
    have hnone : ofBE len = 0 := by
      split at hint <;> omega
    rw [hnone] at hback
    exact ⟨by simp, by rw [optStringBytes, hback]⟩
  · rename_i hne
    obtain ⟨bs, mid', hsplit, hutf⟩ := Reader.bind_eq_ok.mp hread
    obtain ⟨rfl, hcount⟩ := Reader.takeN_eq_ok.mp hsplit
    cases hs : fromUtf8 bs with
    | none => simp [hs] at hutf
    | some t =>
      simp only [hs, Reader.pure_apply, Except.ok.injEq, Prod.mk.injEq] at hutf
      obtain ⟨rfl, rfl⟩ := hutf
      have hle : bs.length ≤ 32767 := by
        have := hshort t rfl
        rwa [Short, asBytes_of_fromUtf8 hs] at this
      have hlength : ofBE len = bs.length := by
        rw [asUsize16, hint] at hcount
        split at hcount <;> omega
      refine ⟨?_, ?_⟩
      · rintro hempty
        obtain rfl : t = "" := Option.some.inj hempty
        have hnil : bs = [] := (asBytes_of_fromUtf8 hs).symm
        rw [hnil, List.length_nil] at hlength
        refine hne ?_
        rw [hlength]
        rfl
      · rw [optStringBytes, stringBytes, asBytes_of_fromUtf8 hs, ← hlength, hback,
          List.append_assoc]

section Messages

variable [Amqp.Chrono] [Allocator]

/-! ## 2. Version 1

Entry by entry, and then the batch by the rule for vectors. -/

/-- **A batch of version 1 delimits itself**: the entries come back in order, each with its id
and its message, and whatever follows the batch stays where it is. -/
theorem publishBatch_selfDelimiting [Allocator.Ample] {ms : List PublishedMessage}
    (hlen : ms.length < 2 ^ 32)
    (h : ∀ m ∈ ms, m.filterValue = none ∧
      Message.decode (Amqp.encode m.message.message) = .ok m.message ∧
      Amqp.Exact m.message.message ∧ (encodedSize m.message).toNat < 2 ^ 31) :
    ∃ bytes, (encode ms).exec [] = (.ok (), bytes) ∧
      ∀ rest, (decode : DecodeM (List PublishedMessage)) (bytes ++ rest) = .ok (ms, rest) := by
  refine ⟨vecBytes publishedBytes ms, exec_messages [] ms, fun rest => ?_⟩
  have hback : ∀ m ∈ ms, m.RoundTrips := fun m hm => ⟨(h m hm).2.1, (h m hm).2.2.1⟩
  refine (decode_messages_iff hback rest rest).mpr ⟨⟨hlen, fun m hm => ?_⟩, rfl⟩
  exact ⟨(h m hm).2.2.2, (h m hm).1⟩

/-! ## 3. One entry of version 2

The encoder puts the filter value in front of the message and the decoder looks for it behind.
The two agree when the bytes of the one order are the bytes of the other. -/

/-- A message the encoder can be asked for: it comes back on its own, knows its size, and has a
filter value that a string field can hold. -/
structure PublishedMessage.Admissible (m : PublishedMessage) : Prop where
  roundTrips : Message.decode (Amqp.encode m.message.message) = .ok m.message
  exact : Amqp.Exact m.message.message
  size_lt : (encodedSize m.message).toNat < 2 ^ 31
  filterValue : ∀ s ∈ m.filterValue, s ≠ "" ∧ Short s

omit [Allocator] in
theorem decodeBody_eq_ok {body b rest : Bytes} {message : Message} :
    decodeBody body b = .ok (message, rest) ↔ Message.decode body = .ok message ∧ b = rest := by
  unfold decodeBody
  cases Message.decode body <;> simp

/-- **What `decode_version_2` takes for an entry**: an id, a sized message, and a filter value
behind it. -/
theorem decodeVersion2_iff [Allocator.Ample] {m : PublishedMessage}
    (hf : ∀ s ∈ m.filterValue, s ≠ "" ∧ Short s)
    (b rest : Bytes) :
    PublishedMessage.decodeVersion2 b = .ok (m, rest) ↔
      ∃ body, body.length < 2 ^ 31 ∧ Message.decode body = .ok m.message ∧
        b = toBE 8 m.publishingId.toNat ++
          (toBE 4 body.length ++ (body ++ (optStringBytes m.filterValue ++ rest))) := by
  constructor
  · intro h
    obtain ⟨id, b1, hid, h⟩ := Reader.bind_eq_ok.mp h
    obtain ⟨body, b2, hbody, h⟩ := Reader.bind_eq_ok.mp h
    obtain ⟨filter, b3, hfilter, h⟩ := Reader.bind_eq_ok.mp h
    obtain ⟨message, b4, hmessage, h⟩ := Reader.bind_eq_ok.mp h
    simp only [Reader.pure_apply, Except.ok.injEq, Prod.mk.injEq] at h
    obtain ⟨rfl, rfl⟩ := h
    obtain ⟨hread, rfl⟩ := decodeBody_eq_ok.mp hmessage
    obtain ⟨hlen, rfl⟩ := readVec_bytes_eq_ok hbody
    obtain ⟨-, rfl⟩ := optString_eq_ok (fun s hs => (hf s hs).2) hfilter
    exact ⟨body, hlen, hread, readU64_eq_ok hid⟩
  · rintro ⟨body, hlen, hread, rfl⟩
    have hfilter : (decode : DecodeM (Option String)) (optStringBytes m.filterValue ++ rest) =
        .ok (m.filterValue, rest) := by
      refine (decode_optString_iff (fun s hs => (hf s hs).2) rest rest).mpr ⟨?_, rfl⟩
      intro hempty
      exact (hf "" hempty).1 rfl
    refine (Reader.bind_of_ok (readU64_append m.publishingId _)).trans ?_
    refine (Reader.bind_of_ok (readVec_bytes hlen _)).trans ((Reader.bind_of_ok hfilter).trans ?_)
    exact Reader.bind_of_ok (decodeBody_eq_ok.mpr ⟨hread, rfl⟩)

/-- The filter value may stand in front of the sized message or behind it: for some bytes `body`
of the message the two layouts are the same. -/
def PublishedMessage.FilterCommutes (m : PublishedMessage) : Prop :=
  ∃ body, Message.decode body = .ok m.message ∧
    optStringBytes m.filterValue ++ (toBE 4 (encodedSize m.message).toNat ++
        Amqp.encode m.message.message) =
      toBE 4 (encodedSize m.message).toNat ++ (body ++ optStringBytes m.filterValue)

/-- **An entry of version 2** comes back exactly when its filter value commutes with its message.
Both sides are the id, a size and bytes.  What was written has the filter value in front of the
message and what is read has it behind, so the bytes in the middle must be the same. -/
theorem decodeVersion2_bytes_iff [Allocator.Ample] {m : PublishedMessage} (hm : m.Admissible)
    (rest : Bytes) :
    PublishedMessage.decodeVersion2 (publishedBytesVersion2 m ++ rest) = .ok (m, rest) ↔
      m.FilterCommutes := by
  have hexact : (encodedSize m.message).toNat = (Amqp.encode m.message.message).length := hm.exact
  have hlt := hm.size_lt
  rw [decodeVersion2_iff hm.filterValue, publishedBytesVersion2]
  unfold PublishedMessage.FilterCommutes
  have hsize : (Amqp.encodedSize m.message.message).toNat = (encodedSize m.message).toNat := rfl
  rw [hsize, hexact]
  rw [hexact] at hlt
  constructor
  · rintro ⟨body, -, hread, hbytes⟩
    simp only [List.append_assoc, List.append_cancel_left_eq] at hbytes
    have hlen := congrArg List.length hbytes
    simp only [List.length_append, toBE_length] at hlen
    have hbody : body.length = (Amqp.encode m.message.message).length := by omega
    refine ⟨body, hread, (List.append_left_inj rest).mp ?_⟩
    rw [hbody] at hbytes
    simpa only [List.append_assoc] using hbytes
  · rintro ⟨body, hread, hbytes⟩
    have hlen := congrArg List.length hbytes
    simp only [List.length_append, toBE_length] at hlen
    have hbody : body.length = (Amqp.encode m.message.message).length := by omega
    refine ⟨body, by omega, hread, ?_⟩
    have hrest := congrArg (fun l => toBE 8 m.publishingId.toNat ++ (l ++ rest)) hbytes
    rw [hbody]
    simpa only [List.append_assoc] using hrest

omit [Amqp.Chrono] [Allocator] in
/-- The size that a list of bytes starts with, from its first two bytes. -/
theorem size_halves {n : ℕ} (hn : n < 2 ^ 31) {a b : UInt8} {u v : Bytes}
    (h : a :: b :: u = toBE 4 n ++ v) :
    n / 65536 = a.toNat * 256 + b.toNat ∧
      u = UInt8.ofNat (n / 256) :: UInt8.ofNat n :: v := by
  simp only [toBE, List.cons_append, List.nil_append, List.cons.injEq] at h
  obtain ⟨ha, hb, hu⟩ := h
  have ha' := congrArg UInt8.toNat ha
  have hb' := congrArg UInt8.toNat hb
  rw [UInt8.toNat_ofNat'] at ha' hb'
  refine ⟨by omega, ?_⟩
  simpa using hu

omit [Allocator] in
/-- Without a filter value the two layouts agree on an empty message only. -/
theorem filterCommutes_none_iff {m : PublishedMessage} (hm : m.Admissible)
    (hnone : m.filterValue = none) :
    m.FilterCommutes ↔ Amqp.encode m.message.message = [] := by
  have hexact : (encodedSize m.message).toNat = (Amqp.encode m.message.message).length := hm.exact
  unfold PublishedMessage.FilterCommutes
  rw [hnone]
  constructor
  · rintro ⟨body, -, hbytes⟩
    have hn := hm.size_lt
    generalize (encodedSize m.message).toNat = n at *
    have hzeros : 0 :: 0 :: (toBE 4 n ++ Amqp.encode m.message.message) =
        toBE 4 n ++ (body ++ optStringBytes none) := hbytes
    obtain ⟨hhigh, hlow⟩ := size_halves hn hzeros
    -- the size starts with two zeros, and its other half is those two zeros again
    simp only [toBE, List.cons_append, List.nil_append, List.cons.injEq] at hlow
    obtain ⟨h2, h3, -⟩ := hlow
    have h2' := congrArg UInt8.toNat h2
    have h3' := congrArg UInt8.toNat h3
    rw [UInt8.toNat_ofNat', UInt8.toNat_ofNat'] at h2' h3'
    have hzero : n = 0 := by
      simp only [Nat.reducePow, UInt8.toNat_zero] at h2' h3' hhigh
      have hlt : n < 65536 := by omega
      rw [hhigh] at h3'
      rw [Nat.div_eq_of_lt (by omega)] at h2'
      omega
    exact List.length_eq_zero_iff.mp (by omega)
  · intro hnil
    refine ⟨[], ?_, ?_⟩
    · rw [← hnil]
      exact hm.roundTrips
    · rw [hexact, hnil]
      rfl

omit [Allocator] in
/-- With a filter value they agree on large messages only: the filter value has a byte for every
64 KiB of the message. -/
theorem filterCommutes_size {m : PublishedMessage} {f : String} (hm : m.Admissible)
    (hf : m.filterValue = some f) (h : m.FilterCommutes) :
    (encodedSize m.message).toNat / 65536 = (asBytes f).length := by
  obtain ⟨body, -, hbytes⟩ := h
  have hshort : (asBytes f).length ≤ 32767 := (hm.filterValue f hf).2
  rw [hf, optStringBytes, stringBytes, List.append_assoc] at hbytes
  have hsize := (size_halves hm.size_lt hbytes).1
  rw [UInt8.toNat_ofNat', UInt8.toNat_ofNat', Nat.pow_one, Nat.pow_zero] at hsize
  omega

/-! ## 4. A batch of version 2

The vector is read with the decoder of version 1, entry by entry.  Without a filter value an entry
of version 2 has two more bytes than that decoder takes, both zero; so each entry leaves the next
one to be read two bytes early, and whatever comes back as it was consists of zeros. -/

/-- What `PublishedMessage::decode` takes for an entry: an id and a sized message. -/
theorem published_eq_ok {m : PublishedMessage} {b rest : Bytes}
    (h : (decode : DecodeM PublishedMessage) b = .ok (m, rest)) :
    ∃ body, b = toBE 8 m.publishingId.toNat ++ (toBE 4 body.length ++ (body ++ rest)) ∧
      body.length < 2 ^ 31 ∧ Message.decode body = .ok m.message ∧ m.filterValue = none := by
  obtain ⟨id, b1, hid, h⟩ := Reader.bind_eq_ok.mp h
  obtain ⟨body, b2, hbody, h⟩ := Reader.bind_eq_ok.mp h
  obtain ⟨message, b3, hmessage, h⟩ := Reader.bind_eq_ok.mp h
  simp only [Reader.pure_apply, Except.ok.injEq, Prod.mk.injEq] at h
  obtain ⟨rfl, rfl⟩ := h
  obtain ⟨hread, rfl⟩ := decodeBody_eq_ok.mp hmessage
  obtain ⟨hlen, rfl⟩ := readVec_bytes_eq_ok hbody
  exact ⟨body, readU64_eq_ok hid, hlen, hread, rfl⟩

omit [Allocator] in
theorem message_eq_ok {body : Bytes} {message : Message}
    (h : Message.decode body = .ok message) :
    ∃ rest, Amqp.Message.decode body = .ok (message.message, rest) := by
  unfold Message.decode at h
  split at h
  · rename_i m rest hread
    obtain rfl : { message := m } = message := Except.ok.inj h
    exact ⟨rest, hread⟩
  · exact absurd h (by simp)
  · exact absurd h (by simp)

omit [Allocator] in
/-- A message that no byte was read for is written without a byte. -/
theorem encode_of_decode_nil {message : Message} (h : Message.decode [] = .ok message) :
    Amqp.encode message.message = [] := by
  obtain ⟨rest, hread⟩ := message_eq_ok h
  have hempty : Amqp.Message.decode [] = .ok (({} : Amqp.Message), []) := rfl
  rw [hempty] at hread
  simp only [Except.ok.injEq, Prod.mk.injEq] at hread
  rw [← hread.1]
  rfl

/-- The first entry: its message is empty, and the last two of its bytes are left.  The two zeros
that stand for no filter value are read as the upper half of the size.  A message that is not empty
would then start with the lower half of the size that was written, and behind that like the message
that was written, and none does (`Amqp.message_starts`). -/
theorem first_entry {m : PublishedMessage} (hm : m.Admissible) {tail out : Bytes}
    (h : (decode : DecodeM PublishedMessage) (publishedBytesVersion2 m ++ tail) = .ok (m, out)) :
    out = 0 :: 0 :: tail := by
  have hexact : (encodedSize m.message).toNat = (Amqp.encode m.message.message).length := hm.exact
  obtain ⟨body, hbytes, hlen, hread, hnone⟩ := published_eq_ok h
  rw [publishedBytesVersion2, List.append_assoc, List.append_cancel_left_eq, hnone] at hbytes
  have hsize : (Amqp.encodedSize m.message.message).toNat = (encodedSize m.message).toNat := rfl
  rw [hsize] at hbytes
  have hlt := hm.size_lt
  generalize (encodedSize m.message).toNat = n at *
  have hzeros : 0 :: 0 :: (toBE 4 n ++ (Amqp.encode m.message.message ++ tail)) =
      toBE 4 body.length ++ (body ++ out) := by
    rw [← hbytes]
    simp [optStringBytes, toBE]
  obtain ⟨hbody, hcount⟩ := size_halves hlen hzeros
  obtain ⟨hn, hrest⟩ := size_halves hlt hcount.symm
  by_cases hne : body = []
  · -- the message is the empty one, so the size in front of it is zero
    subst hne
    have hnil := encode_of_decode_nil hread
    rw [hnil, List.length_nil] at hexact
    subst hexact
    simpa [hnil] using hrest
  · -- the two low bytes of the size and the message would be a message
    have hpos : 0 < body.length := List.length_pos_iff.mpr hne
    have henc : Amqp.encode m.message.message ≠ [] := by
      intro hnil
      rw [hnil, List.length_nil] at hexact
      rw [UInt8.toNat_ofNat', UInt8.toNat_ofNat'] at hn
      rw [UInt8.toNat_zero] at hbody
      omega
    obtain ⟨r1, hread1⟩ := message_eq_ok hread
    obtain ⟨r2, hread2⟩ := message_eq_ok hm.roundTrips
    rcases Amqp.message_starts hne hread1 with ⟨t, rfl⟩ | ⟨x, t, rfl, hx⟩
    · rcases Amqp.message_starts henc hread2 with ⟨t', he⟩ | ⟨x', t', he, -⟩
      · rw [he] at hrest
        simp at hrest
      · rw [he] at hrest
        simp at hrest
    · rcases Amqp.message_starts henc hread2 with ⟨t', he⟩ | ⟨x', t', he, -⟩
      · rw [he] at hrest
        simp [hx] at hrest
      · rw [he] at hrest
        simp [hx] at hrest

omit [Amqp.Chrono] [Allocator] in
/-- Bytes that stay the same when zeros are put in front of them are zeros. -/
theorem zeros_shift {z : ℕ} (hz : 0 < z) : ∀ {I t u : Bytes},
    List.replicate z 0 ++ (I ++ u) = I ++ t → t = List.replicate z 0 ++ u := by
  intro I
  induction I with
  | nil =>
    intro t u h
    exact h.symm
  | cons x I ih =>
    intro t u h
    obtain ⟨y, rfl⟩ : ∃ y, z = y + 1 := ⟨z - 1, by omega⟩
    rw [List.replicate_succ, List.cons_append, List.cons_append] at h
    obtain ⟨rfl, hrest⟩ := List.cons.inj h
    refine ih (Eq.trans ?_ hrest)
    rw [List.replicate_succ', List.append_assoc]
    rfl

/-- A later entry, read behind zeros: what it leaves are two zeros more. -/
theorem later_entry {m : PublishedMessage} (hm : m.Admissible) {z : ℕ} {tail out : Bytes}
    (h : (decode : DecodeM PublishedMessage)
      (List.replicate (z + 2) 0 ++ (publishedBytesVersion2 m ++ tail)) = .ok (m, out)) :
    out = List.replicate (z + 4) 0 ++ tail := by
  have hexact : (encodedSize m.message).toNat = (Amqp.encode m.message.message).length := hm.exact
  obtain ⟨body, hbytes, hlen, hread, hnone⟩ := published_eq_ok h
  rw [publishedBytesVersion2, hnone] at hbytes
  have hsize : (Amqp.encodedSize m.message.message).toNat = (encodedSize m.message).toNat := rfl
  rw [hsize, List.append_assoc] at hbytes
  have hcount := zeros_shift (Nat.succ_pos _) hbytes
  generalize (encodedSize m.message).toNat = n at *
  have hzeros : toBE 4 body.length ++ (body ++ out) =
      List.replicate (z + 4) 0 ++ (toBE 4 n ++ (Amqp.encode m.message.message ++ tail)) := by
    rw [hcount, show z + 4 = z + 2 + 2 from rfl, List.replicate_add, List.append_assoc]
    simp [optStringBytes, toBE]
  obtain ⟨hbody, hlow⟩ := size_halves hlen hzeros.symm
  simp only [List.replicate_succ, List.append_eq, List.cons_append, List.cons.injEq] at hlow
  obtain ⟨h1, h0, hrest⟩ := hlow
  have h1' := congrArg UInt8.toNat h1
  have h0' := congrArg UInt8.toNat h0
  rw [UInt8.toNat_ofNat', UInt8.toNat_zero] at h1' h0'
  rw [UInt8.toNat_zero] at hbody
  obtain rfl : body = [] := List.length_eq_zero_iff.mp (by omega)
  have hnil := encode_of_decode_nil hread
  rw [hnil, List.length_nil] at hexact
  subst hexact
  rw [hnil] at hrest
  rw [List.replicate_add, List.append_assoc]
  exact hrest.symm

/-- **The rounds behind the first one.**  When they give the entries back, every entry has left
two zeros. -/
theorem later_entries {ms : List PublishedMessage} (hm : ∀ m ∈ ms, m.Admissible) :
    ∀ {z : ℕ} {acc : List PublishedMessage} {rest out : Bytes},
      Reader.loop (pushBody decode) ms.length acc
        (List.replicate (z + 2) 0 ++ (ms.flatMap publishedBytesVersion2 ++ rest)) =
          .ok (acc ++ ms, out) →
        out = List.replicate (z + 2 + 2 * ms.length) 0 ++ rest := by
  induction ms with
  | nil =>
    intro z acc rest out h
    simp only [List.length_nil, Reader.loop, Reader.pure_apply, Except.ok.injEq, Prod.mk.injEq] at h
    exact h.2.symm
  | cons m ms ih =>
    intro z acc rest out h
    obtain ⟨acc', mid, hbody, hloop⟩ := Reader.bind_eq_ok.mp h
    obtain ⟨v, mid', hv, hpush⟩ := Reader.bind_eq_ok.mp hbody
    simp only [Reader.pure_apply, Except.ok.injEq, Prod.mk.injEq] at hpush
    obtain ⟨rfl, rfl⟩ := hpush
    obtain ⟨zs, hzs, -⟩ := loop_push_extends hloop
    rw [List.append_assoc] at hzs
    obtain ⟨rfl, -⟩ := List.cons.inj (List.append_cancel_left hzs)
    rw [List.flatMap_cons, List.append_assoc] at hv
    obtain rfl := later_entry (hm m (by simp)) hv
    have hrun := ih (fun x hx => hm x (by simp [hx])) (z := z + 2)
      (by rw [List.append_assoc]; exact hloop)
    rw [hrun, List.length_cons]
    congr 2
    omega

theorem decodeVersion2_batch_iff {ms : List PublishedMessage} (hm : ∀ m ∈ ms, m.Admissible)
    (rest : Bytes) :
    decodeVersion2 (vecBytes publishedBytesVersion2 ms ++ rest) = .ok (ms, rest) ↔ ms = [] := by
  constructor
  · intro h
    rw [vecBytes, List.append_assoc] at h
    have hloop := (Reader.bind_of_ok (readU32_toBE ms.length _)).symm.trans h
    obtain ⟨zs, hzs, hcount⟩ := loop_push_extends hloop
    obtain rfl : ms = zs := hzs
    cases ms with
    | nil => rfl
    | cons m ms =>
      change Reader.loop (pushBody decode) _ _ _ = _ at hloop
      rw [← hcount] at hloop
      obtain ⟨acc', mid, hbody, hrest⟩ := Reader.bind_eq_ok.mp hloop
      obtain ⟨v, mid', hv, hpush⟩ := Reader.bind_eq_ok.mp hbody
      simp only [Reader.pure_apply, Except.ok.injEq, Prod.mk.injEq] at hpush
      obtain ⟨rfl, rfl⟩ := hpush
      obtain ⟨ys, hys, -⟩ := loop_push_extends hrest
      obtain ⟨rfl, -⟩ := List.cons.inj hys
      rw [List.flatMap_cons, List.append_assoc] at hv
      obtain rfl := first_entry (hm m (by simp)) hv
      have hout := later_entries (fun x hx => hm x (by simp [hx])) (z := 0) hrest
      have hlen := congrArg List.length hout
      rw [List.length_append, List.length_replicate] at hlen
      omega
  · rintro rfl
    rfl

/-- **Version 2 of a publish command.**  An entry comes back in front of any rest exactly when it
has neither a filter value nor a section in its message, or its filter value commutes with the
message; a batch exactly when it is empty.

The first part compares the two layouts of one entry byte by byte.  The second goes through the
rounds of the loop. -/
theorem version2_roundTrips_iff [Allocator.Ample] :
    (∀ m : PublishedMessage, m.Admissible → ∃ bytes, m.encodeVersion2.exec [] = (.ok (), bytes) ∧
      ∀ rest, PublishedMessage.decodeVersion2 (bytes ++ rest) = .ok (m, rest) ↔
        (m.filterValue = none ∧ Amqp.encode m.message.message = []) ∨
          (m.filterValue ≠ none ∧ m.FilterCommutes)) ∧
    (∀ ms : List PublishedMessage, (∀ m ∈ ms, m.Admissible) →
      ∃ bytes, (encodeVersion2 ms).exec [] = (.ok (), bytes) ∧
        ∀ rest, decodeVersion2 (bytes ++ rest) = .ok (ms, rest) ↔ ms = []) := by
  constructor
  · intro m hm
    refine ⟨publishedBytesVersion2 m, exec_messageVersion2 [] m, fun rest => ?_⟩
    rw [decodeVersion2_bytes_iff hm]
    by_cases hnone : m.filterValue = none
    · rw [filterCommutes_none_iff hm hnone]
      simp [hnone]
    · simp [hnone]
  · intro ms hm
    exact ⟨vecBytes publishedBytesVersion2 ms, exec_messagesVersion2 [] ms,
      decodeVersion2_batch_iff hm⟩

end Messages

/-- An entry with an empty message. -/
def emptyEntry : PublishedMessage := ⟨7, { message := {} }, none⟩

/-- An entry whose message is one byte of data. -/
def dataEntry : PublishedMessage := ⟨7, { message := { body := { data := [[1]] } } }, none⟩

/-- A batch of version 1 with both entries. -/
theorem publishBatch_selfDelimiting_two :
    letI := Amqp.Chrono.range; letI := Allocator.unbounded
    ∃ bytes, (encode [dataEntry, emptyEntry]).exec [] = (.ok (), bytes) ∧
      ∀ rest, (decode : DecodeM (List PublishedMessage)) (bytes ++ rest) =
        .ok ([dataEntry, emptyEntry], rest) := by
  let _ := Amqp.Chrono.range
  let _ := Allocator.unbounded
  refine publishBatch_selfDelimiting (by decide) ?_
  simp only [List.mem_cons, List.not_mem_nil, or_false, forall_eq_or_imp, forall_eq]
  exact ⟨⟨rfl, by decide +kernel, by decide, by decide⟩,
    rfl, by decide +kernel, by decide, by decide⟩

/-- An entry with data and a filter value. -/
def filteredEntry : PublishedMessage :=
  ⟨7, { message := { body := { data := [[1]] } } }, some "eu"⟩

/-- The rule at an empty message, at an entry with data and a filter value, and at the batches of
none and of both of them: what has something in it does not come back. -/
theorem version2_roundTrips_iff_filtered :
    letI := Amqp.Chrono.range; letI := Allocator.unbounded
    (∃ bytes, emptyEntry.encodeVersion2.exec [] = (.ok (), bytes) ∧
      ∀ rest, PublishedMessage.decodeVersion2 (bytes ++ rest) = .ok (emptyEntry, rest)) ∧
    (∃ bytes, filteredEntry.encodeVersion2.exec [] = (.ok (), bytes) ∧
      ∀ rest, PublishedMessage.decodeVersion2 (bytes ++ rest) ≠ .ok (filteredEntry, rest)) ∧
    (∃ bytes, (encodeVersion2 []).exec [] = (.ok (), bytes) ∧
      ∀ rest, decodeVersion2 (bytes ++ rest) = .ok ([], rest)) ∧
    ∃ bytes, (encodeVersion2 [emptyEntry, filteredEntry]).exec [] = (.ok (), bytes) ∧
      ∀ rest, decodeVersion2 (bytes ++ rest) ≠ .ok ([emptyEntry, filteredEntry], rest) := by
  let _ := Amqp.Chrono.range
  let _ := Allocator.unbounded
  have hempty : emptyEntry.Admissible := ⟨by decide +kernel, by decide, by decide, nofun⟩
  have hfiltered : filteredEntry.Admissible := by
    refine ⟨by decide +kernel, by decide, by decide, ?_⟩
    intro f hf
    obtain rfl : "eu" = f := Option.some.inj hf
    decide
  have hboth : ∀ m ∈ [emptyEntry, filteredEntry], m.Admissible := by
    simp [hempty, hfiltered]
  obtain ⟨bytes₁, hrun₁, hback₁⟩ := version2_roundTrips_iff.1 emptyEntry hempty
  obtain ⟨bytes₂, hrun₂, hback₂⟩ := version2_roundTrips_iff.1 filteredEntry hfiltered
  obtain ⟨bytes₃, hrun₃, hback₃⟩ := version2_roundTrips_iff.2 [] (by simp)
  obtain ⟨bytes₄, hrun₄, hback₄⟩ := version2_roundTrips_iff.2 [emptyEntry, filteredEntry] hboth
  refine ⟨⟨bytes₁, hrun₁, fun rest => (hback₁ rest).mpr (Or.inl ⟨rfl, rfl⟩)⟩,
    ⟨bytes₂, hrun₂, fun rest h => ?_⟩,
    ⟨bytes₃, hrun₃, fun rest => (hback₃ rest).mpr rfl⟩,
    ⟨bytes₄, hrun₄, fun rest h => absurd ((hback₄ rest).mp h) (by simp)⟩⟩
  rcases (hback₂ rest).mp h with ⟨hnone, -⟩ | ⟨-, body, -, hlayout⟩
  · exact absurd hnone (by decide)
  · -- the length of the filter value stands where the size of the message would
    have hfront : ([0, 2] : Bytes) = [0, 0] := congrArg (List.take 2) hlayout
    exact absurd hfront (by decide)

/-- One byte of data, without a filter value: the decoder takes the low bytes of the size for the
length of a filter value. -/
theorem dataEntry_version2 :
    letI := Amqp.Chrono.range; letI := Allocator.unbounded
    dataEntry.Admissible ∧
      dataEntry.encodeVersion2.exec [] = (.ok (), publishedBytesVersion2 dataEntry) ∧
      ¬ PublishedMessage.decodeVersion2 (publishedBytesVersion2 dataEntry) =
        .ok (dataEntry, []) := by
  let _ := Amqp.Chrono.range
  let _ := Allocator.unbounded
  refine ⟨⟨by decide +kernel, by decide, by decide, nofun⟩, exec_messageVersion2 [] dataEntry, ?_⟩
  decide +kernel

end RabbitMqStream.Protocol
