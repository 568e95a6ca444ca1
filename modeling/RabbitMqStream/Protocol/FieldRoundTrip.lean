/-
# Round trips of the fields of a command

Each field of a command has the bytes it is written as, which no encoder of a field can fail to
write, and a statement of what its decoder makes of these bytes in front of any rest.  Numbers and
codes come back always.  The others come back with conditions, and each statement here is an
equivalence, so that the conditions are exact:

* **strings** (`decode_string_iff`): a string of at most `i16::MAX` bytes comes back unless it is
  empty; the empty one comes back as an absent one.
* **vectors of strings, string maps** (`decode_strings_iff`, `decode_map_iff`): the elements that
  are empty strings, and the entries with one, are dropped.  The count is cast to `u32`.
* **vectors of bytes, of records, of messages** (`decode_bytes_iff`, `readVec_iff`,
  `decode_messages_iff`): the count is cast to `i32` by the decoder of the first two, and so is
  the size of a message.

**The argument.**  A loop that pushes returns what it was run on exactly when it makes as many
rounds as there are elements and each element comes back in its round (`loop_push_iff`).  The
number of rounds is the count that was written, cast; so the condition on a vector is one on its
length and one on each of its elements.  A loop that skips can only lose elements, and then the
whole vector is there exactly when none was skipped and the count is right (`kept_iff`).

**Memory.**  The equivalences are about a decoder that gets the memory it asks for
(`Allocator.Ample`).  What it makes of a refused capacity does not depend on the field, and is in
`ResponsePanics`.
-/
import Mathlib.Tactic.Simproc.ExistsAndEq
import RabbitMqStream.Amqp.Size
import RabbitMqStream.Protocol.RequestDecode

namespace RabbitMqStream.Protocol

open Wire

/-! ## 1. What a field is written as

The bytes of each kind of field as a function, with the statement that its encoder appends them
and does not fail.  From here on a round trip is one of bytes. -/

/-- The bytes of a string: its length, and its UTF-8. -/
def stringBytes (s : String) : Bytes := toBE 2 (asBytes s).length ++ asBytes s

def optStringBytes : Option String → Bytes
  | some s => stringBytes s
  | none => toBE 2 0

/-- The bytes of a vector: its count, and its elements. -/
def vecBytes {α : Type} (elem : α → Bytes) (xs : List α) : Bytes :=
  toBE 4 xs.length ++ xs.flatMap elem

def entryBytes (e : String × String) : Bytes := stringBytes e.1 ++ stringBytes e.2

/-- The bytes of a published message, whose size field is the size the message announces. -/
def publishedBytes (m : PublishedMessage) : Bytes :=
  toBE 8 m.publishingId.toNat ++
    (toBE 4 (Amqp.encodedSize m.message.message).toNat ++ Amqp.encode m.message.message)

/-- The same in the layout of version 2, which has the filter value. -/
def publishedBytesVersion2 (m : PublishedMessage) : Bytes :=
  toBE 8 m.publishingId.toNat ++ (optStringBytes m.filterValue ++
    (toBE 4 (Amqp.encodedSize m.message.message).toNat ++ Amqp.encode m.message.message))

def offsetBytes (s : OffsetSpecification) : Bytes :=
  toBE 2 s.getType.toNat ++ match s with
    | .offset offset => toBE 8 offset.toNat
    | .timestamp timestamp => toBE 8 timestamp.toUInt64.toNat
    | _ => []

def versionBytes (v : ExchangeCommandVersion) : Bytes :=
  toBE 2 v.key.toNat ++ (toBE 2 v.minVersion.toNat ++ toBE 2 v.maxVersion.toNat)

section Writers

variable (buf : Bytes)

@[simp] theorem exec_u8 (n : UInt8) :
    (encode n).exec buf = (.ok (), buf ++ toBE 1 n.toNat) := rfl

@[simp] theorem exec_u16 (n : UInt16) :
    (encode n).exec buf = (.ok (), buf ++ toBE 2 n.toNat) := rfl

@[simp] theorem exec_u32 (n : UInt32) :
    (encode n).exec buf = (.ok (), buf ++ toBE 4 n.toNat) := rfl

@[simp] theorem exec_u64 (n : UInt64) :
    (encode n).exec buf = (.ok (), buf ++ toBE 8 n.toNat) := rfl

@[simp] theorem exec_code (c : ResponseCode) :
    (encode c).exec buf = (.ok (), buf ++ toBE 2 c.toU16.toNat) := rfl

@[simp] theorem exec_string (s : String) :
    (encode s).exec buf = (.ok (), buf ++ stringBytes s) := by
  simp [encode, WriteM.exec_bind, stringBytes]

@[simp] theorem exec_optString (s : Option String) :
    (encode s).exec buf = (.ok (), buf ++ optStringBytes s) := by
  cases s with
  | none => rfl
  | some s => exact exec_string buf s

theorem exec_encodeVec {α : Type} [Encoder α] {elem : α → Bytes}
    (h : ∀ x buf, (encode x).exec buf = (.ok (), buf ++ elem x)) (xs : List α) :
    (encodeVec xs).exec buf = (.ok (), buf ++ vecBytes elem xs) := by
  rw [encodeVec, WriteM.exec_bind, WriteM.exec_write]
  show (WriteM.each encode xs).exec _ = _
  rw [WriteM.exec_each h, vecBytes, List.append_assoc]

@[simp] theorem exec_strings (xs : List String) :
    (encode xs).exec buf = (.ok (), buf ++ vecBytes stringBytes xs) :=
  exec_encodeVec buf (fun s buf => exec_string buf s) xs

@[simp] theorem exec_map (m : HashMap String String) :
    (encode m).exec buf = (.ok (), buf ++ vecBytes entryBytes m.entries) := by
  have hentry : ∀ (e : String × String) (buf : Bytes),
      (do encode e.1; encode e.2 : Writer).exec buf = (.ok (), buf ++ entryBytes e) := by
    intro e buf
    simp [WriteM.exec_bind, entryBytes]
  show (do WriteM.write (toBE 4 m.len); WriteM.each _ m.entries : Writer).exec buf = _
  rw [WriteM.exec_bind, WriteM.exec_write]
  show (WriteM.each _ m.entries).exec _ = _
  rw [WriteM.exec_each hentry, vecBytes, HashMap.len, List.append_assoc]

@[simp] theorem exec_bytes (bs : Bytes) :
    (encode bs).exec buf = (.ok (), buf ++ (toBE 4 bs.length ++ bs)) := by
  simp [encode, WriteM.exec_bind]

@[simp] theorem exec_offset (s : OffsetSpecification) :
    (encode s).exec buf = (.ok (), buf ++ offsetBytes s) := by
  cases s <;> simp [encode, WriteM.exec_bind, offsetBytes]

@[simp] theorem exec_versions (vs : List ExchangeCommandVersion) :
    (encode vs).exec buf = (.ok (), buf ++ vecBytes versionBytes vs) :=
  exec_encodeVec buf (fun v buf => by simp [encode, WriteM.exec_bind, versionBytes]) vs

@[simp] theorem exec_messages (ms : List PublishedMessage) :
    (encode ms).exec buf = (.ok (), buf ++ vecBytes publishedBytes ms) :=
  exec_encodeVec buf
    (fun m buf => by simp [encode, WriteM.exec_bind, publishedBytes, encodedSize]) ms

@[simp] theorem exec_messageVersion2 (m : PublishedMessage) :
    m.encodeVersion2.exec buf = (.ok (), buf ++ publishedBytesVersion2 m) := by
  have hbody : (encode m.message : Writer) = WriteM.write (Amqp.encode m.message.message) := rfl
  simp [PublishedMessage.encodeVersion2, publishedBytesVersion2, WriteM.exec_bind, hbody,
    encodedSize]

@[simp] theorem exec_messagesVersion2 (ms : List PublishedMessage) :
    (encodeVersion2 ms).exec buf = (.ok (), buf ++ vecBytes publishedBytesVersion2 ms) := by
  rw [encodeVersion2, WriteM.exec_bind, WriteM.exec_write]
  show (WriteM.each _ ms).exec _ = _
  rw [WriteM.exec_each (fun m buf => exec_messageVersion2 buf m), vecBytes, List.append_assoc]

end Writers

/-! ## 2. Numbers and codes

No condition: these come back always. -/

section Numbers

variable (rest out : Bytes)

@[simp] theorem decode_u8_iff (n x : UInt8) :
    (decode : DecodeM UInt8) (toBE 1 n.toNat ++ rest) = .ok (x, out) ↔ x = n ∧ out = rest :=
  Reader.returns_iff (readU8_append n rest)

@[simp] theorem decode_u16_iff (n x : UInt16) :
    (decode : DecodeM UInt16) (toBE 2 n.toNat ++ rest) = .ok (x, out) ↔ x = n ∧ out = rest :=
  Reader.returns_iff (readU16_append n rest)

@[simp] theorem decode_u32_iff (n x : UInt32) :
    (decode : DecodeM UInt32) (toBE 4 n.toNat ++ rest) = .ok (x, out) ↔ x = n ∧ out = rest :=
  Reader.returns_iff (readU32_append n rest)

@[simp] theorem decode_u64_iff (n x : UInt64) :
    (decode : DecodeM UInt64) (toBE 8 n.toNat ++ rest) = .ok (x, out) ↔ x = n ∧ out = rest :=
  Reader.returns_iff (readU64_append n rest)

@[simp] theorem decode_code_iff (c x : ResponseCode) :
    (decode : DecodeM ResponseCode) (toBE 2 c.toU16.toNat ++ rest) = .ok (x, out) ↔
      x = c ∧ out = rest := by
  refine Reader.returns_iff ((Reader.bind_of_ok (readU16_append c.toU16 rest)).trans ?_)
  cases c <;> rfl

@[simp] theorem decode_offset_iff (s x : OffsetSpecification) :
    (decode : DecodeM OffsetSpecification) (offsetBytes s ++ rest) = .ok (x, out) ↔
      x = s ∧ out = rest := by
  refine Reader.returns_iff ?_
  unfold offsetBytes
  rw [List.append_assoc]
  refine (Reader.bind_of_ok (readU16_append s.getType _)).trans ?_
  cases s with
  | first => rfl
  | last => rfl
  | next => rfl
  | offset offset => exact Reader.bind_of_ok (readU64_append offset rest)
  | timestamp timestamp => exact Reader.bind_of_ok (readI64_append timestamp rest)

@[simp] theorem decode_version_iff (v x : ExchangeCommandVersion) :
    (decode : DecodeM ExchangeCommandVersion) (versionBytes v ++ rest) = .ok (x, out) ↔
      x = v ∧ out = rest := by
  refine Reader.returns_iff ?_
  rw [versionBytes, List.append_assoc, List.append_assoc]
  refine (Reader.bind_of_ok (readU16_append v.key _)).trans ?_
  refine (Reader.bind_of_ok (readU16_append v.minVersion _)).trans ?_
  exact Reader.bind_of_ok (readU16_append v.maxVersion rest)

end Numbers

/-! ## 3. Strings

The law of a string field under the bound that the length fits.  What happens above the bound is
in `StringFields`. -/

/-- The length of the string fits in an `i16`. -/
def Short (s : String) : Prop := (asBytes s).length ≤ 32767

instance (s : String) : Decidable (Short s) := inferInstanceAs (Decidable (_ ≤ _))

theorem asBytes_eq_nil_iff {s : String} : asBytes s = [] ↔ s = "" := by
  constructor
  · intro h
    have hs := fromUtf8_asBytes s
    rw [h] at hs
    exact (Option.some.inj ((fromUtf8_asBytes "").symm.trans hs)).symm
  · rintro rfl
    rfl

/-- A length that fits in an `i16` is read back as itself. -/
theorem toInt_of_short {n : ℕ} (h : n ≤ 32767) : (UInt16.ofNat n).toInt16.toInt = n := by
  rw [Int16.toInt, UInt16.toBitVec_toInt16, BitVec.toInt_eq_toNat_cond]
  simp only [UInt16.toBitVec_ofNat', BitVec.toNat_ofNat]
  omega

/-- **A string** of at most `i16::MAX` bytes.  The empty one is read as an absent one. -/
theorem decode_string {s : String} (h : Short s) (rest : Bytes) :
    (decode : DecodeM (Option String)) (stringBytes s ++ rest) =
      .ok (if s = "" then none else some s, rest) := by
  have hint := toInt_of_short h
  rw [stringBytes, List.append_assoc]
  refine (Reader.bind_of_ok (readI16_toBE _ _)).trans ?_
  by_cases hs : s = ""
  · subst hs
    rfl
  · have hpos : (asBytes s).length ≠ 0 := fun h0 =>
      hs (asBytes_eq_nil_iff.mp (List.length_eq_zero_iff.mp h0))
    have hne : (UInt16.ofNat (asBytes s).length).toInt16 ≠ 0 := by
      intro h0
      rw [h0] at hint
      exact hpos (by simpa using hint.symm)
    have hlen : (asBytes s).length = asUsize16 (UInt16.ofNat (asBytes s).length).toInt16 := by
      have hlt : (asBytes s).length ≤ 32767 := h
      rw [asUsize16, hint]
      omega
    rw [if_neg hne, if_neg hs]
    refine (Reader.bind_of_ok (Reader.takeN_append hlen rest)).trans ?_
    rw [fromUtf8_asBytes]
    rfl

theorem decode_string_iff {s : String} (h : Short s) (x : Option String) (rest out : Bytes) :
    (decode : DecodeM (Option String)) (stringBytes s ++ rest) = .ok (x, out) ↔
      x = (if s = "" then none else some s) ∧ out = rest :=
  Reader.returns_iff (decode_string h rest)

theorem decode_optString_iff {s : Option String} (h : ∀ t ∈ s, Short t) (rest out : Bytes) :
    (decode : DecodeM (Option String)) (optStringBytes s ++ rest) = .ok (s, out) ↔
      s ≠ some "" ∧ out = rest := by
  cases s with
  | none =>
    have hread : (decode : DecodeM (Option String)) (optStringBytes none ++ rest) =
        .ok (none, rest) := rfl
    rw [Reader.returns_iff hread]
    simp
  | some t =>
    rw [optStringBytes, decode_string_iff (h t rfl)]
    by_cases ht : t = "" <;> simp [ht]

@[simp] theorem unwrap_iff {α : Type} {o : Option α} {b out : Bytes} {x : α} :
    unwrap o b = .ok (x, out) ↔ o = some x ∧ b = out := by
  cases o <;> simp [unwrap]

/-! ## 4. Vectors of strings, and string maps

The loops of both skip what has an empty string in it, and run as often as the count says, which
is the length modulo `2 ^ 32`. -/

/-- The count of a vector, as its decoder reads it. -/
def countOf (n : ℕ) : ℕ := (UInt32.ofNat n).toNat

theorem countOf_eq (n : ℕ) : countOf n = n % 2 ^ 32 := UInt32.toNat_ofNat' ..

theorem countOf_le (n : ℕ) : countOf n ≤ n := by
  rw [countOf_eq]
  exact Nat.mod_le n _

/-- What a loop that skips keeps of a vector is the whole vector exactly when the count is right
and nothing is skipped. -/
theorem kept_iff {α : Type} {p : α → Prop} [DecidablePred p] (enc : α → Bytes) (xs : List α)
    (rest out : Bytes) :
    xs = (xs.take (countOf xs.length)).filter p ∧
        out = (xs.drop (countOf xs.length)).flatMap enc ++ rest ↔
      (xs.length < 2 ^ 32 ∧ ∀ x ∈ xs, p x) ∧ out = rest := by
  have hcount := countOf_eq xs.length
  constructor
  · rintro ⟨hkept, hout⟩
    have hlen := congrArg List.length hkept
    have hfilter := List.length_filter_le (p ·) (xs.take (countOf xs.length))
    rw [← hlen, List.length_take] at hfilter
    have hall : countOf xs.length = xs.length := by omega
    rw [hall, List.take_length] at hkept
    rw [hall, List.drop_length, List.flatMap_nil, List.nil_append] at hout
    refine ⟨⟨by omega, fun x hx => ?_⟩, hout⟩
    have hp := List.filter_eq_self.mp hkept.symm x hx
    simpa using hp
  · rintro ⟨⟨hlen, hp⟩, rfl⟩
    rw [hcount, Nat.mod_eq_of_lt hlen, List.take_length, List.drop_length]
    exact ⟨(List.filter_eq_self.mpr (fun x hx => by simpa using hp x hx)).symm, rfl⟩

theorem foldl_keep (acc xs : List String) :
    xs.foldl (fun vec s => if s = "" then vec else vec ++ [s]) acc =
      acc ++ xs.filter (fun s => s ≠ "") := by
  induction xs generalizing acc with
  | nil => simp
  | cons x xs ih =>
    by_cases hx : x = ""
    · simp [hx, ih]
    · simp [hx, ih, List.append_assoc]

/-- What the decoder makes of a vector of strings: it reads as many as the count says, and skips
the empty ones. -/
theorem decode_strings {xs : List String} (h : ∀ s ∈ xs, Short s) (rest : Bytes) :
    (decode : DecodeM (List String)) (vecBytes stringBytes xs ++ rest) =
      .ok ((xs.take (countOf xs.length)).filter (fun s => s ≠ ""),
        (xs.drop (countOf xs.length)).flatMap stringBytes ++ rest) := by
  have hbody : ∀ s ∈ xs, ∀ (vec : List String) (rest : Bytes),
      (do
        let value ← (decode : DecodeM (Option String))
        match value with
        | some v => pure (vec ++ [v])
        | none => pure vec : DecodeM (List String)) (stringBytes s ++ rest) =
        .ok (if s = "" then vec else vec ++ [s], rest) := by
    intro s hs vec rest
    rw [Reader.bind_of_ok (decode_string (h s hs) rest)]
    by_cases hempty : s = "" <;> simp [hempty]
  rw [vecBytes, List.append_assoc]
  refine (Reader.bind_of_ok (readU32_toBE _ _)).trans ?_
  refine (Reader.loop_flatMap hbody (countOf_le _) [] rest).trans ?_
  rw [foldl_keep, List.nil_append]

/-- **A vector of strings** comes back exactly when no string of it is empty and the count fits
in a `u32`. -/
theorem decode_strings_iff {xs : List String} (h : ∀ s ∈ xs, Short s) (rest out : Bytes) :
    (decode : DecodeM (List String)) (vecBytes stringBytes xs ++ rest) = .ok (xs, out) ↔
      (xs.length < 2 ^ 32 ∧ ∀ s ∈ xs, s ≠ "") ∧ out = rest :=
  (Reader.returns_iff (decode_strings h rest)).trans (kept_iff stringBytes xs rest out)

/-- The entry survives the loop of `HashMap::decode`. -/
def EntryFits (e : String × String) : Prop := e.1 ≠ "" ∧ e.2 ≠ ""

instance : DecidablePred EntryFits := fun _ => inferInstanceAs (Decidable (_ ∧ _))

/-- One round of the loop of `HashMap::decode`. -/
def keepEntry (m : HashMap String String) (e : String × String) : HashMap String String :=
  if EntryFits e then m.insert e.1 e.2 rfl else m

/-- The rounds on entries with keys that are all different, and not in the map yet. -/
theorem foldl_keepEntry (es : List (String × String)) (m : HashMap String String)
    (h : (m.entries ++ es).Pairwise (fun a b => HashKey.eq a.1 b.1 = false)) :
    (es.foldl keepEntry m).entries = m.entries ++ es.filter EntryFits := by
  induction es generalizing m with
  | nil => simp
  | cons e es ih =>
    obtain ⟨hm, hes, hcross⟩ := List.pairwise_append.mp h
    obtain ⟨he, hes'⟩ := List.pairwise_cons.mp hes
    by_cases hfits : EntryFits e
    · have hentries : (keepEntry m e).entries = m.entries ++ [e] := by
        rw [keepEntry, if_pos hfits]
        exact HashMap.insertEntry_of_new (fun x hx => hcross x hx e (by simp))
      rw [List.foldl_cons, ih _ (by rw [hentries, List.append_assoc]; exact h), hentries,
        List.append_assoc, List.filter_cons_of_pos (by simpa using hfits)]
      rfl
    · have hentries : keepEntry m e = m := if_neg hfits
      rw [List.foldl_cons, hentries, ih m, List.filter_cons_of_neg (by simpa using hfits)]
      exact List.pairwise_append.mpr
        ⟨hm, hes', fun x hx y hy => hcross x hx y (List.mem_cons_of_mem e hy)⟩

/-- What goes on behind a capacity has been granted it. -/
theorem eq_ok_of_withCapacity {α : Type} [Allocator] {C : Type} {n : ℕ} {next : DecodeM α}
    {b : Bytes} {r : α × Bytes} (h : (withCapacity C n >>= fun _ => next) b = .ok r) :
    next b = .ok r := by
  rw [withCapacity] at h
  split at h
  · rwa [pure_bind] at h
  · obtain ⟨_, _, hthrow, -⟩ := Reader.bind_eq_ok.mp h
    exact absurd hthrow (by simp)

section Memory

variable [Allocator] [Allocator.Ample]

/-- With memory for everything, a capacity is no obstacle. -/
theorem withCapacity_bind {α : Type} (C : Type) (n : ℕ) (next : DecodeM α) :
    (withCapacity C n >>= fun _ => next) = next := by
  rw [withCapacity, if_pos (Allocator.Ample.grants C n), pure_bind]

theorem withCapacity_iff (C : Type) (n : ℕ) (b out : Bytes) (u : Unit) :
    withCapacity C n b = .ok (u, out) ↔ out = b := by
  rw [withCapacity, if_pos (Allocator.Ample.grants C n), Reader.pure_apply]
  simp [eq_comm]

/-- What the decoder makes of a string map: it reads as many entries as the count says, and skips
those with an empty string. -/
theorem decode_map {m : HashMap String String} (h : ∀ e ∈ m.entries, Short e.1 ∧ Short e.2)
    (rest : Bytes) : ∃ m', (decode : DecodeM (HashMap String String))
        (vecBytes entryBytes m.entries ++ rest) =
          .ok (m', (m.entries.drop (countOf m.len)).flatMap entryBytes ++ rest) ∧
      m'.entries = (m.entries.take (countOf m.len)).filter EntryFits := by
  refine ⟨(m.entries.take (countOf m.len)).foldl keepEntry HashMap.empty, ?_, ?_⟩
  · rw [vecBytes, List.append_assoc]
    refine (Reader.bind_of_ok (readU32_toBE _ _)).trans ?_
    rw [withCapacity_bind]
    refine Reader.loop_flatMap (fun e he map rest => ?_) (countOf_le _) HashMap.empty rest
    -- one round, on an entry
    obtain ⟨hk, hv⟩ := h e he
    rw [entryBytes, List.append_assoc, Reader.bind_of_ok (decode_string hk _),
      Reader.bind_of_ok (decode_string hv _)]
    by_cases hk0 : e.1 = "" <;> by_cases hv0 : e.2 = "" <;>
      simp [keepEntry, EntryFits, hk0, hv0]
  · exact foldl_keepEntry _ _ (m.distinct.sublist (List.take_sublist _ _))

/-- **A string map** comes back exactly when no key and no value of it is empty and the count
fits in a `u32`. -/
theorem decode_map_iff {m : HashMap String String}
    (h : ∀ e ∈ m.entries, Short e.1 ∧ Short e.2) (rest out : Bytes) :
    (decode : DecodeM (HashMap String String)) (vecBytes entryBytes m.entries ++ rest) =
        .ok (m, out) ↔
      (m.len < 2 ^ 32 ∧ ∀ e ∈ m.entries, EntryFits e) ∧ out = rest := by
  obtain ⟨m', hm', hentries⟩ := decode_map h rest
  have heq : m = m' ↔ m.entries = (m.entries.take (countOf m.len)).filter EntryFits := by
    rw [← hentries]
    exact ⟨fun h => congrArg _ h, HashMap.ext_entries⟩
  rw [Reader.returns_iff hm', heq]
  exact kept_iff entryBytes m.entries rest out

end Memory

/-! ## 5. Vectors of bytes and of records

The count is read as an `i32` and cast to a `usize`.  It is the length of the vector as long as
that is below `2 ^ 31`, and a vector of that length comes back when its elements do. -/

/-- `result.push(value)`. -/
def pushBody {α : Type} (elem : DecodeM α) (result : List α) : DecodeM (List α) := do
  let value ← elem
  pure (result ++ [value])

/-- A loop that pushes returns what it has begun with and one element for each round. -/
theorem loop_push_extends {α : Type} {elem : DecodeM α} {n : ℕ} {acc ys : List α} {b out : Bytes}
    (h : Reader.loop (pushBody elem) n acc b = .ok (ys, out)) :
    ∃ zs, ys = acc ++ zs ∧ zs.length = n := by
  induction n generalizing acc b with
  | zero =>
    simp only [Reader.loop, Reader.pure_apply, Except.ok.injEq, Prod.mk.injEq] at h
    exact ⟨[], by rw [List.append_nil]; exact h.1.symm, rfl⟩
  | succ n ih =>
    obtain ⟨acc', mid, hbody, hloop⟩ := Reader.bind_eq_ok.mp h
    obtain ⟨v, mid', -, hpush⟩ := Reader.bind_eq_ok.mp hbody
    simp only [Reader.pure_apply, Except.ok.injEq, Prod.mk.injEq] at hpush
    obtain ⟨rfl, rfl⟩ := hpush
    obtain ⟨zs, rfl, hlen⟩ := ih hloop
    exact ⟨v :: zs, by rw [List.append_assoc]; rfl, by rw [List.length_cons, hlen]⟩

section Push

variable {α : Type} {elem : DecodeM α} {enc : α → Bytes} {good : α → Prop}

/-- **A loop that pushes** returns the elements it is run on exactly when it runs as often as there
are elements and each of them comes back.  By induction on the elements.  A run pushes one element
behind those it has and never touches them again, so the one that is pushed is the one expected
there. -/
theorem loop_push_iff {xs : List α}
    (h : ∀ x ∈ xs, ∀ rest out, elem (enc x ++ rest) = .ok (x, out) ↔ good x ∧ out = rest)
    (n : ℕ) (acc : List α) (rest out : Bytes) :
    Reader.loop (pushBody elem) n acc (xs.flatMap enc ++ rest) = .ok (acc ++ xs, out) ↔
      (n = xs.length ∧ ∀ x ∈ xs, good x) ∧ out = rest := by
  induction xs generalizing n acc with
  | nil =>
    cases n with
    | zero => simp [Reader.loop, eq_comm]
    | succ n =>
      constructor
      · intro hrun
        obtain ⟨zs, hzs, hlen⟩ := loop_push_extends hrun
        obtain rfl : zs = [] := (List.append_cancel_left hzs).symm
        exact absurd hlen (by simp)
      · rintro ⟨⟨h0, -⟩, -⟩
        exact absurd h0 (by simp)
  | cons x xs ih =>
    cases n with
    | zero => simp [Reader.loop]
    | succ n =>
      have hx := h x (by simp) (xs.flatMap enc ++ rest)
      have ih := ih (fun y hy => h y (by simp [hy])) n (acc ++ [x])
      rw [List.append_assoc] at ih
      rw [List.flatMap_cons, List.append_assoc]
      constructor
      · intro hrun
        obtain ⟨acc', mid, hbody, hloop⟩ := Reader.bind_eq_ok.mp hrun
        obtain ⟨v, mid', hv, hpush⟩ := Reader.bind_eq_ok.mp hbody
        simp only [Reader.pure_apply, Except.ok.injEq, Prod.mk.injEq] at hpush
        obtain ⟨rfl, rfl⟩ := hpush
        -- The element that is pushed stays where it is, so it is `x`.
        obtain ⟨zs, hzs, -⟩ := loop_push_extends hloop
        rw [List.append_assoc] at hzs
        obtain ⟨rfl, -⟩ := List.cons.inj (List.append_cancel_left hzs)
        obtain ⟨hgood, rfl⟩ := (hx _).mp hv
        obtain ⟨⟨hn, hall⟩, hout⟩ := ih.mp hloop
        exact ⟨⟨by rw [hn, List.length_cons], List.forall_mem_cons.mpr ⟨hgood, hall⟩⟩, hout⟩
      · rintro ⟨⟨hn, hall⟩, rfl⟩
        obtain ⟨hgood, hall⟩ := List.forall_mem_cons.mp hall
        have hbody : pushBody elem acc (enc x ++ (xs.flatMap enc ++ out)) =
            .ok (acc ++ [x], xs.flatMap enc ++ out) :=
          Reader.bind_of_ok ((hx _).mpr ⟨hgood, rfl⟩)
        exact (Reader.bind_of_ok hbody).trans
          (ih.mpr ⟨⟨by simpa using hn, hall⟩, rfl⟩)

end Push

/-- The count of a vector, read as an `i32`. -/
theorem toInt_count (n : ℕ) :
    (UInt32.ofNat n).toInt32.toInt =
      if n % 2 ^ 32 < 2 ^ 31 then ((n % 2 ^ 32 : ℕ) : ℤ)
      else ((n % 2 ^ 32 : ℕ) : ℤ) - 2 ^ 32 := by
  rw [Int32.toInt, UInt32.toBitVec_toInt32, BitVec.toInt_eq_toNat_cond]
  simp only [UInt32.toBitVec_ofNat', BitVec.toNat_ofNat]
  split <;> split <;> omega

theorem count_neg_iff (n : ℕ) : (UInt32.ofNat n).toInt32 < 0 ↔ 2 ^ 31 ≤ n % 2 ^ 32 := by
  have hint := toInt_count n
  rw [Int32.lt_iff_toInt_lt, hint, Int32.toInt_zero]
  split <;> omega

/-- `read_vec` of a count that is negative as an `i32`. -/
theorem readVec_negative {α : Type} [Allocator] [Decoder α] {n : ℕ} (h : 2 ^ 31 ≤ n % 2 ^ 32)
    (b : Bytes) :
    (readVec : DecodeM (List α)) (toBE 4 n ++ b) = .error (.panic .capacityOverflow) := by
  refine (Reader.bind_of_ok (readI32_toBE n b)).trans ?_
  rw [if_pos ((count_neg_iff n).mpr h), Reader.throw_apply]

section Memory

variable [Allocator] [Allocator.Ample]

/-- **A vector that `read_vec` reads** comes back exactly when its elements do and the count fits
in an `i32`. -/
theorem readVec_iff {α : Type} [Decoder α] {enc : α → Bytes} {good : α → Prop} {xs : List α}
    (h : ∀ x ∈ xs, ∀ rest out,
      (decode : DecodeM α) (enc x ++ rest) = .ok (x, out) ↔ good x ∧ out = rest)
    (rest out : Bytes) :
    (readVec : DecodeM (List α)) (vecBytes enc xs ++ rest) = .ok (xs, out) ↔
      (xs.length < 2 ^ 31 ∧ ∀ x ∈ xs, good x) ∧ out = rest := by
  rw [vecBytes, List.append_assoc]
  by_cases hneg : 2 ^ 31 ≤ xs.length % 2 ^ 32
  · rw [readVec_negative hneg]
    constructor
    · intro hrun
      exact absurd hrun (by simp)
    · rintro ⟨⟨hlen, -⟩, -⟩
      omega
  · have hcount : asUsize32 (UInt32.ofNat xs.length).toInt32 = xs.length % 2 ^ 32 := by
      rw [asUsize32, toInt_count, if_pos (by omega)]
      omega
    have hread : (readVec : DecodeM (List α)) (toBE 4 xs.length ++ (xs.flatMap enc ++ rest)) =
        Reader.loop (pushBody decode) (xs.length % 2 ^ 32) [] (xs.flatMap enc ++ rest) := by
      refine (Reader.bind_of_ok (readI32_toBE _ _)).trans ?_
      rw [if_neg (by rw [count_neg_iff]; exact hneg), withCapacity_bind, hcount]
      rfl
    have hloop := loop_push_iff h (xs.length % 2 ^ 32) [] rest out
    rw [List.nil_append] at hloop
    rw [hread, hloop, show xs.length % 2 ^ 32 = xs.length ↔ xs.length < 2 ^ 31 by omega]

theorem decode_versions_iff (vs : List ExchangeCommandVersion) (rest out : Bytes) :
    (readVec : DecodeM (List ExchangeCommandVersion)) (vecBytes versionBytes vs ++ rest) =
        .ok (vs, out) ↔
      vs.length < 2 ^ 31 ∧ out = rest := by
  have hversion : ∀ v ∈ vs, ∀ rest out : Bytes,
      (decode : DecodeM ExchangeCommandVersion) (versionBytes v ++ rest) = .ok (v, out) ↔
        True ∧ out = rest := by
    intro v _ rest out
    simp
  rw [readVec_iff hversion]
  simp

end Memory

/-- The length of a vector of bytes is read back as itself, through `i32` and `usize`. -/
def LengthSurvives (n : ℕ) : Prop := asUsize32 (UInt32.ofNat n).toInt32 = n

instance : DecidablePred LengthSurvives := fun _ => inferInstanceAs (Decidable (_ = _))

/-- No vector is longer than `isize::MAX`. -/
theorem lengthSurvives_iff {n : ℕ} (h : n < 2 ^ 63) : LengthSurvives n ↔ n < 2 ^ 31 := by
  unfold LengthSurvives asUsize32
  rw [toInt_count]
  split <;> omega

theorem decode_bytes_iff (bs rest out : Bytes) :
    (decode : DecodeM Bytes) (toBE 4 bs.length ++ (bs ++ rest)) = .ok (bs, out) ↔
      LengthSurvives bs.length ∧ out = rest := by
  refine (Eq.congr_left (Reader.bind_of_ok (readI32_toBE _ _))).trans ?_
  rw [Reader.takeN_eq_ok, List.append_cancel_left_eq]
  exact ⟨fun ⟨hout, hlen⟩ => ⟨hlen.symm, hout.symm⟩, fun ⟨hlen, hout⟩ => ⟨hout.symm, hlen.symm⟩⟩

/-- A vector of bytes, read element by element. -/
theorem readVec_bytes [Allocator] [Allocator.Ample] {bs : Bytes} (h : bs.length < 2 ^ 31)
    (rest : Bytes) :
    (readVec : DecodeM (List UInt8)) (toBE 4 bs.length ++ (bs ++ rest)) = .ok (bs, rest) := by
  have hbyte : ∀ b ∈ bs, ∀ rest out : Bytes,
      (decode : DecodeM UInt8) ([b] ++ rest) = .ok (b, out) ↔ True ∧ out = rest := by
    intro b _ rest out
    have hb : toBE 1 b.toNat = [b] := by simp [toBE]
    rw [← hb, decode_u8_iff]
    simp
  have hread := readVec_iff hbyte rest rest
  rw [vecBytes, List.flatMap_singleton', List.append_assoc] at hread
  exact hread.mpr ⟨⟨h, by simp⟩, rfl⟩

/-! ## 6. Messages

The size in front of a message is the one that the message announces.  It has to be the number
of its bytes, and that is part of what `RoundTrips` says. -/

section Messages

variable [Amqp.Chrono] [Allocator] [Allocator.Ample]

/-- The message comes back on its own, and its size is the number of its bytes. -/
def PublishedMessage.RoundTrips (m : PublishedMessage) : Prop :=
  Message.decode (Amqp.encode m.message.message) = .ok m.message ∧ Amqp.Exact m.message.message

/-- The message fits in the layout of version 1, behind a size that is an `i32`. -/
def PublishedMessage.Fits (m : PublishedMessage) : Prop :=
  (Amqp.encodedSize m.message.message).toNat < 2 ^ 31 ∧ m.filterValue = none

/-- **A published message** comes back exactly when it has no filter value and its size fits in an
`i32`.  The size that is written is the length of the message.  From `2 ^ 31` on it is read as a
negative number, and a filter value is not in these bytes at all. -/
theorem decode_message_iff {m : PublishedMessage} (h : m.RoundTrips) (rest out : Bytes) :
    (decode : DecodeM PublishedMessage) (publishedBytes m ++ rest) = .ok (m, out) ↔
      m.Fits ∧ out = rest := by
  obtain ⟨hback, hsize⟩ := h
  have hlt := (Amqp.encodedSize m.message.message).toNat_lt
  unfold Amqp.Exact at hsize
  unfold PublishedMessage.Fits publishedBytes
  rw [List.append_assoc, List.append_assoc, hsize]
  rw [hsize] at hlt
  generalize Amqp.encode m.message.message = body at *
  refine (Eq.congr_left (Reader.bind_of_ok (readU64_append m.publishingId _))).trans ?_
  by_cases hfits : body.length < 2 ^ 31
  · refine (Eq.congr_left (Reader.bind_of_ok (readVec_bytes hfits rest))).trans ?_
    have hmessage : decodeBody body rest = .ok (m.message, rest) := by
      rw [decodeBody, hback]
      rfl
    rw [Reader.returns_iff (Reader.bind_of_ok hmessage)]
    constructor
    · rintro ⟨hm, hout⟩
      exact ⟨⟨hfits, congrArg PublishedMessage.filterValue hm⟩, hout⟩
    · rintro ⟨⟨-, hnone⟩, hout⟩
      exact ⟨by rw [← hnone], hout⟩
  · have hneg := readVec_negative (α := UInt8) (n := body.length) (by omega) (body ++ rest)
    constructor
    · intro hrun
      obtain ⟨bs, mid, hread, -⟩ := Reader.bind_eq_ok.mp hrun
      rw [hneg] at hread
      exact absurd hread (by simp)
    · rintro ⟨⟨hlen, -⟩, -⟩
      exact absurd hlen hfits

/-- **The messages of a publish command** come back exactly when each of them does and the count
fits in a `u32`. -/
theorem decode_messages_iff {ms : List PublishedMessage} (h : ∀ m ∈ ms, m.RoundTrips)
    (rest out : Bytes) :
    (decode : DecodeM (List PublishedMessage)) (vecBytes publishedBytes ms ++ rest) =
        .ok (ms, out) ↔
      (ms.length < 2 ^ 32 ∧ ∀ m ∈ ms, m.Fits) ∧ out = rest := by
  have hcount := countOf_eq ms.length
  have hloop := loop_push_iff (fun m hm => decode_message_iff (h m hm)) (countOf ms.length) []
    rest out
  rw [List.nil_append] at hloop
  rw [vecBytes, List.append_assoc]
  refine (Eq.congr_left (Reader.bind_of_ok (readU32_toBE _ _))).trans (hloop.trans ?_)
  rw [show countOf ms.length = ms.length ↔ ms.length < 2 ^ 32 by omega]

end Messages

end RabbitMqStream.Protocol
