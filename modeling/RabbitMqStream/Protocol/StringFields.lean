/-
# Strings in the command layer

Every stream name, reference, property, SASL mechanism and filter value goes through the encoder of
`&str` and the decoder of `Option<String>`, alone or as an element of a `Vec<String>` or of a
`HashMap<String, String>`.

**The length field.**  It is an `i16`, the encoder casts the length to it without a check, and the
decoder casts it back to a `usize`.

* `stringField_iff`: the law of the field, that its length is right and that it comes back in front
  of any bytes, holds exactly for the strings of at most `i16::MAX` bytes.
* `decode_multiple`, `decode_remainder`, `decode_negative`: what the decoder makes of the others.
  It finds no string, or cuts off too little, or panics.
* `comesBack_iff`: none of these is the string, so coming back alone has the same bound.
* `longString_panics`: 32768 bytes, for which it panics.

**The empty string.**  It is written as the absent one is, and the loops of the two collections
skip what is absent.

* `collections_iff`: what comes back is the collection without its empty strings, and without the
  entries that have one.  It is the collection itself exactly when there are none.
* `emptyString_lost`: a vector that comes back shorter, and a map.
* `createSuperStream_decode`: the command whose partitions and binding keys belong together by
  their positions.  Each of the two vectors loses its own empty strings.

**The argument.**  The length that the decoder finds is the length of the string, cast to `i16`
and back.  For each string it is one of four things: right, zero, too small, or more than any
input has.  In the last three cases the decoder's result is computed, and it is never the string.
An element of a collection is read as a string field is, so what is lost of a collection are its
elements that are read as absent, and nothing else.
-/
import RabbitMqStream.Protocol.FieldRoundTrip

namespace RabbitMqStream.Protocol

open Wire

/-! ## 1. The law of a field

The law has two halves: the length field is right, and the value comes back.  An encoder that
returns an error has not broken it. -/

/-- The length field in front of `w`, read as `Option<String>::decode` reads it, is the number of
the bytes behind it. -/
def StatesLength (w : Bytes) : Prop :=
  ∃ len body, (readI16 : DecodeM Int16) w = .ok (len, body) ∧ len.toInt = body.length

/-- The bytes are read as `x`, whatever follows them. -/
def ComesBack {α : Type} [Decoder α] (w : Bytes) (x : α) : Prop :=
  ∀ rest, (decode : DecodeM α) (w ++ rest) = .ok (x, rest)

/-- What a string is read as: the empty one cannot be told from an absent one. -/
def present (s : String) : Option String := if s = "" then none else some s

/-- The encoder of a field returns an error, or it appends bytes that state their length and are
read as `x`. -/
def FieldLaw {α : Type} [Encoder α] (field : α) (x : Option String) : Prop :=
  ∀ buf, (∃ e buf', (encode field).exec buf = (.error e, buf')) ∨
    ∃ w, (encode field).exec buf = (.ok (), buf ++ w) ∧ StatesLength w ∧ ComesBack w x

/-- For an encoder that appends `w` and does not fail, the law is about `w`. -/
theorem fieldLaw_iff {α : Type} [Encoder α] {field : α} {x : Option String} {w : Bytes}
    (h : ∀ buf, (encode field).exec buf = (.ok (), buf ++ w)) :
    FieldLaw field x ↔ StatesLength w ∧ ComesBack w x := by
  constructor
  · intro hlaw
    rcases hlaw [] with ⟨e, buf', herr⟩ | ⟨w', hw', hgood⟩
    · rw [h] at herr
      exact absurd herr (by simp)
    · rw [h] at hw'
      obtain rfl : w = w' := List.append_cancel_left (congrArg Prod.snd hw')
      exact hgood
  · intro hgood buf
    exact Or.inr ⟨w, h buf, hgood⟩

/-! ## 2. The length field

The cast to an `i16` takes the length modulo `2 ^ 16`, and as a signed number.  It is the length
itself up to 32767 and never after that. -/

/-- A length, cast to `i16`. -/
theorem toInt_cast (n : ℕ) : (UInt16.ofNat n).toInt16.toInt =
    if n % 2 ^ 16 < 2 ^ 15 then ((n % 2 ^ 16 : ℕ) : ℤ) else ((n % 2 ^ 16 : ℕ) : ℤ) - 2 ^ 16 := by
  rw [Int16.toInt, UInt16.toBitVec_toInt16, BitVec.toInt_eq_toNat_cond]
  simp only [UInt16.toBitVec_ofNat', BitVec.toNat_ofNat]
  split <;> split <;> omega

theorem readI16_stringBytes (s : String) (rest : Bytes) :
    (readI16 : DecodeM Int16) (stringBytes s ++ rest) =
      .ok ((UInt16.ofNat (asBytes s).length).toInt16, asBytes s ++ rest) := by
  rw [stringBytes, List.append_assoc]
  exact readI16_toBE _ _

/-- **The length field is right** exactly for a length that fits in an `i16`. -/
theorem statesLength_iff (s : String) : StatesLength (stringBytes s) ↔ Short s := by
  have hread := readI16_stringBytes s []
  rw [List.append_nil, List.append_nil] at hread
  constructor
  · rintro ⟨len, body, hlen, heq⟩
    rw [hread, Except.ok.injEq, Prod.mk.injEq] at hlen
    obtain ⟨rfl, rfl⟩ := hlen
    rw [toInt_cast] at heq
    rw [Short]
    split at heq <;> omega
  · intro h
    exact ⟨_, _, hread, toInt_of_short h⟩

theorem comesBack_of_short {s : String} (h : Short s) : ComesBack (stringBytes s) (present s) :=
  decode_string h

/-- **The length field of a string**: the law holds of `&str`, and of `Option<String>`, exactly
for the strings of at most `i16::MAX` bytes.

A length that fits is read back as itself, and for any other the length field is wrong already. -/
theorem stringField_iff (s : String) :
    (FieldLaw s (present s) ↔ Short s) ∧ (FieldLaw (some s) (present s) ↔ Short s) ∧
      FieldLaw (none : Option String) none := by
  have hlaw : StatesLength (stringBytes s) ∧ ComesBack (stringBytes s) (present s) ↔ Short s :=
    ⟨fun h => (statesLength_iff s).mp h.1,
      fun h => ⟨(statesLength_iff s).mpr h, comesBack_of_short h⟩⟩
  refine ⟨(fieldLaw_iff fun buf => exec_string buf s).trans hlaw,
    (fieldLaw_iff fun buf => exec_optString buf (some s)).trans hlaw, ?_⟩
  refine (fieldLaw_iff fun buf => exec_optString buf none).mpr ⟨⟨0, [], rfl, rfl⟩, ?_⟩
  intro rest
  rfl

/-! ## 3. Longer strings

The three kinds of wrong lengths, each with what the decoder does: it reads an absent string, or
a beginning of the string, or it panics. -/

/-- `Option<String>::decode` behind the length. -/
def textOf (len : Int16) : DecodeM (Option String) :=
  if len = 0 then pure none
  else do
    let bytes ← splitAt (asUsize16 len)
    match fromUtf8 bytes with
    | some s => pure (some s)
    | none => throw (.error (OfUtf8Error.utf8Error bytes))

theorem decode_textOf (s : String) (rest : Bytes) :
    (decode : DecodeM (Option String)) (stringBytes s ++ rest) =
      textOf (UInt16.ofNat (asBytes s).length).toInt16 (asBytes s ++ rest) :=
  Reader.bind_of_ok (k := textOf) (readI16_stringBytes s rest)

/-- The length the decoder finds is zero when the length is a multiple of `2 ^ 16`. -/
theorem cast_eq_zero_iff (n : ℕ) : (UInt16.ofNat n).toInt16 = 0 ↔ n % 2 ^ 16 = 0 := by
  have hint := toInt_cast n
  constructor
  · intro h
    rw [h, Int16.toInt_zero] at hint
    split at hint <;> omega
  · intro h
    rw [h, if_pos (by omega)] at hint
    exact Int16.toInt_inj.mp (by simpa using hint)

/-- What the decoder cuts off is the length modulo `2 ^ 16`, or more than any input has. -/
theorem asUsize_cast (n : ℕ) : asUsize16 (UInt16.ofNat n).toInt16 =
    if n % 2 ^ 16 < 2 ^ 15 then n % 2 ^ 16 else 2 ^ 64 - 2 ^ 16 + n % 2 ^ 16 := by
  rw [asUsize16, toInt_cast]
  split <;> omega

/-- A length that is a multiple of `2 ^ 16` stands for no string. -/
theorem decode_multiple {s : String} (h : (asBytes s).length % 2 ^ 16 = 0) (rest : Bytes) :
    (decode : DecodeM (Option String)) (stringBytes s ++ rest) = .ok (none, asBytes s ++ rest) := by
  rw [decode_textOf, textOf, if_pos ((cast_eq_zero_iff _).mpr h)]
  rfl

/-- A length that is negative as an `i16` is cut off nothing: `split_at` panics. -/
theorem decode_negative {s : String} (h : 2 ^ 15 ≤ (asBytes s).length % 2 ^ 16) {rest : Bytes}
    (hlen : (asBytes s ++ rest).length < 2 ^ 63) :
    (decode : DecodeM (Option String)) (stringBytes s ++ rest) =
      .error (.panic .splitAtOutOfRange) := by
  have hcut : (splitAt (asUsize16 (UInt16.ofNat (asBytes s).length).toInt16) : DecodeM Bytes)
      (asBytes s ++ rest) = .error (.panic .splitAtOutOfRange) :=
    if_pos (by rw [asUsize_cast, if_neg (by omega)]; omega)
  rw [decode_textOf, textOf, if_neg (by rw [cast_eq_zero_iff]; omega), Reader.bind_apply, hcut]

/-- Of any other length the remainder modulo `2 ^ 16` is cut off. -/
theorem decode_remainder {s : String} (h : (asBytes s).length % 2 ^ 16 < 2 ^ 15) {rest out : Bytes}
    {x : Option String}
    (hrun : (decode : DecodeM (Option String)) (stringBytes s ++ rest) = .ok (x, out)) :
    out = (asBytes s ++ rest).drop ((asBytes s).length % 2 ^ 16) := by
  by_cases h0 : (asBytes s).length % 2 ^ 16 = 0
  · rw [decode_multiple h0, Except.ok.injEq, Prod.mk.injEq] at hrun
    rw [h0, List.drop_zero, hrun.2]
  · rw [decode_textOf, textOf, if_neg (by rw [cast_eq_zero_iff]; exact h0)] at hrun
    obtain ⟨bs, mid, hsplit, hutf⟩ := Reader.bind_eq_ok.mp hrun
    obtain ⟨hbs, hcount⟩ := Reader.takeN_eq_ok.mp hsplit
    rw [asUsize_cast, if_pos h] at hcount
    have hmid : mid = out := by
      cases hs : fromUtf8 bs <;> simp [hs] at hutf
      exact hutf.2
    rw [hbs, ← hmid, List.drop_left' hcount]

/-- **A string comes back** exactly when it has at most `i16::MAX` bytes.  No `String` is longer
than `isize::MAX`. -/
theorem comesBack_iff {s : String} (h : (asBytes s).length < 2 ^ 63) :
    ComesBack (stringBytes s) (present s) ↔ Short s := by
  refine ⟨fun hback => ?_, comesBack_of_short⟩
  have hrun := hback []
  by_cases hlow : (asBytes s).length % 2 ^ 16 < 2 ^ 15
  · have hall := congrArg List.length (decode_remainder hlow hrun)
    rw [List.append_nil, List.length_nil, List.length_drop] at hall
    rw [Short]
    omega
  · rw [decode_negative (by omega) (by simpa using h)] at hrun
    exact absurd hrun (by simp)

/-- A string whose length is negative as an `i16` is encoded without an error, and the decoder
panics at what was written. -/
theorem negative_panics {s : String} (h : 2 ^ 15 ≤ (asBytes s).length % 2 ^ 16)
    (hlen : (asBytes s).length < 2 ^ 63) :
    (encode s).exec [] = (.ok (), stringBytes s) ∧
      (decode : DecodeM (Option String)) (stringBytes s) = .error (.panic .splitAtOutOfRange) ∧
      ¬ FieldLaw s (present s) ∧ ¬ FieldLaw (some s) (present s) := by
  have hpanic : (decode : DecodeM (Option String)) (stringBytes s ++ []) =
      .error (.panic .splitAtOutOfRange) :=
    decode_negative h (by rw [List.append_nil]; exact hlen)
  rw [List.append_nil] at hpanic
  have hlong : ¬ (StatesLength (stringBytes s) ∧ ComesBack (stringBytes s) (present s)) := by
    intro hgood
    have hshort := (statesLength_iff s).mp hgood.1
    rw [Short] at hshort
    omega
  refine ⟨exec_string [] s, hpanic, ?_, ?_⟩
  · rw [fieldLaw_iff fun buf => exec_string buf s]
    exact hlong
  · rw [fieldLaw_iff fun buf => exec_optString buf (some s)]
    exact hlong

/-- A string of `n` bytes. -/
def stringOf (n : ℕ) : String := String.ofList (List.replicate n 'a')

theorem stringOf_length (n : ℕ) : (asBytes (stringOf n)).length = n := by
  have hone : String.utf8EncodeChar 'a' = [97] := by decide
  rw [asBytes, stringOf, String.toByteArray_ofList, List.utf8Encode, List.toList_data_toByteArray]
  induction n with
  | zero => rfl
  | succ n ih =>
    rw [List.replicate_succ, List.flatMap_cons, hone, List.length_append, ih, Nat.add_comm]
    rfl

/-- A string of 32768 bytes is encoded without an error, with a length field of -32768, at which
the decoder panics. -/
theorem longString_panics :
    (encode (stringOf 32768)).exec [] = (.ok (), stringBytes (stringOf 32768)) ∧
      (decode : DecodeM (Option String)) (stringBytes (stringOf 32768)) =
        .error (.panic .splitAtOutOfRange) ∧
      ¬ FieldLaw (stringOf 32768) (present (stringOf 32768)) ∧
      ¬ FieldLaw (some (stringOf 32768)) (present (stringOf 32768)) := by
  have hlen := stringOf_length 32768
  exact negative_panics (by rw [hlen]; decide) (by rw [hlen]; decide)

/-! ## 4. Collections

The loops skip what was read as absent.  What is left are the elements that are not empty, in
their order. -/

/-- Two maps with the same entries, whatever order they iterate in. -/
def SameMap (m n : HashMap String String) : Prop := m.entries.Perm n.entries

/-- The encoder of the vector appends bytes that are read as the vector, whatever follows. -/
def VecKept (xs : List String) : Prop :=
  ∀ buf, ∃ w, (encode xs).exec buf = (.ok (), buf ++ w) ∧ ComesBack w xs

/-- The encoder of the map appends bytes that are read as the same map, whatever follows. -/
def MapKept [Allocator] (m : HashMap String String) : Prop :=
  ∀ buf, ∃ w, (encode m).exec buf = (.ok (), buf ++ w) ∧
    ∀ rest, ∃ m', (decode : DecodeM (HashMap String String)) (w ++ rest) = .ok (m', rest) ∧
      SameMap m' m

/-- **What comes back of a vector** whose count fits in a `u32`: its strings that are not empty, in
their order. -/
theorem decode_strings_kept {xs : List String} (hlen : xs.length < 2 ^ 32)
    (h : ∀ s ∈ xs, Short s) :
    ComesBack (vecBytes stringBytes xs) (xs.filter (fun s => s ≠ "")) := by
  intro rest
  rw [decode_strings h, countOf_eq, Nat.mod_eq_of_lt hlen, List.take_length, List.drop_length,
    List.flatMap_nil, List.nil_append]

/-- **What comes back of a map**: its entries without an empty string. -/
theorem decode_map_kept [Allocator] [Allocator.Ample] {m : HashMap String String}
    (hlen : m.len < 2 ^ 32)
    (h : ∀ e ∈ m.entries, Short e.1 ∧ Short e.2) (rest : Bytes) :
    ∃ m', (decode : DecodeM (HashMap String String)) (vecBytes entryBytes m.entries ++ rest) =
        .ok (m', rest) ∧ m'.entries = m.entries.filter EntryFits := by
  obtain ⟨m', hm', hentries⟩ := decode_map h rest
  have hcount : countOf m.len = m.entries.length := by rw [countOf_eq, Nat.mod_eq_of_lt hlen]; rfl
  rw [hcount, List.drop_length, List.flatMap_nil, List.nil_append] at hm'
  rw [hcount, List.take_length] at hentries
  exact ⟨m', hm', hentries⟩

/-- A selection of a list has as many elements as the list only when it is the list. -/
theorem perm_filter_iff {α : Type} {p : α → Prop} [DecidablePred p] (xs : List α) :
    (xs.filter (fun x => p x)).Perm xs ↔ ∀ x ∈ xs, p x := by
  constructor
  · intro hperm x hx
    have hmem := List.mem_filter.mp (hperm.mem_iff.mpr hx)
    simpa using hmem.2
  · intro hall
    rw [List.filter_eq_self.mpr (fun x hx => by simpa using hall x hx)]

theorem vecKept_iff {xs : List String} (hlen : xs.length < 2 ^ 32) (h : ∀ s ∈ xs, Short s) :
    VecKept xs ↔ ∀ s ∈ xs, s ≠ "" := by
  have hback := decode_strings_kept hlen h
  constructor
  · intro hkept
    obtain ⟨w, hw, hcomes⟩ := hkept []
    rw [exec_strings] at hw
    obtain rfl : vecBytes stringBytes xs = w := List.append_cancel_left (congrArg Prod.snd hw)
    have hsame := (hback []).symm.trans (hcomes [])
    rw [Except.ok.injEq, Prod.mk.injEq] at hsame
    exact (perm_filter_iff xs).mp (List.Perm.of_eq hsame.1)
  · intro hall buf
    have hself : xs.filter (fun s => s ≠ "") = xs :=
      List.filter_eq_self.mpr (fun s hs => by simpa using hall s hs)
    rw [hself] at hback
    exact ⟨_, exec_strings buf xs, hback⟩

theorem mapKept_iff [Allocator] [Allocator.Ample] {m : HashMap String String}
    (hlen : m.len < 2 ^ 32) (h : ∀ e ∈ m.entries, Short e.1 ∧ Short e.2) :
    MapKept m ↔ ∀ e ∈ m.entries, e.1 ≠ "" ∧ e.2 ≠ "" := by
  constructor
  · intro hkept
    obtain ⟨w, hw, hcomes⟩ := hkept []
    rw [exec_map] at hw
    obtain rfl : vecBytes entryBytes m.entries = w :=
      List.append_cancel_left (congrArg Prod.snd hw)
    obtain ⟨m', hm', hsame⟩ := hcomes []
    obtain ⟨m'', hm'', hentries⟩ := decode_map_kept hlen h []
    rw [hm'', Except.ok.injEq, Prod.mk.injEq] at hm'
    rw [← hm'.1, SameMap, hentries] at hsame
    exact (perm_filter_iff (p := EntryFits) m.entries).mp hsame
  · intro hall buf
    refine ⟨_, exec_map buf m, fun rest => ?_⟩
    obtain ⟨m', hm', hentries⟩ := decode_map_kept hlen h rest
    refine ⟨m', hm', ?_⟩
    rw [SameMap, hentries]
    exact (perm_filter_iff (p := EntryFits) m.entries).mpr hall

/-- **String collections**: a vector comes back exactly when no string of it is empty, and a map
exactly when no key and no value of it is.  A `HashMap` is the list of its entries in the order it
iterates over them, so this is for every order.

What comes back of a collection is known for every collection (`decode_strings_kept`,
`decode_map_kept`): a selection of it.  A selection is the whole exactly when it leaves nothing
out. -/
theorem collections_iff [Allocator] [Allocator.Ample] (xs : List String) (m : HashMap String String)
    (hxs : xs.length < 2 ^ 32 ∧ ∀ s ∈ xs, Short s)
    (hm : m.len < 2 ^ 32 ∧ ∀ e ∈ m.entries, Short e.1 ∧ Short e.2) :
    (VecKept xs ↔ ∀ s ∈ xs, s ≠ "") ∧ (MapKept m ↔ ∀ e ∈ m.entries, e.1 ≠ "" ∧ e.2 ≠ "") :=
  ⟨vecKept_iff hxs.1 hxs.2, mapKept_iff hm.1 hm.2⟩

/-- A vector with an empty string and one without, and a map of one entry. -/
theorem collections_iff_sample : letI := Allocator.unbounded
    (VecKept ["", "orders-0"] ↔ ∀ s ∈ ["", "orders-0"], s ≠ "") ∧
      (MapKept (HashMap.empty.insert "name" "" rfl) ↔
        ∀ e ∈ (HashMap.empty.insert "name" "" rfl : HashMap String String).entries,
          e.1 ≠ "" ∧ e.2 ≠ "") :=
  letI := Allocator.unbounded
  collections_iff ["", "orders-0"] (HashMap.empty.insert "name" "" rfl)
    (by decide) (by decide)

/-- The vector of one empty string comes back as the empty vector, and the map from a key to the
empty string as the empty map. -/
theorem emptyString_lost : letI := Allocator.unbounded
    ((encode [""]).exec [] = (.ok (), [0, 0, 0, 1, 0, 0]) ∧
      (decode : DecodeM (List String)) [0, 0, 0, 1, 0, 0] = .ok ([], []) ∧ ¬ VecKept [""]) ∧
    ((encode (HashMap.empty.insert "k" "" rfl : HashMap String String)).exec [] =
        (.ok (), [0, 0, 0, 1, 0, 1, 107, 0, 0]) ∧
      (decode : DecodeM (HashMap String String)) [0, 0, 0, 1, 0, 1, 107, 0, 0] =
        .ok (HashMap.empty, []) ∧
      ¬ MapKept (HashMap.empty.insert "k" "" rfl)) := by
  let _ := Allocator.unbounded
  refine ⟨⟨by decide +kernel, by decide +kernel, ?_⟩, by decide +kernel, by decide +kernel, ?_⟩
  · rw [vecKept_iff (by decide) (by decide)]
    decide
  · rw [mapKept_iff (by decide) (by decide)]
    decide

/-! ## 5. The command that creates a super stream

A command in which skipping does more harm than a loss: the partitions and the keys are two
vectors that belong together by position. -/

def CreateSuperStreamCommand.bytes (c : CreateSuperStreamCommand) : Bytes :=
  toBE 4 c.correlationId.toNat ++ (stringBytes c.superStreamName ++
    (vecBytes stringBytes c.partitions ++ (vecBytes stringBytes c.bindingKeys ++
      vecBytes entryBytes c.args.entries)))

theorem exec_createSuperStream (c : CreateSuperStreamCommand) (buf : Bytes) :
    (encode c).exec buf = (.ok (), buf ++ c.bytes) := by
  show (do
    encode c.correlationId
    encode c.superStreamName
    encode c.partitions
    encode c.bindingKeys
    encode c.args : Writer).exec buf = _
  simp [WriteM.exec_bind, CreateSuperStreamCommand.bytes]

/-- The strings of the command are short, and its counts fit in a `u32`. -/
structure CreateSuperStreamCommand.Fits (c : CreateSuperStreamCommand) : Prop where
  name : Short c.superStreamName ∧ c.superStreamName ≠ ""
  partitions : c.partitions.length < 2 ^ 32 ∧ ∀ s ∈ c.partitions, Short s
  bindingKeys : c.bindingKeys.length < 2 ^ 32 ∧ ∀ s ∈ c.bindingKeys, Short s
  args : c.args.len < 2 ^ 32 ∧ ∀ e ∈ c.args.entries, Short e.1 ∧ Short e.2

/-- **The command as it is read**: the partitions and the binding keys have lost their empty
strings, each on its own, so what stood at one position of the two need not do so any more. -/
theorem createSuperStream_decode [Allocator] [Allocator.Ample] {c : CreateSuperStreamCommand}
    (h : c.Fits) (rest : Bytes) :
    ∃ args, (decode : DecodeM CreateSuperStreamCommand) (c.bytes ++ rest) =
        .ok ({ c with
          partitions := c.partitions.filter (fun s => s ≠ "")
          bindingKeys := c.bindingKeys.filter (fun s => s ≠ "")
          args := args }, rest) ∧
      args.entries = c.args.entries.filter EntryFits := by
  obtain ⟨args, hargs, hentries⟩ := decode_map_kept h.args.1 h.args.2 rest
  refine ⟨args, ?_, hentries⟩
  rw [CreateSuperStreamCommand.bytes]
  simp only [List.append_assoc]
  refine (Reader.bind_of_ok (readU32_append c.correlationId _)).trans ?_
  refine (Reader.bind_of_ok (decode_string h.name.1 _)).trans ?_
  refine (Reader.bind_of_ok (decode_strings_kept h.partitions.1 h.partitions.2 _)).trans ?_
  refine (Reader.bind_of_ok (decode_strings_kept h.bindingKeys.1 h.bindingKeys.2 _)).trans ?_
  refine (Reader.bind_of_ok hargs).trans ?_
  rw [if_neg h.name.2]
  rfl

end RabbitMqStream.Protocol
