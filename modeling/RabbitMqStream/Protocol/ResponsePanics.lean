/-
# Which response frames make the decoder panic

`Response::decode` follows the layout of the frame (`Frame.response_follows`), so it panics
exactly when the walk along the layout crashes.  There are four reasons for that in the command
layer, and all bytes they depend on come from the network:

* a string is longer than what is left of the input, or its length is negative: `split_at`;
* the count of a vector is negative: cast to `usize` it asks for more than the address space;
* the allocator does not grant a vector, a string map or the messages of a chunk the capacity that
  their count asks for, which is before any of their elements is read;
* a string that a record needs has the length 0: it is decoded as `None` and unwrapped, when the
  other fields of the record have been read.

A `Flaw` is one of these at a point the walk gets to.  The AMQP decoder of a delivered message is
not of this layer; what it makes of arbitrary bytes is in `Amqp/Panics.lean`.

* `crashes_iff`: a frame crashes by a flaw or in a delivered message, and by nothing else.
* `response_noPanic_iff`: a response is decoded without a panic exactly when it has no flaw.

**The argument.**  From left to right, a crash has to be traced back to the field that it comes
from.  The class `Explained` does this along the structure of the layout: a sequence crashes in
its first part, or in its second at the point to which the first has led, and a group in one of
its rounds.  What is left are the fields that can crash by themselves, and each of these has its
flaw.  From right to left, a walk that gets to a point at which the rest crashes is a walk that
crashes (`Layout.Reaches.crashes`).
-/
import RabbitMqStream.Protocol.ResponseLayout
import Mathlib.Data.List.Infix

namespace RabbitMqStream.Protocol.Frame

open Wire

/-! ## 1. How the fields crash

A string, a vector and a string map are taken apart at their length or count, and what they do
there is stated of the rest of the layout.  Numbers and response codes never crash by themselves. -/

/-- The length of a string, from its two bytes. -/
def stringLength (bs : Bytes) : Int16 := (UInt16.ofNat (ofBE bs)).toInt16

/-- The count of a vector, from its four bytes. -/
def vectorCount (bs : Bytes) : Int32 := (UInt32.ofNat (ofBE bs)).toInt32

/-- The count of a string map and the number of the records of a chunk, from their four bytes. -/
def elementCount (bs : Bytes) : ℕ := (UInt32.ofNat (ofBE bs)).toNat

/-- The body of a metadata update. -/
def metadataUpdate : Fields := .seq code (stringThen required)

/-- What follows the length of a string. -/
def stringTail (next : Option String → Fields) (len : Int16) : Fields :=
  if len = 0 then next none
  else .slice (asUsize16 len) fun body =>
    match fromUtf8 body with
    | some s => next (some s)
    | none => .reject

theorem stringThen_eq (next : Option String → Fields) :
    stringThen next = .field 2 fun bs => stringTail next (stringLength bs) := rfl

/-- How a string crashes: it reaches past the end, or what follows it crashes.  By the length: zero
is no string, one that reaches past the end crashes, and behind any other the bytes are cut out and
must be UTF-8. -/
theorem stringThen_crashes {next : Option String → Fields} {b : Bytes}
    (h : (stringThen next).Crashes b) :
    ∃ len content, b = len ++ content ∧ len.length = 2 ∧
      (stringLength len ≠ 0 ∧ content.length < asUsize16 (stringLength len) ∨
        stringLength len = 0 ∧ (next none).Crashes content ∧
          (stringThen next).Reaches b (next none) content ∨
        ∃ s rest, (next (some s)).Crashes rest ∧
          (stringThen next).Reaches b (next (some s)) rest) := by
  rw [Layout.Crashes, stringThen_eq, Layout.walk] at h
  split at h
  · exact absurd h (by simp [Walk.outcome])
  · rename_i hshort
    have htwo : 2 ≤ b.length := by omega
    refine ⟨b.take 2, b.drop 2, (List.take_append_drop 2 b).symm, by simp [htwo], ?_⟩
    have hnext : ∀ {l : Fields} {c : Bytes},
        (stringTail next (stringLength (b.take 2))).Reaches (b.drop 2) l c →
          (stringThen next).Reaches b l c := fun hr => .field htwo hr
    by_cases hzero : stringLength (b.take 2) = 0
    · rw [stringTail, if_pos hzero] at h hnext
      exact Or.inr (Or.inl ⟨hzero, h, hnext (.here _ _)⟩)
    · rw [stringTail, if_neg hzero] at h hnext
      rw [Layout.walk] at h
      split at h
      · rename_i hpast
        exact Or.inl ⟨hzero, hpast⟩
      · rename_i hfit
        cases hs : fromUtf8 ((b.drop 2).take (asUsize16 (stringLength (b.take 2)))) with
        | none =>
          simp only [hs] at h
          exact absurd h (by simp [Layout.walk, Walk.outcome])
        | some s =>
          simp only [hs] at h
          refine Or.inr (Or.inr ⟨s, _, h, hnext (.slice (Nat.le_of_not_lt hfit) ?_)⟩)
          simp only [hs]
          exact .here _ _

/-- A string of length 0. -/
theorem stringThen_walk_absent {next : Option String → Fields} {len : Bytes} (hlen : len.length = 2)
    (hzero : stringLength len = 0) (content : Bytes) :
    (stringThen next).walk (len ++ content) = (next none).walk content := by
  rw [stringThen_eq, Layout.walk_field_append hlen, stringTail, if_pos hzero]

theorem number_walk {n : ℕ} {bs : Bytes} (h : bs.length = n) (rest : Bytes) :
    (number n).walk (bs ++ rest) = .whole rest := Layout.walk_field_append h rest

theorem number_walk_cases (n : ℕ) (b : Bytes) : (number n).walk b = .short ∨
    ∃ bs rest, b = bs ++ rest ∧ bs.length = n ∧ (number n).walk b = .whole rest := by
  rcases Nat.lt_or_ge b.length n with hlt | hge
  · exact Or.inl (by rw [number, Layout.walk, if_pos hlt])
  · have hlen : (b.take n).length = n := by rw [List.length_take, Nat.min_eq_left hge]
    have hw := number_walk hlen (b.drop n)
    rw [List.take_append_drop] at hw
    exact Or.inr ⟨b.take n, b.drop n, (List.take_append_drop n b).symm, hlen, hw⟩

/-- What follows a number crashes where the whole does. -/
theorem number_seq_crashes {n : ℕ} {l : Fields} {b : Bytes}
    (h : (Layout.seq (number n) l).Crashes b) :
    ∃ bs content, b = bs ++ content ∧ bs.length = n ∧ l.Crashes content ∧
      (number n).walk b = .whole content := by
  rcases number_walk_cases n b with hshort | ⟨bs, content, rfl, hlen, hw⟩
  · rw [Layout.Crashes, Layout.walk, hshort] at h
    exact absurd h (by simp [Walk.outcome])
  · rw [Layout.Crashes, Layout.walk_seq_of_whole hw] at h
    exact ⟨bs, content, rfl, hlen, h, hw⟩

/-- What follows some numbers crashes where the whole does. -/
theorem numbers_crashes {l : Fields} : ∀ {widths : List ℕ} {b : Bytes},
    (numbers widths l).Crashes b → ∃ front content, b = front ++ content ∧
      front.length = widths.sum ∧ l.Crashes content ∧ (numbers widths l).Reaches b l content := by
  intro widths
  induction widths with
  | nil =>
    intro b h
    exact ⟨[], b, rfl, rfl, h, .here _ _⟩
  | cons width widths ih =>
    intro b h
    obtain ⟨bs, mid, rfl, hlen, hmid, hw⟩ := number_seq_crashes h
    obtain ⟨front, content, rfl, hfront, hc, hr⟩ := ih hmid
    refine ⟨bs ++ front, content, (List.append_assoc ..).symm, ?_, hc, .second hw hr⟩
    rw [List.length_append, hlen, hfront, List.sum_cons]

theorem numbers_walk {l : Fields} : ∀ {widths : List ℕ} {front : Bytes} (content : Bytes),
    front.length = widths.sum → (numbers widths l).walk (front ++ content) = l.walk content := by
  intro widths
  induction widths with
  | nil =>
    intro front content hlen
    rw [List.eq_nil_of_length_eq_zero hlen]
    rfl
  | cons width widths ih =>
    intro front content hlen
    rw [List.sum_cons] at hlen
    have hwidth : (front.take width).length = width := by
      rw [List.length_take]
      omega
    have hw := number_walk hwidth (front.drop width ++ content)
    rw [← List.append_assoc, List.take_append_drop] at hw
    rw [numbers, Layout.walk_seq_of_whole hw, ih content (by rw [List.length_drop]; omega)]

/-- A response code is one of those there are, or ends the walk without a crash. -/
theorem code_walk_cases (b : Bytes) : ¬ code.Crashes b ∧ ∀ rest, code.walk b = .whole rest →
    ∃ bs, b = bs ++ rest ∧ bs.length = 2 ∧
      (ResponseCode.ofU16 (UInt16.ofNat (ofBE bs))).isSome := by
  rw [Layout.Crashes, code, codeThen, Layout.walk]
  split
  · exact ⟨by simp [Walk.outcome], by simp⟩
  · rename_i hshort
    cases hcode : ResponseCode.ofU16 (UInt16.ofNat (ofBE (b.take 2))) with
    | none =>
      exact ⟨by simp [Layout.walk, Walk.outcome], by simp [Layout.walk]⟩
    | some c =>
      refine ⟨by simp [Layout.walk, Walk.outcome], fun rest hw => ?_⟩
      simp only [Layout.walk, Walk.whole.injEq] at hw
      subst hw
      exact ⟨b.take 2, (List.take_append_drop 2 b).symm, by rw [List.length_take]; omega,
        by rw [hcode]; rfl⟩

theorem code_walk {bs : Bytes} (hlen : bs.length = 2)
    (hknown : (ResponseCode.ofU16 (UInt16.ofNat (ofBE bs))).isSome) (rest : Bytes) :
    code.walk (bs ++ rest) = .whole rest := by
  obtain ⟨c, hc⟩ := Option.isSome_iff_exists.mp hknown
  rw [code, codeThen, Layout.walk_field_append hlen, hc]
  rfl

section Allocation

variable [Allocator]

/-- What follows the count of a vector. -/
def vectorTail (α : Type) (next : ℕ → Fields) (count : Int32) : Fields :=
  if count < 0 then .crash else granted (List α) (asUsize32 count) (next (asUsize32 count))

theorem allocated_eq (α : Type) (next : ℕ → Fields) :
    allocated α next = .field 4 fun bs => vectorTail α next (vectorCount bs) := rfl

/-- How a vector crashes: by a negative count, for want of memory, or in its elements. -/
theorem allocated_crashes {α : Type} {next : ℕ → Fields} {b : Bytes}
    (h : (allocated α next).Crashes b) :
    ∃ count content, b = count ++ content ∧ count.length = 4 ∧
      (vectorCount count < 0 ∨ ¬ vectorCount count < 0 ∧
        (¬ Allocator.grants (List α) (asUsize32 (vectorCount count)) ∨
          (next (asUsize32 (vectorCount count))).Crashes content ∧
          (allocated α next).Reaches b (next (asUsize32 (vectorCount count))) content)) := by
  rw [Layout.Crashes, allocated_eq, Layout.walk] at h
  split at h
  · exact absurd h (by simp [Walk.outcome])
  · rename_i hshort
    have hfour : 4 ≤ b.length := by omega
    refine ⟨b.take 4, b.drop 4, (List.take_append_drop 4 b).symm, by simp [hfour], ?_⟩
    have hnext : ∀ {l : Fields} {c : Bytes},
        (vectorTail α next (vectorCount (b.take 4))).Reaches (b.drop 4) l c →
          (allocated α next).Reaches b l c := fun hr => .field hfour hr
    by_cases hneg : vectorCount (b.take 4) < 0
    · exact Or.inl hneg
    · refine Or.inr ⟨hneg, ?_⟩
      by_cases hgrants : Allocator.grants (List α) (asUsize32 (vectorCount (b.take 4)))
      · rw [vectorTail, if_neg hneg, granted, if_pos hgrants] at h hnext
        exact Or.inr ⟨h, hnext (.here _ _)⟩
      · exact Or.inl hgrants

/-- The entries of a string map, when there is memory for them. -/
def mapTail (count : ℕ) : Fields :=
  granted (HashMap String String) count (.repeated count (.seq string string))

theorem stringMap_eq : stringMap = .field 4 fun bs => mapTail (elementCount bs) := rfl

/-- The fields of a stream's metadata behind its name, as far as the record is read before the
name is unwrapped. -/
theorem unnamed_crashes {content : Bytes}
    (h : (Layout.seq code (.seq (number 2) (.seq (vector UInt16 (number 2)) .crash))).Crashes
      content) :
    (∃ rest, (Layout.seq code (.seq (number 2) (vector UInt16 (number 2)))).walk content =
        .whole rest) ∨
      ∃ content', (vector UInt16 (number 2)).Crashes content' ∧
        (Layout.seq code (.seq (number 2) (.seq (vector UInt16 (number 2)) .crash))).Reaches content
          (vector UInt16 (number 2)) content' := by
  rcases h.seq with hc | ⟨mid, hcode, hc⟩
  · exact absurd hc (code_walk_cases content).1
  · obtain ⟨bs, mid', -, -, hc', hnumber⟩ := number_seq_crashes hc
    rcases hc'.seq with hvec | ⟨rest, hvec, -⟩
    · exact Or.inr ⟨mid', hvec, .second hcode (.second hnumber (.first (.here _ _)))⟩
    · refine Or.inl ⟨rest, ?_⟩
      rw [Layout.walk_seq_of_whole hcode, Layout.walk_seq_of_whole hnumber, hvec]

end Allocation

/-! ## 2. Flaws

A flaw is a point in the frame and what is wrong there.  `Explained` is the class of the layouts
that crash by a flaw or inside a delivered message only, and it is closed under putting layouts
together. -/

section Chrono

variable [Amqp.Chrono] [Allocator]

/-- What makes the command layer panic, at a point the walk along `l` from `b` gets to. -/
inductive Flaw (l : Fields) (b : Bytes) : Prop where
  /-- A string reaches past the end of the input. -/
  | stringPastEnd {next : Option String → Fields} {len content : Bytes}
      (hat : l.Reaches b (stringThen next) (len ++ content)) (hlen : len.length = 2)
      (hne : stringLength len ≠ 0) (hpast : content.length < asUsize16 (stringLength len))
  /-- A vector has a negative count. -/
  | negativeCount {α : Type} {next : ℕ → Fields} {count content : Bytes}
      (hat : l.Reaches b (allocated α next) (count ++ content)) (hcount : count.length = 4)
      (hneg : vectorCount count < 0)
  /-- There is no memory for a vector of so many elements. -/
  | vectorRefused {α : Type} {next : ℕ → Fields} {count content : Bytes}
      (hat : l.Reaches b (allocated α next) (count ++ content)) (hcount : count.length = 4)
      (hpos : ¬ vectorCount count < 0)
      (hrefused : ¬ Allocator.grants (List α) (asUsize32 (vectorCount count)))
  /-- There is no memory for a string map of so many entries. -/
  | mapRefused {count content : Bytes} (hat : l.Reaches b stringMap (count ++ content))
      (hcount : count.length = 4)
      (hrefused : ¬ Allocator.grants (HashMap String String) (elementCount count))
  /-- There is no memory for the messages of a chunk of so many records. -/
  | recordsRefused {numRecords header content : Bytes}
      (hat : l.Reaches b chunk (numRecords ++ (header ++ content)))
      (hcount : numRecords.length = 4) (hheader : header.length = 40)
      (hrefused : ¬ Allocator.grants (List Message) (elementCount numRecords))
  /-- A broker has no host. -/
  | absentHost {reference host port content : Bytes}
      (hat : l.Reaches b broker (reference ++ (host ++ (port ++ content))))
      (hreference : reference.length = 2) (hlen : host.length = 2) (hport : port.length = 4)
      (hhost : stringLength host = 0)
  /-- The metadata of a stream have no stream name. -/
  | absentStreamName {name content rest : Bytes}
      (hat : l.Reaches b streamMetadata (name ++ content)) (hlen : name.length = 2)
      (hname : stringLength name = 0)
      (hrest : (Layout.seq code (.seq (number 2) (vector UInt16 (number 2)))).walk content =
        .whole rest)
  /-- A metadata update has no stream. -/
  | absentStream {code stream content : Bytes}
      (hat : l.Reaches b metadataUpdate (code ++ (stream ++ content))) (hcode : code.length = 2)
      (hknown : (ResponseCode.ofU16 (UInt16.ofNat (ofBE code))).isSome)
      (hlen : stream.length = 2) (hstream : stringLength stream = 0)

/-- The walk gets to the bytes of a message that make the AMQP decoder panic. -/
def Embedded (l : Fields) (b : Bytes) : Prop :=
  ∃ count body content, l.Reaches b record (count ++ (body ++ content)) ∧
    count.length = 4 ∧ ¬ vectorCount count < 0 ∧ body.length = asUsize32 (vectorCount count) ∧
    ∃ p, Message.decode body = .error (.panic p)

/-- Every crash of the layout is a flaw or a panic of the AMQP decoder.  A class, so that
instance search derives it along the structure of a layout. -/
class Explained (l : Fields) : Prop where
  explained : ∀ b, l.Crashes b → Flaw l b ∨ Embedded l b

theorem Flaw.lift {l l' : Fields} {b b' : Bytes} (hr : l.Reaches b l' b') (h : Flaw l' b') :
    Flaw l b := by
  cases h with
  | stringPastEnd hat hlen hne hpast => exact .stringPastEnd (hr.trans hat) hlen hne hpast
  | negativeCount hat hcount hneg => exact .negativeCount (hr.trans hat) hcount hneg
  | vectorRefused hat hcount hpos hrefused =>
    exact .vectorRefused (hr.trans hat) hcount hpos hrefused
  | mapRefused hat hcount hrefused => exact .mapRefused (hr.trans hat) hcount hrefused
  | recordsRefused hat hcount hheader hrefused =>
    exact .recordsRefused (hr.trans hat) hcount hheader hrefused
  | absentHost hat hreference hlen hport hhost =>
    exact .absentHost (hr.trans hat) hreference hlen hport hhost
  | absentStreamName hat hlen hname hrest =>
    exact .absentStreamName (hr.trans hat) hlen hname hrest
  | absentStream hat hcode hknown hlen hstream =>
    exact .absentStream (hr.trans hat) hcode hknown hlen hstream

theorem Explained.lift {l l' : Fields} {b b' : Bytes} (h : Explained l') (hr : l.Reaches b l' b')
    (hc : l'.Crashes b') : Flaw l b ∨ Embedded l b := by
  rcases h.explained b' hc with hflaw | ⟨count, body, content, hat, hp⟩
  · exact Or.inl (hflaw.lift hr)
  · exact Or.inr ⟨count, body, content, hr.trans hat, hp⟩

instance : Explained .empty := ⟨fun b h => by simp [Layout.Crashes, Layout.walk, Walk.outcome] at h⟩

instance : Explained .reject :=
  ⟨fun b h => by simp [Layout.Crashes, Layout.walk, Walk.outcome] at h⟩

instance (n : ℕ) (next : Bytes → Fields) [hn : ∀ bs, Explained (next bs)] :
    Explained (.field n next) := by
  refine ⟨fun b h => ?_⟩
  rw [Layout.Crashes, Layout.walk] at h
  split at h
  · exact absurd h (by simp [Walk.outcome])
  · exact (hn _).lift (.field (by omega) (.here _ _)) h

instance (first second : Fields) [h1 : Explained first] [h2 : Explained second] :
    Explained (.seq first second) := by
  refine ⟨fun b h => ?_⟩
  rcases h.seq with hc | ⟨mid, hw, hc⟩
  · exact h1.lift (.first (.here _ _)) hc
  · exact h2.lift (.second hw (.here _ _)) hc

instance (n : ℕ) (item : Fields) [hi : Explained item] : Explained (.repeated n item) := by
  refine ⟨fun b h => ?_⟩
  rw [Layout.Crashes, Layout.walk] at h
  have hstop : ∀ rest, Walk.times item.walk n b ≠ .whole rest := by
    intro rest hw
    rw [hw] at h
    exact absurd h (by simp [Walk.outcome])
  obtain ⟨k, mid, hk, hw, hitem⟩ := Walk.times_eq_stop hstop rfl
  rw [← hitem] at h
  exact hi.lift (.item hk hw (.here _ _)) h

instance (l : Fields) (ls : List Fields) [Explained l] [Explained (.record ls)] :
    Explained (.record (l :: ls)) := inferInstanceAs (Explained (.seq _ _))

instance : Explained (.record []) := inferInstanceAs (Explained .empty)

instance (n : ℕ) : Explained (number n) := inferInstanceAs (Explained (.field n _))

instance (next : ResponseCode → Fields) [hn : ∀ c, Explained (next c)] :
    Explained (codeThen next) := by
  have : ∀ bs : Bytes, Explained (match ResponseCode.ofU16 (UInt16.ofNat (ofBE bs)) with
      | some c => next c
      | none => .reject) := by
    intro bs
    split <;> infer_instance
  exact inferInstanceAs (Explained (.field 2 _))

instance : Explained code := inferInstanceAs (Explained (codeThen _))

/-! ## 3. Strings and vectors

What can crash by itself has an instance of its own, whose proof names the flaw. -/

instance (next : Option String → Fields) [hn : ∀ o, Explained (next o)] :
    Explained (stringThen next) := by
  refine ⟨fun b h => ?_⟩
  obtain ⟨len, content, rfl, hlen, hcase⟩ := stringThen_crashes h
  rcases hcase with ⟨hne, hpast⟩ | ⟨-, hc, hr⟩ | ⟨s, rest, hc, hr⟩
  · exact Or.inl (.stringPastEnd (.here _ _) hlen hne hpast)
  · exact (hn none).lift hr hc
  · exact (hn (some s)).lift hr hc

instance : Explained string := inferInstanceAs (Explained (stringThen _))

instance (α : Type) (next : ℕ → Fields) [hn : ∀ n, Explained (next n)] :
    Explained (allocated α next) := by
  refine ⟨fun b h => ?_⟩
  obtain ⟨count, content, rfl, hcount, hneg | ⟨hpos, hrefused | ⟨hc, hr⟩⟩⟩ := allocated_crashes h
  · exact Or.inl (.negativeCount (.here _ _) hcount hneg)
  · exact Or.inl (.vectorRefused (.here _ _) hcount hpos hrefused)
  · exact (hn _).lift hr hc

instance (α : Type) (item : Fields) [Explained item] : Explained (vector α item) :=
  inferInstanceAs (Explained (allocated α _))

instance (item : Fields) [Explained item] : Explained (counted item) :=
  inferInstanceAs (Explained (.field 4 _))

instance : Explained strings := inferInstanceAs (Explained (counted _))

instance : Explained stringMap := by
  refine ⟨fun b h => ?_⟩
  rw [Layout.Crashes, stringMap_eq, Layout.walk] at h
  split at h
  · exact absurd h (by simp [Walk.outcome])
  · rename_i hshort
    have hfour : (b.take 4).length = 4 := by
      rw [List.length_take]
      omega
    have hat : stringMap.Reaches b stringMap (b.take 4 ++ b.drop 4) := by
      rw [List.take_append_drop]
      exact .here _ _
    by_cases hgrants : Allocator.grants (HashMap String String) (elementCount (b.take 4))
    · have hr : stringMap.Reaches b (mapTail (elementCount (b.take 4))) (b.drop 4) :=
        .field (by omega) (.here _ _)
      rw [mapTail, granted, if_pos hgrants] at h hr
      exact Explained.lift inferInstance hr h
    · exact Or.inl (.mapRefused hat hfour hgrants)

/-! ## 4. Records with a required string

An absent string crashes the record at its end, so the flaw is at the string and the crash is
behind the fields that follow it.  If one of these crashes first, then that is the flaw. -/

instance : Explained broker := by
  refine ⟨fun b h => ?_⟩
  obtain ⟨reference, content, rfl, hreference, hc, hw⟩ := number_seq_crashes h
  have hr := Layout.Reaches.second hw (.here (stringThen fun host =>
    .seq (number 4) (required host)) content)
  obtain ⟨host, content', rfl, hlen, hcase⟩ := stringThen_crashes hc
  rcases hcase with ⟨hne, hpast⟩ | ⟨hzero, hc', -⟩ | ⟨s, rest, hc', hr'⟩
  · exact Or.inl (.stringPastEnd hr hlen hne hpast)
  · obtain ⟨port, content'', rfl, hport, -, -⟩ := number_seq_crashes hc'
    exact Or.inl (.absentHost (.here _ _) hreference hlen hport hzero)
  · have : Explained (required (some s)) := inferInstanceAs (Explained .empty)
    have hrest : Explained (.seq (number 4) (required (some s))) := inferInstance
    exact hrest.lift (hr.trans hr') hc'

instance : Explained streamMetadata := by
  refine ⟨fun b h => ?_⟩
  obtain ⟨name, content, rfl, hlen, hcase⟩ := stringThen_crashes h
  rcases hcase with ⟨hne, hpast⟩ | ⟨hzero, hc, hr⟩ | ⟨s, rest, hc, hr⟩
  · exact Or.inl (.stringPastEnd (.here _ _) hlen hne hpast)
  · rcases unnamed_crashes hc with ⟨rest, hrest⟩ | ⟨content', hc', hr'⟩
    · exact Or.inl (.absentStreamName (.here _ _) hlen hzero hrest)
    · exact Explained.lift inferInstance (hr.trans hr') hc'
  · have : Explained (required (some s)) := inferInstanceAs (Explained .empty)
    exact Explained.lift inferInstance hr hc

instance : Explained metadataUpdate := by
  refine ⟨fun b h => ?_⟩
  rcases h.seq with hc | ⟨mid, hw, hc⟩
  · exact absurd hc (code_walk_cases b).1
  · obtain ⟨bs, rfl, hcode, hknown⟩ := (code_walk_cases b).2 mid hw
    obtain ⟨stream, content, rfl, hlen, hcase⟩ := stringThen_crashes hc
    rcases hcase with ⟨hne, hpast⟩ | ⟨hzero, -, -⟩ | ⟨s, rest, hc', -⟩
    · exact Or.inl (.stringPastEnd (.second hw (.here _ _)) hlen hne hpast)
    · exact Or.inl (.absentStream (.here _ _) hcode hknown hlen hzero)
    · exact absurd hc' (by simp [required, Layout.Crashes, Layout.walk, Walk.outcome])

/-! ## 5. Delivered messages, bodies and frames

The chunk has its count in front of the rest of its header, so a capacity that is not granted
shows behind all of that.  The bodies are put together by instance search. -/

instance : Explained record := by
  refine ⟨fun b h => ?_⟩
  obtain ⟨count, content, rfl, hcount, hneg | ⟨hpos, hrefused | ⟨hc, -⟩⟩⟩ := allocated_crashes h
  · exact Or.inl (.negativeCount (.here _ _) hcount hneg)
  · exact Or.inl (.vectorRefused (.here _ _) hcount hpos hrefused)
  · rw [Layout.Crashes, Layout.walk] at hc
    split at hc
    · exact absurd hc (by simp [Walk.outcome])
    · rename_i hshort
      have hbody : (content.take (asUsize32 (vectorCount count))).length =
          asUsize32 (vectorCount count) := by
        rw [List.length_take]
        omega
      refine Or.inr ⟨count, content.take (asUsize32 (vectorCount count)),
        content.drop (asUsize32 (vectorCount count)), ?_, hcount, hpos, hbody, ?_⟩
      · rw [List.take_append_drop]
        exact .here _ _
      · generalize content.take (asUsize32 (vectorCount count)) = body at hc
        split at hc
        · exact absurd hc (by simp [Layout.walk, Walk.outcome])
        · exact absurd hc (by simp [Layout.walk, Walk.outcome])
        · exact absurd hc (by simp [Layout.walk, Walk.outcome])
        · rename_i p hp
          exact ⟨p, hp⟩

instance : Explained chunk := by
  refine ⟨fun b h => ?_⟩
  rw [Layout.Crashes, chunk, Layout.walk] at h
  split at h
  · exact absurd h (by simp [Walk.outcome])
  · rename_i hshort
    have hfour : (b.take 4).length = 4 := by
      rw [List.length_take]
      omega
    obtain ⟨header, content, hb, hheader, hc, hr⟩ := numbers_crashes h
    have hr' : chunk.Reaches b (records (elementCount (b.take 4))) content :=
      .field (by omega) hr
    by_cases hgrants : Allocator.grants (List Message) (elementCount (b.take 4))
    · rw [records, granted, if_pos hgrants] at hr'
      rw [← elementCount, records, granted, if_pos hgrants] at hc
      exact Explained.lift inferInstance hr' hc
    · have hat : chunk.Reaches b chunk (b.take 4 ++ (header ++ content)) := by
        rw [← hb, List.take_append_drop]
        exact .here _ _
      exact Or.inl (.recordsRefused hat hfour hheader hgrants)

instance : Explained deliver := by
  refine ⟨fun b h => ?_⟩
  obtain ⟨front, content, rfl, -, hc, hr⟩ := numbers_crashes h
  exact Explained.lift inferInstance hr hc

instance (c : Prop) [Decidable c] (l l' : Fields) [Explained l] [Explained l'] :
    Explained (if c then l else l') := by
  split <;> infer_instance

instance (key : UInt16) : Explained (body key) := by
  unfold body
  split
  case h_19 => exact inferInstanceAs (Explained metadataUpdate)
  all_goals infer_instance

instance : Explained headerAndBody := inferInstanceAs (Explained (.field 2 _))

instance : Explained layout := inferInstanceAs (Explained (.seq _ _))

/-! ## 6. Panics

The converse, flaw by flaw, and both directions together for a frame. -/

/-- A flaw makes the walk crash.  By cases on the flaw: the walk reaches the field
(`Layout.Reaches.crashes`), and crashes in it. -/
theorem Flaw.crashes {l : Fields} {b : Bytes} (h : Flaw l b) : l.Crashes b := by
  cases h with
  | stringPastEnd hat hlen hne hpast =>
    refine hat.crashes ?_
    rw [Layout.Crashes, stringThen_eq, Layout.walk_field_append hlen, stringTail, if_neg hne,
      Layout.walk, if_pos hpast]
    rfl
  | negativeCount hat hcount hneg =>
    refine hat.crashes ?_
    rw [Layout.Crashes, allocated_eq, Layout.walk_field_append hcount, vectorTail, if_pos hneg]
    rfl
  | vectorRefused hat hcount hpos hrefused =>
    refine hat.crashes ?_
    rw [Layout.Crashes, allocated_eq, Layout.walk_field_append hcount, vectorTail, if_neg hpos,
      granted, if_neg hrefused]
    rfl
  | mapRefused hat hcount hrefused =>
    refine hat.crashes ?_
    rw [Layout.Crashes, stringMap_eq, Layout.walk_field_append hcount, mapTail, granted,
      if_neg hrefused]
    rfl
  | recordsRefused hat hcount hheader hrefused =>
    refine hat.crashes ?_
    rw [Layout.Crashes, chunk, Layout.walk_field_append hcount, numbers_walk _ hheader,
      ← elementCount, records, granted, if_neg hrefused]
    rfl
  | absentHost hat hreference hlen hport hhost =>
    refine hat.crashes ?_
    rw [Layout.Crashes, broker, Layout.walk_seq_of_whole (number_walk hreference _),
      stringThen_walk_absent hlen hhost, Layout.walk_seq_of_whole (number_walk hport _)]
    rfl
  | absentStreamName hat hlen hname hrest =>
    refine hat.crashes ?_
    obtain ⟨mid, hcode, h1⟩ := Layout.walk_seq_eq_whole hrest
    obtain ⟨mid', hnumber, hvec⟩ := Layout.walk_seq_eq_whole h1
    rw [Layout.Crashes, streamMetadata, stringThen_walk_absent hlen hname,
      Layout.walk_seq_of_whole hcode, Layout.walk_seq_of_whole hnumber,
      Layout.walk_seq_of_whole hvec]
    rfl
  | absentStream hat hcode hknown hlen hstream =>
    refine hat.crashes ?_
    rw [Layout.Crashes, metadataUpdate, Layout.walk_seq_of_whole (code_walk hcode hknown _),
      stringThen_walk_absent hlen hstream]
    rfl

theorem Embedded.crashes {l : Fields} {b : Bytes} (h : Embedded l b) : l.Crashes b := by
  obtain ⟨count, body, content, hat, hcount, hpos, hbody, p, hp⟩ := h
  refine hat.crashes ?_
  rw [Layout.Crashes, record, allocated_eq, Layout.walk_field_append hcount, vectorTail,
    if_neg hpos, granted]
  split
  · rw [Layout.walk_field_append hbody, hp]
    rfl
  · rfl

/-- **A frame crashes by a flaw or in a delivered message**, and by nothing else. -/
theorem crashes_iff (b : Bytes) : layout.Crashes b ↔ Flaw layout b ∨ Embedded layout b := by
  refine ⟨Explained.explained b, ?_⟩
  rintro (h | h)
  · exact h.crashes
  · exact h.crashes

theorem panics_iff_crashes (b : Bytes) :
    Panics (decode : DecodeM Response) b ↔ layout.Crashes b := by
  rw [Layout.Crashes, ← response_follows.agrees b]
  constructor
  · rintro ⟨p, hp⟩
    rw [hp]
    rfl
  · intro h
    cases hr : (decode : DecodeM Response) b with
    | ok x => rw [hr] at h; exact absurd h (by simp [outcome])
    | error e =>
      rw [hr] at h
      cases e with
      | panic p => exact ⟨p, hr⟩
      | error e => cases e <;> exact absurd h (by simp [outcome, stopOf])

/-- A delivered message is a part of the frame. -/
theorem Embedded.part {b : Bytes} (h : Embedded layout b) :
    ∃ body p, body <:+: b ∧ Message.decode body = .error (.panic p) := by
  obtain ⟨count, body, content, hat, -, -, -, p, hp⟩ := h
  refine ⟨body, p, List.IsInfix.trans ?_ hat.suffix.isInfix, hp⟩
  exact ⟨count, content, by rw [List.append_assoc]⟩

/-- **A response is decoded without a panic exactly when it has no flaw**, when no part of the
frame makes the AMQP decoder panic.

A panic is a crash of the walk, and a crash has a flaw or comes from a delivered message
(`crashes_iff`).  The message is a part of the frame, so that it does not panic is what has been
assumed. -/
theorem response_noPanic_iff (b : Bytes)
    (hamqp : ∀ body, body <:+: b → ∀ p, Message.decode body ≠ .error (.panic p)) :
    (∀ p, (decode : DecodeM Response) b ≠ .error (.panic p)) ↔ ¬ Flaw layout b := by
  constructor
  · intro hno hflaw
    obtain ⟨p, hp⟩ := (panics_iff_crashes b).mpr hflaw.crashes
    exact hno p hp
  · intro hno p hp
    rcases (crashes_iff b).mp ((panics_iff_crashes b).mp ⟨p, hp⟩) with hflaw | hemb
    · exact hno hflaw
    · obtain ⟨body, q, hinfix, hq⟩ := hemb.part
      exact hamqp body hinfix q hq

end Chrono

/-- A metadata update for the stream `s`. -/
def updateFrame : Bytes := [0, 0, 0, 9, 0, 16, 0, 1, 0, 6, 0, 1, 0x73]

/-- The rule at a metadata update. -/
theorem response_noPanic_iff_update :
    letI := Amqp.Chrono.range; letI := Allocator.unbounded
    (∀ p, (decode : DecodeM Response) updateFrame ≠ .error (.panic p)) ∧
      ¬ Flaw layout updateFrame := by
  let _ := Amqp.Chrono.range
  let _ := Allocator.unbounded
  have hamqp : ∀ body, body <:+: updateFrame → ∀ p, Message.decode body ≠ .error (.panic p) := by
    -- a frame has finitely many parts
    have hall : ∀ t ∈ updateFrame.tails, ∀ body ∈ t.inits,
        (match Message.decode body with | .error (.panic _) => true | _ => false) = false := by
      decide +kernel
    intro body hbody p hp
    obtain ⟨t, hpre, hsuf⟩ := List.infix_iff_prefix_suffix.mp hbody
    have h := hall t ((List.mem_tails _ _).mpr hsuf) body ((List.mem_inits _ _).mpr hpre)
    rw [hp] at h
    exact absurd h (by simp)
  have hread : ∀ p, (decode : DecodeM Response) updateFrame ≠ .error (.panic p) := by
    intro p
    rw [show (decode : DecodeM Response) updateFrame = .ok _ from rfl]
    exact nofun
  exact ⟨hread, (response_noPanic_iff updateFrame hamqp).mp hread⟩

/-- A string past the end of the input, an empty stream name and a negative count, with all the
memory there may be; and the peer properties and the chunk that ask for `u32::MAX` elements, where
the allocator grants a million. -/
theorem flawed_frames_panic :
    letI := Amqp.Chrono.range
    (letI : Allocator := .unbounded;
      (decode : DecodeM Response) [0, 0, 0, 8, 0, 16, 0, 1, 0, 6, 0, 5] =
          .error (.panic .splitAtOutOfRange) ∧
        (decode : DecodeM Response) [0, 0, 0, 8, 0, 16, 0, 1, 0, 6, 0, 0] =
          .error (.panic .unwrapNone) ∧
        (decode : DecodeM Response) [0, 0, 0, 9, 0, 3, 0, 1, 7, 0xff, 0xff, 0xff, 0xff] =
          .error (.panic .capacityOverflow)) ∧
      letI : Allocator := .upTo 1000000;
      (decode : DecodeM Response)
          [0, 0, 0, 14, 0x80, 17, 0, 1, 0, 0, 0, 0, 0, 1, 0xff, 0xff, 0xff, 0xff] =
          .error (.panic .allocationRefused) ∧
        (decode : DecodeM Response)
          ([0, 0, 0, 53, 0, 8, 0, 1, 1, 80, 0, 0, 1, 0xff, 0xff, 0xff, 0xff] ++
            List.replicate 40 0) =
          .error (.panic .allocationRefused) :=
  ⟨⟨rfl, rfl, rfl⟩, by decide +kernel, by decide +kernel⟩

end RabbitMqStream.Protocol.Frame
