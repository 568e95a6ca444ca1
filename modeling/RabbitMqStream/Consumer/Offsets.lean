/-
# The offsets of the messages of a chunk

The broker says the offset of the first message of a chunk; the offset of every other message is
its place in the chunk.  The handler filters first and counts then, so behind a message that the
client filter drops it counts too low.  A start offset is compared with the same count, so behind
a dropped message it also skips messages that it should deliver.

* `deliveries_eq_iff`: the handler delivers exactly the messages that it should, with their true
  offsets, when no message to be delivered stands behind one that the filter drops, and only
  then.
* `deliveries_filtered_offset`: a chunk of two messages, the first of which is dropped.

**The argument.**  The handler's loop and the list of what should be delivered are followed side
by side, from any place in the chunk.  As long as nothing was dropped the two counts are the same.
Behind the first dropped message the handler's count is too low and stays so, and from there on
every message that is to be delivered is delivered with a wrong offset or not at all
(`deliverLoop_eq_iff_of_lt`).  A count that is too low can only skip too much, never too little,
and this is why what is delivered is always a part of what should be (`deliverLoop_sublist`).
-/
import RabbitMqStream.Consumer.Model

namespace RabbitMqStream.Consumer

open Protocol

/-! ## 1. What should be delivered

The messages with their places in the chunk, of which the filter and the start let some through.
There is no count in this definition: the offset of a message is that of the first one and its
place. -/

namespace ConsumerInternal

/-- The client filter lets the message through. -/
def passes (c : ConsumerInternal) (m : Message) : Bool :=
  match c.filterConfiguration with
  | some ⟨_, some f, _⟩ => f m
  | _ => true

/-- The offset is not in front of the start offset. -/
def fromStart (c : ConsumerInternal) (offset : ℕ) : Bool :=
  match c.offsetSpecification with
  | .offset o => o.toNat ≤ offset
  | _ => true

/-- The messages that the filter lets through and that are not in front of the start, each with
its true offset, when the first one has the offset `first`. -/
def expectedFrom (c : ConsumerInternal) (first : ℕ) (messages : List Message) : List Delivery :=
  (messages.zipIdx first).filterMap fun x =>
    if c.passes x.1 && c.fromStart x.2 then some (c.delivery x.1 (UInt64.ofNat x.2)) else none

def expected (c : ConsumerInternal) (d : DeliverCommand) : List Delivery :=
  c.expectedFrom d.chunkFirstOffset.toNat d.messages

/-! ## 2. The handler, one message at a time

The loop and the list of what should be delivered, as equations on the head of the chunk:
dropped by the filter, in front of the start, or delivered. -/

variable (c : ConsumerInternal)

theorem filterMessages_eq (messages : List Message) :
    c.filterMessages messages = messages.filter c.passes := by
  have hall : messages.filter (fun _ => true) = messages := List.filter_eq_self.mpr (by simp)
  unfold filterMessages passes
  cases c.filterConfiguration with
  | none => exact hall.symm
  | some filterInput =>
    cases hp : filterInput.predicate with
    | none =>
      obtain ⟨values, predicate, unfiltered⟩ := filterInput
      simp only at hp
      subst hp
      exact hall.symm
    | some f =>
      obtain ⟨values, predicate, unfiltered⟩ := filterInput
      simp only at hp
      subst hp
      rfl

theorem skips_eq (offset : UInt64) : c.skips offset = !c.fromStart offset.toNat := by
  unfold skips fromStart
  cases c.offsetSpecification with
  | offset o =>
    rw [← decide_not, decide_eq_decide, Nat.not_le]
    exact UInt64.lt_iff_toNat_lt
  | _ => rfl

theorem fromStart_mono {a b : ℕ} (h : a ≤ b) (ha : c.fromStart a = true) :
    c.fromStart b = true := by
  unfold fromStart at ha ⊢
  cases hspec : c.offsetSpecification with
  | offset o =>
    simp only [hspec, decide_eq_true_eq] at ha ⊢
    omega
  | _ => rfl

variable {c}

theorem deliverLoop_cons {o : UInt64} {m : Message} {ms : List Message} :
    c.deliverLoop o (m :: ms) =
      if c.fromStart o.toNat then c.delivery m o :: c.deliverLoop (o + 1) ms
      else c.deliverLoop (o + 1) ms := by
  rw [deliverLoop, skips_eq]
  cases c.fromStart o.toNat <;> rfl

theorem expectedFrom_cons {n : ℕ} {m : Message} {ms : List Message} :
    c.expectedFrom n (m :: ms) =
      if c.passes m && c.fromStart n then
        c.delivery m (UInt64.ofNat n) :: c.expectedFrom (n + 1) ms
      else c.expectedFrom (n + 1) ms := by
  unfold expectedFrom
  rw [List.zipIdx_cons, List.filterMap_cons]
  cases c.passes m && c.fromStart n <;> rfl

/-- The places of a list are its head and those behind it. -/
theorem forall_getElem?_cons {α : Type} {P : ℕ → α → Prop} {a : α} {l : List α} :
    (∀ i x, (a :: l)[i]? = some x → P i x) ↔ P 0 a ∧ ∀ i x, l[i]? = some x → P (i + 1) x := by
  constructor
  · intro h
    exact ⟨h 0 a rfl, fun i x hx => h (i + 1) x hx⟩
  · rintro ⟨hhead, htail⟩ i x hx
    cases i with
    | zero =>
      cases hx
      exact hhead
    | succ i => exact htail i x hx

theorem toNat_succ {o : UInt64} {n : ℕ} (h : o.toNat + (n + 1) < 2 ^ 64) :
    (o + 1).toNat = o.toNat + 1 := by
  rw [UInt64.toNat_add, UInt64.toNat_one]
  omega

/-! ## 3. Behind a message that was dropped

The count is smaller than the true offset here, and the difference never shrinks.  Any message
that is to be delivered has the wrong offset, if it is delivered. -/

/-- A count that is too low skips more. -/
theorem length_deliverLoop_le {ms : List Message} {o : UInt64} {n : ℕ}
    (hlt : o.toNat + ms.length < 2 ^ 64) (hle : o.toNat ≤ n) :
    (c.deliverLoop o (ms.filter c.passes)).length ≤ (c.expectedFrom n ms).length := by
  induction ms generalizing o n with
  | nil => exact Nat.le_refl 0
  | cons m ms ih =>
    rw [List.length_cons] at hlt
    have hsucc := toNat_succ hlt
    rw [expectedFrom_cons]
    cases hm : c.passes m with
    | false =>
      rw [List.filter_cons_of_neg (by simp [hm])]
      exact ih (by omega) (by omega)
    | true =>
      have hrest := ih (o := o + 1) (n := n + 1) (by omega) (by omega)
      rw [List.filter_cons_of_pos hm, deliverLoop_cons, Bool.true_and]
      cases ha : c.fromStart o.toNat with
      | true =>
        rw [c.fromStart_mono hle ha, if_pos rfl, if_pos rfl, List.length_cons, List.length_cons]
        omega
      | false =>
        rw [if_neg (by simp)]
        split
        · rw [List.length_cons]
          omega
        · exact hrest

/-- Once the count is too low, the handler is right only as long as nothing is to be delivered.  By
induction on the messages.  The first one that is to be delivered is delivered under the count,
which is not its offset, or is skipped; either way the two lists differ from there on. -/
theorem deliverLoop_eq_iff_of_lt {ms : List Message} {o : UInt64} {n : ℕ}
    (hlt : n + ms.length < 2 ^ 64) (hoff : o.toNat < n) :
    c.deliverLoop o (ms.filter c.passes) = c.expectedFrom n ms ↔
      ∀ i m, ms[i]? = some m → c.passes m = true → c.fromStart (n + i) = false := by
  induction ms generalizing o n with
  | nil => simp [expectedFrom, deliverLoop]
  | cons m ms ih =>
    rw [List.length_cons] at hlt
    have hsucc := toNat_succ (o := o) (n := ms.length) (by omega)
    rw [expectedFrom_cons]
    have hshift : ∀ i, n + 1 + i = n + (i + 1) := fun i => by omega
    have hrest : ∀ o' : UInt64, o'.toNat < n + 1 →
        (c.deliverLoop o' (ms.filter c.passes) = c.expectedFrom (n + 1) ms ↔
          ∀ i x, ms[i]? = some x → c.passes x = true → c.fromStart (n + (i + 1)) = false) := by
      intro o' ho'
      rw [ih (n := n + 1) (by omega) ho']
      simp only [hshift]
    rw [forall_getElem?_cons]
    cases hm : c.passes m with
    | false =>
      rw [List.filter_cons_of_neg (by simp [hm])]
      simpa using hrest o (by omega)
    | true =>
      rw [List.filter_cons_of_pos hm, deliverLoop_cons, Bool.true_and]
      cases hb : c.fromStart n with
      | false =>
        have ha : c.fromStart o.toNat = false := by
          by_contra hne
          rw [Bool.not_eq_false] at hne
          rw [c.fromStart_mono (by omega) hne] at hb
          exact absurd hb (by simp)
        rw [ha]
        simpa using hrest (o + 1) (by omega)
      | true =>
        refine iff_of_false (fun heq => ?_) (by simp)
        rw [if_pos rfl] at heq
        split at heq
        · -- the head has the offset that was counted, which is not its own
          have hhead := congrArg Delivery.offset (List.cons.inj heq).1
          have hnat := congrArg UInt64.toNat hhead
          simp only [delivery, UInt64.toNat_ofNat'] at hnat
          omega
        · have hlen := congrArg List.length heq
          have hle : (c.deliverLoop (o + 1) (ms.filter c.passes)).length ≤
              (c.expectedFrom (n + 1) ms).length :=
            length_deliverLoop_le (by omega) (by omega)
          rw [List.length_cons] at hlen
          omega

/-! ## 4. A whole chunk

An induction over the chunk up to the first message that the filter drops.  From there on the
last section applies. -/

/-- What stands in front of a message behind the first one: the first one, and what stands between
them. -/
theorem forall_before_cons {m : Message} {ms : List Message} {i : ℕ} :
    (∀ j < i + 1, ∀ x, (m :: ms)[j]? = some x → c.passes x = true) ↔
      c.passes m = true ∧ ∀ j < i, ∀ x, ms[j]? = some x → c.passes x = true := by
  constructor
  · intro h
    exact ⟨h 0 (by omega) m rfl, fun j hj x hx => h (j + 1) (by omega) x hx⟩
  · rintro ⟨hm, h⟩ j hj x hx
    cases j with
    | zero =>
      cases hx
      exact hm
    | succ j => exact h j (by omega) x hx

/-- While nothing was dropped the count is right, and a dropped message is fatal when something
behind it is to be delivered.  By induction on the messages, as long as the filter drops none;
behind the first one that it drops `deliverLoop_eq_iff_of_lt` takes over. -/
theorem deliverLoop_eq_iff {ms : List Message} {o : UInt64}
    (hlt : o.toNat + ms.length < 2 ^ 64) :
    c.deliverLoop o (ms.filter c.passes) = c.expectedFrom o.toNat ms ↔
      ∀ i m, ms[i]? = some m → c.passes m = true → c.fromStart (o.toNat + i) = true →
        ∀ j < i, ∀ x, ms[j]? = some x → c.passes x = true := by
  induction ms generalizing o with
  | nil => simp [expectedFrom, deliverLoop]
  | cons m ms ih =>
    rw [List.length_cons] at hlt
    have hsucc := toNat_succ hlt
    have hshift : ∀ i, o.toNat + 1 + i = o.toNat + (i + 1) := fun i => by omega
    rw [expectedFrom_cons]
    cases hm : c.passes m with
    | false =>
      rw [List.filter_cons_of_neg (by simp [hm]), Bool.false_and, if_neg (by simp),
        deliverLoop_eq_iff_of_lt (by omega) (by omega)]
      rw [forall_getElem?_cons]
      simp only [hm, hshift, forall_before_cons]
      simp
    | true =>
      have hloop : c.deliverLoop o ((m :: ms).filter c.passes) =
          (if (true && c.fromStart o.toNat) = true then
            c.delivery m (UInt64.ofNat o.toNat) :: c.expectedFrom (o.toNat + 1) ms
          else c.expectedFrom (o.toNat + 1) ms) ↔
          c.deliverLoop (o + 1) (ms.filter c.passes) = c.expectedFrom (o + 1).toNat ms := by
        rw [List.filter_cons_of_pos hm, deliverLoop_cons, Bool.true_and, hsucc,
          UInt64.ofNat_toNat]
        split
        · rw [List.cons.injEq]
          exact and_iff_right rfl
        · exact Iff.rfl
      rw [hloop, ih (by omega), hsucc, forall_getElem?_cons]
      simp only [hshift, forall_before_cons, hm]
      simp

/-! ## 5. Which messages are delivered at all

A weaker question, without the offsets.  The handler never delivers what it should not, and it
delivers every message that it should when its count skips none of them; only a start offset can
make it do so. -/

/-- The offset that the handler counts for a message is not in front of the start when the true
one is not: of the messages that are to be delivered none is skipped. -/
def SkipsNone (c : ConsumerInternal) (d : DeliverCommand) : Prop :=
  ∀ i m, d.messages[i]? = some m → c.passes m = true →
    c.fromStart (d.chunkFirstOffset.toNat + i) = true →
    c.skips (d.chunkFirstOffset + UInt64.ofNat ((d.messages.take i).countP c.passes)) = false

/-- No message that is to be delivered stands behind one that the client filter drops. -/
def InPlace (c : ConsumerInternal) (d : DeliverCommand) : Prop :=
  d.chunkFirstOffset.toNat + d.messages.length < 2 ^ 64 ∧
    ∀ i m, d.messages[i]? = some m → c.passes m = true →
      c.fromStart (d.chunkFirstOffset.toNat + i) = true →
      ∀ j < i, ∀ x, d.messages[j]? = some x → c.passes x = true

theorem deliveries_of_inPlace {d : DeliverCommand} (h : c.InPlace d) :
    c.deliveries d = c.expected d := by
  unfold deliveries expected
  rw [c.filterMessages_eq]
  exact (deliverLoop_eq_iff h.1).mpr h.2

theorem toNat_succ_le {o : UInt64} {n : ℕ} (h : o.toNat ≤ n) : (o + 1).toNat ≤ n + 1 := by
  have hmod := Nat.mod_le (o.toNat + 1) (2 ^ 64)
  rw [UInt64.toNat_add, UInt64.toNat_one]
  omega

/-- With a count that is not too high the handler delivers only messages that it should. -/
theorem deliverLoop_sublist {ms : List Message} {o : UInt64} {n : ℕ} (hle : o.toNat ≤ n) :
    ((c.deliverLoop o (ms.filter c.passes)).map Delivery.message).Sublist
      ((c.expectedFrom n ms).map Delivery.message) := by
  induction ms generalizing o n with
  | nil => exact List.Sublist.refl _
  | cons m ms ih =>
    rw [expectedFrom_cons]
    cases hm : c.passes m with
    | false =>
      rw [List.filter_cons_of_neg (by simp [hm])]
      exact ih (by omega)
    | true =>
      have hrest := ih (o := o + 1) (n := n + 1) (toNat_succ_le hle)
      rw [List.filter_cons_of_pos hm, deliverLoop_cons, Bool.true_and]
      cases ha : c.fromStart o.toNat with
      | true =>
        rw [c.fromStart_mono hle ha, if_pos rfl, if_pos rfl]
        exact hrest.cons_cons m
      | false =>
        rw [if_neg (by simp)]
        split
        · exact hrest.cons m
        · exact hrest

/-- It delivers all of them when it skips none, and only then.  By induction on the messages, with a
count that may be too low by any number.  If the handler skips a message that should be delivered it
comes out with one message less, and nothing later makes up for that. -/
theorem messages_deliverLoop_iff {ms : List Message} {o : UInt64} {n : ℕ} (hle : o.toNat ≤ n) :
    (c.deliverLoop o (ms.filter c.passes)).map Delivery.message =
        (c.expectedFrom n ms).map Delivery.message ↔
      ∀ i m, ms[i]? = some m → c.passes m = true → c.fromStart (n + i) = true →
        c.skips (o + UInt64.ofNat ((ms.take i).countP c.passes)) = false := by
  induction ms generalizing o n with
  | nil => simp [expectedFrom, deliverLoop]
  | cons m ms ih =>
    have hshift : ∀ i, n + 1 + i = n + (i + 1) := fun i => by omega
    rw [expectedFrom_cons, forall_getElem?_cons]
    cases hm : c.passes m with
    | false =>
      rw [List.filter_cons_of_neg (by simp [hm]), Bool.false_and, if_neg (by simp),
        ih (by omega)]
      simp [hshift, hm]
    | true =>
      have hcount : ∀ i, o + UInt64.ofNat (((m :: ms).take (i + 1)).countP c.passes) =
          o + 1 + UInt64.ofNat ((ms.take i).countP c.passes) := by
        intro i
        rw [List.take_succ_cons, List.countP_cons_of_pos hm, UInt64.ofNat_add,
          UInt64.add_comm (UInt64.ofNat _), ← UInt64.add_assoc]
        rfl
      have hrest := ih (o := o + 1) (n := n + 1) (toNat_succ_le hle)
      rw [List.filter_cons_of_pos hm, deliverLoop_cons, Bool.true_and]
      simp only [hshift] at hrest
      simp only [hcount, List.take_zero, List.countP_nil, Nat.add_zero, true_imp_iff,
        show UInt64.ofNat 0 = 0 from rfl, UInt64.add_zero]
      rw [← hrest, skips_eq]
      cases ha : c.fromStart o.toNat with
      | true =>
        rw [c.fromStart_mono hle ha]
        simp [delivery]
      | false =>
        cases hb : c.fromStart n with
        | false => simp
        | true =>
          -- the handler skips this message, and what it delivers of the others is not enough
          refine iff_of_false (fun heq => ?_) (by simp)
          have hlen := congrArg List.length heq
          have hsub := (@deliverLoop_sublist c ms (o + 1) (n + 1) (toNat_succ_le hle)).length_le
          simp only [Bool.false_eq_true, if_false, if_true, List.map_cons, List.length_cons] at hlen
          omega

/-- What is delivered of a chunk is part of what should be. -/
theorem deliveries_sublist (d : DeliverCommand) :
    ((c.deliveries d).map Delivery.message).Sublist ((c.expected d).map Delivery.message) := by
  unfold deliveries expected
  rw [c.filterMessages_eq]
  exact deliverLoop_sublist (Nat.le_refl _)

theorem messages_deliveries_iff (d : DeliverCommand) :
    (c.deliveries d).map Delivery.message = (c.expected d).map Delivery.message ↔
      c.SkipsNone d := by
  unfold deliveries expected
  rw [c.filterMessages_eq]
  exact messages_deliverLoop_iff (Nat.le_refl _)

end ConsumerInternal

/-- **When a chunk is delivered as it should be**: exactly when no message that is to be
delivered stands behind one that the client filter drops.

By induction on the messages, with the count of the handler and the true offset as parameters.
The bound keeps both from wrapping. -/
theorem deliveries_eq_iff (c : ConsumerInternal) (d : DeliverCommand)
    (hlt : d.chunkFirstOffset.toNat + d.messages.length < 2 ^ 64) :
    c.deliveries d = c.expected d ↔
      ∀ i m, d.messages[i]? = some m → c.passes m = true →
        c.fromStart (d.chunkFirstOffset.toNat + i) = true →
        ∀ j < i, ∀ x, d.messages[j]? = some x → c.passes x = true := by
  unfold ConsumerInternal.deliveries ConsumerInternal.expected
  rw [c.filterMessages_eq]
  exact ConsumerInternal.deliverLoop_eq_iff hlt

/-- A consumer whose filter wants messages with data, from an offset on. -/
def wantsData (start : OffsetSpecification) : ConsumerInternal where
  name := none
  stream := "invoices"
  offsetSpecification := start
  filterConfiguration := some ⟨[], some fun m => !m.message.body.data.isEmpty, false⟩

def withData : Message := { message := { body := { data := [[1]] } } }

def withoutData : Message := { message := {} }

/-- A chunk that starts at the offset 10. -/
def chunkAtTen (messages : List Message) : DeliverCommand :=
  ⟨1, 80, 0, 2, 0, 0, 10, 0, 0, 0, messages⟩

/-- A dropped message at the end of the chunk does no harm. -/
theorem deliveries_eq_iff_dropped_last :
    (wantsData .next).deliveries (chunkAtTen [withData, withoutData]) =
      (wantsData .next).expected (chunkAtTen [withData, withoutData]) := by
  refine (deliveries_eq_iff (wantsData .next) (chunkAtTen [withData, withoutData])
    (by decide)).mpr ?_
  intro i m hm hpass _ j hj
  match i with
  | 0 => omega
  | 1 =>
    cases hm
    exact absurd hpass (by decide)
  | i + 2 => exact absurd hm (by simp [chunkAtTen])

/-- A dropped message in front: the message at the offset 11 is delivered as if it were at 10,
and a consumer that starts at 11 does not get it. -/
theorem deliveries_filtered_offset :
    (wantsData .next).deliveries (chunkAtTen [withoutData, withData]) ≠
      (wantsData .next).expected (chunkAtTen [withoutData, withData]) ∧
    (wantsData .next).deliveries (chunkAtTen [withoutData, withData]) =
      [⟨none, "invoices", 1, withData, 10⟩] ∧
    (wantsData .next).expected (chunkAtTen [withoutData, withData]) =
      [⟨none, "invoices", 1, withData, 11⟩] ∧
    (wantsData (.offset 11)).deliveries (chunkAtTen [withoutData, withData]) = [] ∧
    (wantsData (.offset 11)).expected (chunkAtTen [withoutData, withData]) =
      [⟨none, "invoices", 1, withData, 11⟩] := by
  decide +kernel

end RabbitMqStream.Consumer
