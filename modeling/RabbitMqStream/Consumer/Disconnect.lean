/-
# What a consumer has got when it is told that there is nothing more

At the end of the stream the client spawns one more task, which raises a flag; a `poll_next` that
finds the channel empty and then the flag up says that the stream of messages has ended.  The
messages of a chunk that was read before are put into the channel by another task, and nothing
makes the flag wait for it.

There is a second way to lose a message: the handler counts offsets without the messages that the
client filter drops (`Consumer/Offsets.lean`), and skips by that count what it takes for messages in
front of the start.

* `returned_of_none`: when the flag goes up only after the handlers of all chunks are done with the
  channel, and not between the two steps of a `poll_next` that has missed a message, the consumer
  has been given everything the handlers make of the chunks when it is told that there is nothing
  more.
* `disconnect_nothing_lost`: in these runs it has been given every message that it should, exactly
  when no such message was skipped by the count.
* `disconnect_flag_first`: a run in which the flag overtakes the handler, and one in which the count
  skips a message.

**The argument.**  A message of a chunk that was read is in one of four places until it is
returned: with its handler, in the channel, in the hand of `poll_next`, or with the application
(`accounted_step`).  When the flag goes up in order, the first place is empty and stays empty, and
no `poll_next` can miss what is in the channel (`quiet_step`); so a `poll_next` that finds nothing
and then the flag has all messages behind it.  What is compared with the deliveries of the chunks
can then be compared with what should be delivered, chunk by chunk, since a handler never delivers
too much.
-/
import RabbitMqStream.Consumer.Credit
import RabbitMqStream.Consumer.Offsets
import Mathlib.Algebra.Order.BigOperators.Group.List

namespace RabbitMqStream.Consumer

open Lts Protocol

/-! ## 1. Where the messages of the chunks are

Four places, of which `poll_next` sees two.  The condition on the run is on the step that raises
the flag: by then the first place is empty, and a `poll_next` that stands between its look into
the channel and its look at the flag has not missed a message.  After that a look may not fail
spuriously. -/

/-- The messages that a handler has still to put into the channel. -/
def Task.pending : Task → Multiset Delivery
  | .deliver rest => rest
  | _ => 0

/-- The message that `poll_next` is about to return. -/
def Polling.inHand : Polling → Multiset Delivery
  | .received (some d) => {d}
  | _ => 0

/-- Every message of a chunk that was read has been returned, is about to be, is in the channel
or in the hands of its handler. -/
structure Accounted (c : ConsumerInternal) (s : State) : Prop where
  messages : s.dropped = false →
    (s.returned : Multiset Delivery) + s.polling.inHand + s.queue + gather Task.pending s.tasks =
      (s.read.flatMap c.deliveries : List Delivery)
  polling : s.dropped = true → s.polling = .idle

/-- What has to be so once the flag is up. -/
structure Quiet (s : State) : Prop where
  ended : s.ended = true
  handled : gather Task.pending s.tasks = 0
  missed : s.polling = .received none → s.queue = []

/-- The task is about to raise the flag. -/
def State.Raises (s : State) (t : ℕ) : Prop :=
  s.closed = false ∧ (s.tasks[t]? = some .closing ∨ s.tasks[t]? = some .closeFlag)

instance (s : State) (t : ℕ) : Decidable (s.Raises t) :=
  inferInstanceAs (Decidable (_ ∧ (_ ∨ _)))

/-- A step that does not lose messages: the flag is raised when the stream has ended, no handler
has a message left and no `poll_next` stands behind a `poll_recv` that has missed one; and
`poll_recv` does not fail spuriously when the flag is up and there is a message. -/
def Orderly (s : State) : Event → Prop
  | .move t => s.Raises t →
      s.ended = true ∧ (∀ τ ∈ s.tasks, τ.pending = 0) ∧ (s.polling = .received none → s.queue = [])
  | .pollRecv spurious => spurious = true → s.closed = true → s.queue = []
  | _ => True

instance (s : State) : ∀ e, Decidable (Orderly s e)
  | .move t => inferInstanceAs (Decidable (s.Raises t → _ ∧ (∀ τ ∈ s.tasks, τ.pending = 0) ∧ _))
  | .pollRecv spurious => inferInstanceAs (Decidable (spurious = true → _ → s.queue = []))
  | .brokerSend _ | .brokerReceive | .read | .eof | .close | .drop | .pollClosed
  | .handOver _ _ | .listener _ _ | .answer _ _ => inferInstanceAs (Decidable True)

/-! ## 2. The steps

A message leaves a place only for the next one.  Once the flag is up by an orderly step, no
handler has a message and no chunk is read any more, so the channel only becomes emptier. -/

section Steps

variable {c : ConsumerInternal} {s s' : State}

/-- A task without credit to send has no messages either. -/
theorem pending_of_owes {τ : Task} (h : τ.owes = 0) : τ.pending = 0 := by
  cases τ with
  | deliver rest => exact absurd h (Multiset.singleton_ne_zero rest)
  | _ => rfl

theorem handsOver_pending {τ sent failed : Task} {frame : Outgoing}
    (h : τ.handsOver c = some (frame, sent, failed)) :
    τ.pending = 0 ∧ sent.pending = 0 ∧ failed.pending = 0 := by
  rcases handsOver_cases h with ⟨rfl, -, rfl, rfl⟩ | ⟨hτ, -, -, hsent, hfailed⟩
  · exact ⟨rfl, rfl, rfl⟩
  · exact ⟨pending_of_owes hτ, pending_of_owes hsent, pending_of_owes hfailed⟩

/-- Reading a frame brings exactly the messages of its chunk. -/
theorem gather_spawns (tasks : List Task) (r : Response) :
    gather Task.pending (tasks ++ c.spawns r) =
      gather Task.pending tasks + (((chunk r).toList.flatMap c.deliveries : List Delivery)) := by
  cases hc : chunk r with
  | none =>
    have hnew : gather Task.pending (c.spawns r) = 0 :=
      (gather_eq_zero_iff _).mpr fun τ hτ => pending_of_owes (owes_of_not_chunk hc τ hτ)
    rw [gather_append, hnew]
    rfl
  | some d =>
    rw [spawns_of_chunk hc, gather_snoc]
    simp [Task.pending]

/-- By cases on the step.  Each of them moves messages from one of the four places to the next, or
none at all; reading a frame puts those of its chunk into the first place. -/
theorem accounted_step {e : Event} (ha : Accounted c s) (h : step c s e = some s') :
    Accounted c s' := by
  have hmessages := ha.messages
  have hset : ∀ {t : ℕ} {τ : Task} (τ' : Task), s.tasks[t]? = some τ → τ.pending = 0 →
      τ'.pending = 0 → gather Task.pending (s.tasks.set t τ') = gather Task.pending s.tasks :=
    fun _ ht hτ hτ' => gather_set_eq Task.pending ht (hτ'.trans hτ.symm)
  cases step_cases h with
  | brokerSend | brokerReceive => exact ⟨ha.messages, ha.polling⟩
  | @read r rest he hi =>
    refine ⟨fun hd => ?_, ha.polling⟩
    simp only
    rw [gather_spawns, List.flatMap_append, ← Multiset.coe_add, ← hmessages hd]
    ac_rfl
  | eof he | close =>
    refine ⟨fun hd => ?_, ha.polling⟩
    simp only [gather_snoc, Task.pending, add_zero]
    exact hmessages hd
  | drop hd hp => exact ⟨fun hd' => absurd hd' (by simp), fun _ => hp⟩
  | @pollItem d rest hd hp hq =>
    refine ⟨fun _ => ?_, fun hd' => ?_⟩
    · rw [← hmessages hd, hp, hq]
      simp only [Polling.inHand, ← Multiset.cons_coe, ← Multiset.singleton_add]
      ac_rfl
    · exact absurd (hd.symm.trans hd') (by simp)
  | pollNone hd hp hq =>
    refine ⟨fun _ => ?_, fun hd' => absurd (hd.symm.trans hd') (by simp)⟩
    rw [← hmessages hd, hp]
    rfl
  | @returnItem d hp =>
    refine ⟨fun hd => ?_, fun _ => rfl⟩
    rw [← hmessages hd, hp]
    simp only [Polling.inHand, ← Multiset.coe_add, Multiset.coe_singleton]
    ac_rfl
  | returnNone hp =>
    refine ⟨fun hd => ?_, fun _ => rfl⟩
    rw [← hmessages hd, hp]
    rfl
  | @enter t d rest ht hd hq =>
    refine ⟨fun _ => ?_, ha.polling⟩
    have hgive : gather Task.pending s.tasks =
        d ::ₘ gather Task.pending (s.tasks.set t (.deliver rest)) :=
      gather_set_give Task.pending ht rfl
    rw [← hmessages hd, hgive, ← Multiset.coe_add, Multiset.coe_singleton,
      ← Multiset.singleton_add]
    ac_rfl
  | discard ht hd => exact ⟨fun hd' => absurd (hd.symm.trans hd') (by simp), ha.polling⟩
  | @closing t ht =>
    have hsame := hset .finished ht rfl rfl
    exact ⟨fun hd => hsame ▸ hmessages hd, ha.polling⟩
  | @closeFlag t ht hc =>
    have hsame := hset .unsubscribe ht rfl rfl
    exact ⟨fun hd => hsame ▸ hmessages hd, ha.polling⟩
  | @handOver t τ sent failed frame result ht ho =>
    obtain ⟨hτ, hsent, hfailed⟩ := handsOver_pending ho
    have hdone : (if result = .ok then sent else failed).pending = 0 := by
      split
      · exact hsent
      · exact hfailed
    have hsame := hset _ ht hτ hdone
    cases result <;> exact ⟨fun hd => hsame ▸ hmessages hd, ha.polling⟩
  | walk ht hw =>
    obtain ⟨hτ, hτ'⟩ := walk_owes hw
    have hsame := hset _ ht (pending_of_owes hτ) (pending_of_owes hτ')
    exact ⟨fun hd => hsame ▸ hmessages hd, ha.polling⟩

/-- A handler that has a message left is not one that is done. -/
theorem pending_ne_zero {tasks : List Task} {t : ℕ} {d : Delivery} {rest : List Delivery}
    (ht : tasks[t]? = some (.deliver (d :: rest))) : gather Task.pending tasks ≠ 0 := by
  intro hzero
  have hmem := mem_gather_of_getElem? Task.pending (x := d) ht (by simp [Task.pending])
  rw [hzero] at hmem
  exact Multiset.notMem_zero d hmem

theorem quiet_raise {t : ℕ} {τ' : Task} (hτ' : τ'.pending = 0) (ho : Orderly s (.move t))
    (hr : s.Raises t) : Quiet { s with closed := true, tasks := s.tasks.set t τ' } := by
  obtain ⟨hended, hpending, hmissed⟩ := ho hr
  refine ⟨hended, (gather_eq_zero_iff _).mpr fun τ hτ => ?_, hmissed⟩
  rcases List.mem_or_eq_of_mem_set hτ with hτ | rfl
  · exact hpending τ hτ
  · exact hτ'

/-- Once the flag is up, nothing comes into the channel and nothing in it is missed.  Nothing is
read behind the end of the stream, and no handler has a message, so that nothing can be put into the
channel.  A `poll_next` finds what is in it, as it does not fail spuriously. -/
theorem quiet_step {e : Event} (ho : Orderly s e) (hq : s.closed = true → Quiet s)
    (h : step c s e = some s') : s'.closed = true → Quiet s' := by
  have hset : ∀ {t : ℕ} {τ τ' : Task}, s.tasks[t]? = some τ → τ.pending = 0 → τ'.pending = 0 →
      s.closed = true → gather Task.pending (s.tasks.set t τ') = 0 := by
    intro t τ τ' ht hτ hτ' hc
    rw [gather_set_eq Task.pending ht (hτ'.trans hτ.symm)]
    exact (hq hc).handled
  cases step_cases h with
  | brokerSend | brokerReceive =>
    intro hc
    exact { hq hc with }
  | read he hi =>
    intro hc
    exact absurd ((hq hc).ended.symm.trans he) (by simp)
  | eof he =>
    intro hc
    exact absurd ((hq hc).ended.symm.trans he) (by simp)
  | close =>
    intro hc
    refine { hq hc with handled := ?_ }
    simp only [gather_snoc, Task.pending, add_zero]
    exact (hq hc).handled
  | drop hd hp =>
    intro hc
    exact { hq hc with missed := fun _ => rfl }
  | pollItem hd hp hqueue =>
    intro hc
    exact { hq hc with missed := by simp }
  | @pollNone spurious hd hp hqueue =>
    intro hc
    refine { hq hc with missed := fun _ => ?_ }
    cases spurious with
    | false => exact hqueue rfl
    | true => exact ho rfl hc
  | returnItem hp | returnNone hp =>
    intro hc
    exact { hq hc with missed := by simp }
  | enter ht hd hroom =>
    intro hc
    exact absurd (hq hc).handled (pending_ne_zero ht)
  | discard ht hd =>
    intro hc
    exact absurd (hq hc).handled (pending_ne_zero ht)
  | @closing t ht =>
    intro _
    by_cases hc : s.closed = true
    · exact { hq hc with handled := hset ht rfl rfl hc }
    · exact quiet_raise rfl ho ⟨by simpa using hc, Or.inl ht⟩
  | @closeFlag t ht hc =>
    intro _
    exact quiet_raise rfl ho ⟨hc, Or.inr ht⟩
  | @handOver t τ sent failed frame result ht hover =>
    intro hc
    obtain ⟨hτ, hsent, hfailed⟩ := handsOver_pending hover
    cases result with
    | ok => exact { hq hc with handled := hset ht hτ hsent hc }
    | failed | failedWritten => exact { hq hc with handled := hset ht hτ hfailed hc }
  | walk ht hw =>
    intro hc
    obtain ⟨hτ, hτ'⟩ := walk_owes hw
    exact { hq hc with handled := hset ht (pending_of_owes hτ) (pending_of_owes hτ') hc }

end Steps

/-! ## 3. Every run

A `poll_next` that returns `Ready(None)` had found the channel empty, with the flag up.  All
messages are then in the last of the four places.  What was returned is compared with what
should have been, chunk by chunk: it can only be less, and it is less where a count has skipped
a message. -/

/-- With the flag up and nothing received, what was returned are the handlers' deliveries of all the
chunks that were read. -/
theorem returned_of_quiet {c : ConsumerInternal} {s : State} (ha : Accounted c s)
    (hq : s.closed = true → Quiet s) (hp : s.polling = .received none) (hc : s.closed = true) :
    s.returned.Perm (s.read.flatMap c.deliveries) := by
  have hdropped : s.dropped = false := by
    by_contra hd
    rw [ha.polling (by simpa using hd)] at hp
    exact absurd hp (by simp)
  have hmessages := ha.messages hdropped
  rw [(hq hc).handled, (hq hc).missed hp, hp] at hmessages
  simp only [Polling.inHand, Multiset.coe_nil, add_zero] at hmessages
  exact Multiset.coe_eq_coe.mp hmessages

theorem returned_of_none {c : ConsumerInternal} {es : List Event} {s s' : State}
    (h : run (step c) init es = some s) (horderly : Steps (step c) Orderly init es)
    (hpoll : step c s .pollClosed = some s') (hnone : s'.results = s.results ++ [.ready none]) :
    s.returned.Perm (s.read.flatMap c.deliveries) := by
  have hinit : Accounted c init := ⟨fun _ => rfl, fun _ => rfl⟩
  obtain ⟨ha, hq⟩ := run_invariant_steps
    (P := fun u => Accounted c u ∧ (u.closed = true → Quiet u))
    (fun u e u' hC hP hs => ⟨accounted_step hP.1 hs, quiet_step hC hP.2 hs⟩)
    horderly ⟨hinit, fun hc => absurd hc (by simp [init])⟩ h
  cases step_cases hpoll with
  | returnItem hp => exact absurd hnone (by simp)
  | returnNone hp =>
    have hclosed : s.closed = true := by
      by_contra hc
      simp [hc] at hnone
    exact returned_of_quiet ha hq hp hclosed
  | walk ht hw => cases hw

/-- Two lists put together of parts, each part of the one within its part of the other: when they
have the same elements, the parts are the same. -/
theorem flatMap_perm_iff {α β : Type} {f g : α → List β} {l : List α}
    (hsub : ∀ a, (f a).Sublist (g a)) :
    (l.flatMap f).Perm (l.flatMap g) ↔ ∀ a ∈ l, f a = g a := by
  have hall : ∀ l : List α, (l.flatMap f).length ≤ (l.flatMap g).length := by
    intro l
    rw [List.length_flatMap, List.length_flatMap]
    exact List.sum_le_sum fun a _ => (hsub a).length_le
  constructor
  · intro hperm
    have hlen := hperm.length_eq
    clear hperm
    induction l with
    | nil => simp
    | cons a l ih =>
      have hhead := (hsub a).length_le
      have htail := hall l
      simp only [List.flatMap_cons, List.length_append] at hlen
      rw [List.forall_mem_cons]
      exact ⟨(hsub a).eq_of_length (by omega), ih (by omega)⟩
  · intro heq
    rw [List.flatMap_congr heq]

/-- **Nothing is lost at the end of the stream**, in every run of orderly steps: when `poll_next`
returns `Ready(None)`, the messages that it has returned are those of all the chunks read that pass
the filter and the start offset, each as often as it was there, exactly when the count of offsets
has skipped none of them.  With chunks in which it counts right, they have their true offsets too.

The steps account for what the handlers make of the chunks (`returned_of_none`).  That is never more
than what should be delivered (`ConsumerInternal.deliveries_sublist`), so the two are the same when
and only when nothing is missing from any chunk. -/
theorem disconnect_nothing_lost (c : ConsumerInternal) (es : List Event) (s s' : State)
    (h : run (step c) init es = some s) (horderly : Steps (step c) Orderly init es)
    (hpoll : step c s .pollClosed = some s')
    (hnone : s'.results = s.results ++ [.ready none]) :
    ((s.returned.map Delivery.message).Perm
        ((s.read.flatMap c.expected).map Delivery.message) ↔ ∀ d ∈ s.read, c.SkipsNone d) ∧
      ((∀ d ∈ s.read, c.InPlace d) → s.returned.Perm (s.read.flatMap c.expected)) := by
  have hreturned := returned_of_none h horderly hpoll hnone
  refine ⟨?_, fun hplace => ?_⟩
  · rw [(hreturned.map Delivery.message).congr_left, List.map_flatMap, List.map_flatMap,
      flatMap_perm_iff fun d => ConsumerInternal.deliveries_sublist d]
    exact forall₂_congr fun d _ => ConsumerInternal.messages_deliveries_iff d
  · rwa [List.flatMap_congr fun d hd => ConsumerInternal.deliveries_of_inPlace (hplace d hd)]
      at hreturned

/-- The handler of a chunk is done before the end of the stream is read. -/
def handledFirst (frame : Response) : List Event :=
  [.brokerReceive, .brokerSend frame, .read, .move 0, .eof, .move 1, .pollRecv false,
    .pollClosed, .pollRecv false]

/-- The rule at a chunk of two messages, of which the filter drops the last one. -/
theorem disconnect_nothing_lost_handled_first : ∃ s,
    run (step (wantsData (.offset 10))) init
        (handledFirst ⟨⟨8, 1⟩, .deliver (chunkAtTen [withData, withoutData])⟩) = some s ∧
      s.returned = [⟨none, "invoices", 1, withData, 10⟩] ∧
      (s.returned.map Delivery.message).Perm
        ((s.read.flatMap (wantsData (.offset 10)).expected).map Delivery.message) := by
  refine ⟨_, rfl, rfl, (disconnect_nothing_lost (wantsData (.offset 10))
    (handledFirst ⟨⟨8, 1⟩, .deliver (chunkAtTen [withData, withoutData])⟩) _ _ rfl
    (by decide +kernel) rfl rfl).1.mpr ?_⟩
  intro d hd
  obtain rfl : d = chunkAtTen [withData, withoutData] := List.mem_singleton.mp hd
  intro i m hm hpass _
  match i with
  | 0 => rfl
  | 1 =>
    cases hm
    exact absurd hpass (by decide)
  | i + 2 => exact absurd hm (by simp [chunkAtTen])

/-- The filter drops the first message of the chunk and the handler is done before the end of the
stream is read. -/
def skippedBehindDropped : List Event :=
  [.brokerReceive, .brokerSend ⟨⟨8, 1⟩, .deliver (chunkAtTen [withoutData, withData])⟩, .read,
    .handOver 0 .ok, .eof, .move 1, .pollRecv false, .pollClosed]

/-- Two ways to lose a message.  The flag goes up before the handler has put the message into the
channel: `poll_next` says that there is nothing more, and the message has not been returned.  And in
a run of orderly steps the message at the offset 11 is skipped, as the handler counts 10 for it. -/
theorem disconnect_flag_first :
    (∃ s, run (step plain) init [.brokerReceive, .brokerSend (chunkFrame 0), .read, .eof, .move 1,
        .pollRecv false, .pollClosed] = some s ∧
      s.ended = true ∧ s.results = [.ready none] ∧ s.returned = [] ∧
      s.read.flatMap plain.expected = [⟨none, "invoices", 1, { message := {} }, 0⟩]) ∧
    ∃ s, run (step (wantsData (.offset 11))) init skippedBehindDropped = some s ∧
      Steps (step (wantsData (.offset 11))) Orderly init skippedBehindDropped ∧
      s.ended = true ∧ s.results = [.ready none] ∧ s.returned = [] ∧
      s.read.flatMap (wantsData (.offset 11)).expected = [⟨none, "invoices", 1, withData, 11⟩] :=
  ⟨⟨_, rfl, rfl, rfl, rfl, by decide +kernel⟩,
    ⟨_, rfl, by decide +kernel, rfl, rfl, rfl, by decide +kernel⟩⟩

end RabbitMqStream.Consumer
