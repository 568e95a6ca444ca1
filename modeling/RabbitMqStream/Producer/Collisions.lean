/-
# Waiters that are replaced

A waiter is kept in the map under the id of its message.  A message may bring its id, and a
message without one gets the next of the sequence; nothing keeps the two kinds apart, nor two
messages that bring the same id.  `insert` puts the new waiter in the place of the old one: the
callback of the old one is never called, and when the broker answers both messages, the second
answer finds nobody and `with_waiter` is at its `todo!()`.

* `waiters_kept`: in a run in which each id is, when it is chosen, neither in the map nor chosen
  for a message that is on its way there, no waiter is replaced and every message keeps its own
  until it is answered.  For given messages, no run at all replaces a waiter exactly when the ids
  they bring and the ids that the sequence will give to the others are all different.
* `explicitId_replaced`: one message that brings the first id of the sequence, and one that gets
  it.

**The argument.**  In one run, the ids that have been chosen and those in the map are all different
as long as every choice is a new one (`fresh_step`).  For all runs with the same messages one has
to count: the ids that a run has used, and those that it can still use, taken together never
become more (`allIds_step`).  If they are all different before the first step, then no choice can
meet an id that is in the map.  For the other direction one run is enough, in which all messages
are sent as one batch and nobody answers.  Every waiter is still there when the next one is put
into the map, so two equal ids meet (`nodup_of_registerAll`).
-/
import Mathlib.Data.Multiset.Filter
import Mathlib.Data.Multiset.Range
import RabbitMqStream.Producer.Confirmation

namespace RabbitMqStream.Producer

open Lts Protocol

/-! ## 1. What a step does to ids and waiters

A task chooses ids in one operation and registers waiters in another, and it may be held up
between the two.  `Assigns` has both, so that an id is followed from its choice to the map. -/

/-- The message that the task is about to choose an id for. -/
def Task.choosing : Task → Option Message
  | .sendDraw _ m => some m
  | .batchDraw _ (m :: _) _ => some m
  | _ => none

/-- What a step of a task does, of what has to do with ids and waiters. -/
inductive Assigns (s : Shared) (τ : Task) : Shared → Task → Prop where
  | quiet {s' : Shared} {τ' : Task} (hwait : s'.waitingConfirmations = s.waitingConfirmations)
      (hreg : s'.registrations = s.registrations) (hinv : s'.invocations = s.invocations)
      (hseq : s'.publishSequence = s.publishSequence) (hdrawn : s'.drawn = s.drawn)
      (hheld : τ'.held = τ.held) (hcall : τ'.inCall = τ.inCall)
      (hm : (τ'.messages : Multiset Message) ≤ τ.messages) : Assigns s τ s' τ'
  | choose {m : Message} {τ' : Task} (hc : τ.choosing = some m) (hheld : τ.held = 0)
      (hheld' : τ'.held = {(s.draw m).2}) (hcall : τ'.inCall = τ.inCall)
      (hm : τ.messages = m :: τ'.messages) : Assigns s τ (s.draw m).1 τ'
  | insert {id : UInt64} {w : ProducerMessageWaiter} {τ' : Task} (hheld : τ.held = {id})
      (hheld' : τ'.held = 0) (hcall : τ'.inCall = τ.inCall) (hm : τ'.messages = τ.messages) :
      Assigns s τ (s.register id w) τ'
  | take {a : Answer} {w : ProducerMessageWaiter} {answers : List Answer}
      (hτ : τ = .handle (a :: answers)) (hw : s.waitingConfirmations a.publishingId = some w) :
      Assigns s τ { s with
        waitingConfirmations := Function.update s.waitingConfirmations a.publishingId none }
        (.callback a w answers)
  | call {a : Answer} {w : ProducerMessageWaiter} {answers : List Answer}
      (hτ : τ = .callback a w answers) :
      Assigns s τ { s with invocations := s.invocations ++ [(w.cb, a.status w.msg)] }
        (.handle answers)

@[simp] theorem finish_messages (owner : Owner) (ok : Bool) : (owner.finish ok).messages = [] := by
  cases owner <;> rfl

theorem move_assigns {cfg : Config} {s s' : Shared} {τ τ' : Task} (h : Move cfg s τ s' τ') :
    Assigns s τ s' τ' := by
  cases h with
  | sendDraw | batchDraw => exact .choose rfl rfl rfl rfl rfl
  | sendRegister | batchRegister => exact .insert rfl rfl rfl rfl
  | take hw => exact .take rfl hw
  | call => exact .call rfl
  | @releaseNone owner =>
    refine .quiet rfl rfl rfl rfl rfl (owner.finish_held true) (owner.finish_inCall true) ?_
    rw [finish_messages]
    exact Multiset.zero_le _
  | sendRefused | batchRefused =>
    exact .quiet rfl rfl rfl rfl rfl rfl rfl (Multiset.zero_le _)
  | _ => exact .quiet rfl rfl rfl rfl rfl rfl rfl le_rfl

/-! ## 2. Choices

One run.  The ids that have been chosen and not registered yet are held by the tasks; `Fresh`
says that they are different and that none of them is in the map.  A choice that is fresh keeps
this, and then the insertion that follows it replaces nobody. -/

/-- The step inserts no waiter in the place of another one. -/
def NotReplacing (s : State) : Event → Prop
  | .move t => ∀ τ ∈ s.tasks[t]?, ∀ id ∈ τ.held, s.shared.waitingConfirmations id = none
  | _ => True

/-- An id that is chosen is not in the map, and not chosen for a message on its way there. -/
def FreshChoice (s : State) : Event → Prop
  | .move t => ∀ τ ∈ s.tasks[t]?, ∀ m ∈ τ.choosing,
    (s.shared.draw m).2 ∉ gather Task.held s.tasks ∧
      s.shared.waitingConfirmations (s.shared.draw m).2 = none
  | _ => True

/-- A waiter that was put into the map is still there, or an answer has taken it out and it is
called with that answer, or has been. -/
def Kept (s : State) : Prop :=
  ∀ id w, (id, w) ∈ s.shared.registrations → s.shared.waitingConfirmations id = some w ∨
    ∃ a : Answer, a.publishingId = id ∧ ((a, w) ∈ gather Task.inCall s.tasks ∨
      (w.cb, a.status w.msg) ∈ s.shared.invocations)

/-- The chosen ids are different, and none of them is in the map. -/
structure Fresh (s : State) : Prop where
  nodup : (gather Task.held s.tasks).Nodup
  free : ∀ id ∈ gather Task.held s.tasks, s.shared.waitingConfirmations id = none
  kept : Kept s

theorem fresh_init (first : UInt64) : Fresh (init first) := by
  refine ⟨?_, ?_, ?_⟩ <;> simp [init, Task.held, Kept]

theorem Fresh.notReplacing {s : State} (hf : Fresh s) (e : Event) : NotReplacing s e := by
  cases e with
  | move t => exact fun τ ht id hid => hf.free id (mem_gather_of_getElem? Task.held ht hid)
  | _ => trivial

/-- A task is begun, or one moves, that has nothing to do with ids and waiters. -/
theorem fresh_same {s s' : State} (hf : Fresh s)
    (hwait : s'.shared.waitingConfirmations = s.shared.waitingConfirmations)
    (hreg : s'.shared.registrations = s.shared.registrations)
    (hinv : s'.shared.invocations = s.shared.invocations)
    (hheld : gather Task.held s'.tasks = gather Task.held s.tasks)
    (hcall : gather Task.inCall s'.tasks = gather Task.inCall s.tasks) : Fresh s' := by
  refine ⟨hheld ▸ hf.nodup, fun id hid => ?_, fun id w hmem => ?_⟩
  · rw [hwait]
    exact hf.free id (hheld ▸ hid)
  · rw [hwait, hinv, hcall]
    exact hf.kept id w (hreg ▸ hmem)

/-- A choice brings an id that the condition says is new; a registration moves it from the hands of
the task into the map; and an answer takes a waiter out, which is kept with the call. -/
theorem fresh_move {s : State} (hf : Fresh s) {t : ℕ} {τ τ' : Task} {sh : Shared}
    (hchoice : FreshChoice s (.move t)) (ht : s.tasks[t]? = some τ)
    (h : Assigns s.shared τ sh τ') : Fresh ⟨sh, s.tasks.set t τ'⟩ := by
  cases h with
  | quiet hwait hreg hinv hseq hdrawn hheld hcall hm =>
    exact fresh_same hf hwait hreg hinv (gather_set_eq _ ht hheld) (gather_set_eq _ ht hcall)
  | @choose m τ' hc hheld hheld' hcall hm =>
    obtain ⟨hnew, hfree⟩ := hchoice τ ht m hc
    have hgather : gather Task.held (s.tasks.set t τ') =
        (s.shared.draw m).2 ::ₘ gather Task.held s.tasks :=
      gather_set_take Task.held ht (by rw [hheld', hheld, Multiset.cons_zero])
    obtain ⟨hwait, -, -⟩ := draw_frame s.shared m
    obtain ⟨hreg, hinv⟩ := draw_records s.shared m
    refine ⟨?_, fun id hid => ?_, fun id w hmem => ?_⟩
    · simp only [hgather]
      exact Multiset.nodup_cons.mpr ⟨hnew, hf.nodup⟩
    · simp only [hgather, Multiset.mem_cons] at hid
      simp only [hwait]
      rcases hid with rfl | hid
      · exact hfree
      · exact hf.free id hid
    · simp only [hreg] at hmem
      simp only [hwait, hinv, gather_set_eq _ ht hcall]
      exact hf.kept id w hmem
  | @insert id w τ' hheld hheld' hcall hm =>
    have hgather : gather Task.held s.tasks = id ::ₘ gather Task.held (s.tasks.set t τ') :=
      gather_set_give Task.held ht (by rw [hheld, hheld', Multiset.cons_zero])
    have hnodup := hf.nodup
    rw [hgather, Multiset.nodup_cons] at hnodup
    have hfree : s.shared.waitingConfirmations id = none := by
      refine hf.free id ?_
      rw [hgather]
      exact Multiset.mem_cons_self id _
    refine ⟨hnodup.2, fun id' hid' => ?_, fun id' w' hmem => ?_⟩
    · have hne : id' ≠ id := fun heq => hnodup.1 (heq ▸ hid')
      show Function.update s.shared.waitingConfirmations id (some w) id' = none
      rw [Function.update_of_ne hne]
      exact hf.free id' (by rw [hgather]; exact Multiset.mem_cons_of_mem hid')
    · simp only [Shared.register, gather_set_eq _ ht hcall]
      rcases List.mem_append.mp hmem with hmem | hmem
      · -- a waiter that is in the map is under another id
        refine (hf.kept id' w' hmem).imp_left fun hw' => ?_
        have hne : id' ≠ id := by
          rintro rfl
          rw [hfree] at hw'
          exact absurd hw' (by simp)
        rwa [Function.update_of_ne hne]
      · obtain ⟨rfl, rfl⟩ := Prod.mk.inj (List.mem_singleton.mp hmem)
        exact Or.inl (Function.update_self ..)
  | @take a w answers hτ hw =>
    subst hτ
    have hcall : gather Task.inCall (s.tasks.set t (.callback a w answers)) =
        (a, w) ::ₘ gather Task.inCall s.tasks := gather_set_take Task.inCall ht rfl
    have hheld : gather Task.held (s.tasks.set t (.callback a w answers)) =
        gather Task.held s.tasks := gather_set_eq _ ht rfl
    refine ⟨hheld ▸ hf.nodup, fun id hid => ?_, fun id w' hmem => ?_⟩
    · simp only [Function.update_apply]
      split
      · rfl
      · exact hf.free id (hheld ▸ hid)
    · simp only [Function.update_apply, hcall, Multiset.mem_cons]
      rcases hf.kept id w' hmem with hw' | ⟨b, hb, hcalled⟩
      · split
        · rename_i hid
          subst hid
          rw [hw, Option.some.injEq] at hw'
          exact Or.inr ⟨a, rfl, Or.inl (Or.inl (by rw [hw']))⟩
        · exact Or.inl hw'
      · exact Or.inr ⟨b, hb, hcalled.imp_left Or.inr⟩
  | @call a w answers hτ =>
    subst hτ
    have hcall : gather Task.inCall s.tasks =
        (a, w) ::ₘ gather Task.inCall (s.tasks.set t (.handle answers)) :=
      gather_set_give Task.inCall ht rfl
    have hheld : gather Task.held (s.tasks.set t (.handle answers)) =
        gather Task.held s.tasks := gather_set_eq _ ht rfl
    refine ⟨hheld ▸ hf.nodup, fun id hid => hf.free id (hheld ▸ hid), fun id w' hmem => ?_⟩
    simp only [List.mem_append, List.mem_singleton]
    refine (hf.kept id w' hmem).imp_right ?_
    rintro ⟨b, hb, hcalled⟩
    rw [hcall, Multiset.mem_cons] at hcalled
    refine ⟨b, hb, ?_⟩
    rcases hcalled with (heq | hin) | hinv
    · obtain ⟨rfl, rfl⟩ := Prod.mk.inj heq
      exact Or.inr (Or.inr rfl)
    · exact Or.inl hin
    · exact Or.inr (Or.inl hinv)

theorem fresh_step {cfg : Config} {s s' : State} {e : Event} (hchoice : FreshChoice s e)
    (hf : Fresh s) (h : step cfg s e = some s') : Fresh s' := by
  cases e with
  | send cb m | batchSend cb ms | close | confirm ids | error errs =>
    cases h
    refine fresh_same hf rfl rfl rfl ?_ ?_ <;>
      simp [State.spawn, State.receive, Task.held, Task.inCall]
  | move t =>
    obtain ⟨τ, sh, τ', ht, hmove, rfl⟩ := step_move h
    exact fresh_move hf hchoice ht (move_assigns hmove)
  | publish t result =>
    obtain ⟨owner, messages, ht, rfl⟩ := step_publish h
    obtain ⟨-, -, hreg, -⟩ := write_frame result s.shared (cfg.frame messages)
    obtain ⟨hwait, hinv⟩ := write_waiters result s.shared (cfg.frame messages)
    exact fresh_same hf hwait hreg hinv (gather_set_eq _ ht (owner.finish_held _))
      (gather_set_eq _ ht (owner.finish_inCall _))

/-! ## 3. All the ids of a run

All runs with given messages.  The ids that a run will use depend on its order only in which
message gets which: those that the messages bring, and as many of the sequence as there are
messages without one.  The multiset of these, with the ones already used, can lose members and
gains none. -/

/-- What a caller sends. -/
def Event.messages : Event → List Message
  | .send _ m => [m]
  | .batchSend _ ms => ms
  | _ => []

/-- The ids that messages will have when `drawn` ids have been drawn: those they bring, and for the
others the next ones of the sequence. -/
def comingIds (first : UInt64) (drawn : ℕ) (ms : Multiset Message) : Multiset UInt64 :=
  ms.filterMap Message.publishingId +
    (Multiset.range (ms.countP fun m => m.publishingId = none)).map
      fun k => first + UInt64.ofNat (drawn + k)

theorem comingIds_mono (first : UInt64) (drawn : ℕ) {ms ms' : Multiset Message} (h : ms ≤ ms') :
    comingIds first drawn ms ≤ comingIds first drawn ms' :=
  add_le_add (Multiset.filterMap_le_filterMap _ h)
    (Multiset.map_le_map (Multiset.range_le.mpr (Multiset.countP_le_of_le _ h)))

/-- A message gets the first of the ids that are coming. -/
theorem comingIds_cons {s : Shared} {first : UInt64} (m : Message) (ms : Multiset Message)
    (hseq : s.publishSequence = first + UInt64.ofNat s.drawn) :
    comingIds first s.drawn (m ::ₘ ms) =
      (s.draw m).2 ::ₘ comingIds first (s.draw m).1.drawn ms := by
  unfold comingIds Shared.draw
  cases hm : m.publishingId with
  | some id =>
    rw [Multiset.filterMap_cons_some _ m ms hm, Multiset.countP_cons_of_neg
      (p := fun m : Message => m.publishingId = none) _ (by simp [hm]), Multiset.cons_add]
  | none =>
    have hshift : ∀ k, first + UInt64.ofNat (s.drawn + (1 + k)) =
        first + UInt64.ofNat (s.drawn + 1 + k) := fun k => by rw [← Nat.add_assoc]
    rw [Multiset.filterMap_cons_none m ms hm, Multiset.countP_cons_of_pos
      (p := fun m : Message => m.publishingId = none) _ hm, Nat.add_comm _ 1,
      Multiset.range_add, Multiset.map_add, Multiset.map_map]
    simp only [Function.comp_def, hshift, hseq]
    rw [add_left_comm]
    exact Multiset.singleton_add _ _

/-- The sequence says how many ids were drawn, and a waiter is under an id that was registered. -/
structure Numbered (first : UInt64) (s : State) : Prop where
  sequence : s.shared.publishSequence = first + UInt64.ofNat s.shared.drawn
  entries : ∀ id w, s.shared.waitingConfirmations id = some w →
    id ∈ s.shared.registrations.map Prod.fst

/-- The messages that have no id yet. -/
def Task.unnumbered (τ : Task) : Multiset Message := τ.messages

/-- The ids that are in use or have been, and those that are coming when `rest` is still to be
sent. -/
def State.allIds (first : UInt64) (s : State) (rest : List Message) : Multiset UInt64 :=
  ↑(s.shared.registrations.map Prod.fst) + gather Task.held s.tasks +
    comingIds first s.shared.drawn (gather Task.unnumbered s.tasks + rest)

theorem numbered_init (first : UInt64) : Numbered first (init first) := by
  constructor <;> simp [init]

theorem draw_sequence {s : Shared} {first : UInt64} (m : Message)
    (hseq : s.publishSequence = first + UInt64.ofNat s.drawn) :
    (s.draw m).1.publishSequence = first + UInt64.ofNat (s.draw m).1.drawn := by
  unfold Shared.draw
  split
  · exact hseq
  · show s.publishSequence + 1 = first + UInt64.ofNat (s.drawn + 1)
    rw [hseq, UInt64.ofNat_add, UInt64.add_assoc]
    rfl

/-- A waiter is under an id that was registered, behind an insertion too. -/
theorem entries_register {s : Shared} {id : UInt64} {w : ProducerMessageWaiter}
    (h : ∀ id' w', s.waitingConfirmations id' = some w' → id' ∈ s.registrations.map Prod.fst) :
    ∀ id' w', (s.register id w).waitingConfirmations id' = some w' →
      id' ∈ (s.register id w).registrations.map Prod.fst := by
  intro id' w' hw'
  simp only [Shared.register, Function.update_apply, List.map_append] at hw' ⊢
  split at hw'
  · rename_i hid
    simp [hid]
  · exact List.mem_append_left _ (h id' w' hw')

/-- **No step adds to the ids that a run can use.** A choice moves an id from those that are coming
to those that are held, and a registration from there to those that are registered.  A message that
is given up takes its id with it. -/
theorem allIds_move {first : UInt64} {s : State} {t : ℕ} {τ τ' : Task} {sh : Shared}
    (hn : Numbered first s) (ht : s.tasks[t]? = some τ) (h : Assigns s.shared τ sh τ')
    (rest : List Message) : Numbered first ⟨sh, s.tasks.set t τ'⟩ ∧
      State.allIds first ⟨sh, s.tasks.set t τ'⟩ rest ≤ s.allIds first rest := by
  cases h with
  | quiet hwait hreg hinv hseq hdrawn hheld hcall hm =>
    refine ⟨⟨?_, ?_⟩, ?_⟩
    · rw [hseq, hdrawn]
      exact hn.sequence
    · rw [hwait, hreg]
      exact hn.entries
    · simp only [State.allIds, hreg, hdrawn, gather_set_eq _ ht hheld]
      gcongr
      exact comingIds_mono _ _ (add_le_add_left (gather_set_le Task.unnumbered ht hm) _)
  | @choose m τ' hc hheld hheld' hcall hm =>
    obtain ⟨hwait, -, -⟩ := draw_frame s.shared m
    obtain ⟨hreg, -⟩ := draw_records s.shared m
    have hgather : gather Task.held (s.tasks.set t τ') =
        (s.shared.draw m).2 ::ₘ gather Task.held s.tasks :=
      gather_set_take Task.held ht (by rw [hheld', hheld, Multiset.cons_zero])
    have hmessages : gather Task.unnumbered s.tasks =
        m ::ₘ gather Task.unnumbered (s.tasks.set t τ') :=
      gather_set_give Task.unnumbered ht (by rw [Task.unnumbered, hm]; rfl)
    refine ⟨⟨draw_sequence m hn.sequence, ?_⟩, le_of_eq ?_⟩
    · rw [hwait, hreg]
      exact hn.entries
    · simp only [State.allIds, hreg, hgather, hmessages]
      rw [Multiset.cons_add, comingIds_cons m _ hn.sequence, Multiset.add_cons, Multiset.add_cons,
        Multiset.cons_add]
  | @insert id w τ' hheld hheld' hcall hm =>
    have hgather : gather Task.held s.tasks = id ::ₘ gather Task.held (s.tasks.set t τ') :=
      gather_set_give Task.held ht (by rw [hheld, hheld', Multiset.cons_zero])
    have hmessages : gather Task.unnumbered (s.tasks.set t τ') = gather Task.unnumbered s.tasks :=
      gather_set_eq _ ht (congrArg (fun l : List Message => (l : Multiset Message)) hm)
    refine ⟨⟨hn.sequence, entries_register hn.entries⟩, le_of_eq ?_⟩
    · simp only [State.allIds, Shared.register, hmessages, hgather, List.map_append,
        List.map_singleton, ← Multiset.coe_add, Multiset.coe_singleton, Multiset.add_cons,
        Multiset.cons_add]
      rw [← Multiset.singleton_add]
      ac_rfl
  | @take a w answers hτ hw =>
    subst hτ
    refine ⟨⟨hn.sequence, fun id w' hw' => ?_⟩, le_of_eq ?_⟩
    · simp only [Function.update_apply] at hw'
      split at hw'
      · exact absurd hw' (by simp)
      · exact hn.entries id w' hw'
    · simp only [State.allIds, gather_set_eq Task.held ht (show Task.held (.callback a w answers) =
        Task.held (.handle (a :: answers)) from rfl), gather_set_eq Task.unnumbered ht
        (show Task.unnumbered (.callback a w answers) = Task.unnumbered (.handle (a :: answers))
          from rfl)]
  | @call a w answers hτ =>
    subst hτ
    refine ⟨⟨hn.sequence, hn.entries⟩, le_of_eq ?_⟩
    simp only [State.allIds, gather_set_eq Task.held ht (show Task.held (.handle answers) =
      Task.held (.callback a w answers) from rfl), gather_set_eq Task.unnumbered ht
      (show Task.unnumbered (.handle answers) = Task.unnumbered (.callback a w answers) from rfl)]

theorem allIds_step {cfg : Config} {first : UInt64} {s s' : State} {e : Event}
    (hn : Numbered first s) (h : step cfg s e = some s') (rest : List Message) :
    Numbered first s' ∧ s'.allIds first rest ≤ s.allIds first (e.messages ++ rest) := by
  cases e with
  | send cb m | batchSend cb ms | close | confirm ids | error errs =>
    cases h
    refine ⟨⟨hn.sequence, hn.entries⟩, le_of_eq ?_⟩
    simp only [State.allIds, State.spawn, State.receive, gather_snoc, Task.held, Task.unnumbered,
      Task.messages, Event.messages, add_zero, ← Multiset.coe_add]
    simp [add_assoc]
  | move t =>
    obtain ⟨τ, sh, τ', ht, hmove, rfl⟩ := step_move h
    exact allIds_move hn ht (move_assigns hmove) rest
  | publish t result =>
    obtain ⟨owner, messages, ht, rfl⟩ := step_publish h
    obtain ⟨hseq, hdrawn, hreg, -⟩ := write_frame result s.shared (cfg.frame messages)
    obtain ⟨hwait, hinv⟩ := write_waiters result s.shared (cfg.frame messages)
    refine allIds_move hn ht (.quiet hwait hreg hinv hseq hdrawn (owner.finish_held _)
      (owner.finish_inCall _) ?_) rest
    rw [finish_messages]
    exact Multiset.zero_le _

/-- A chosen id has not been registered if no id is used twice. -/
theorem notReplacing_of_nodup {first : UInt64} {s : State} {rest : List Message}
    (hn : Numbered first s) (hnodup : (s.allIds first rest).Nodup) (e : Event) :
    NotReplacing s e := by
  cases e with
  | move t =>
    intro τ ht id hid
    rw [State.allIds, Multiset.nodup_add, Multiset.nodup_add] at hnodup
    cases hw : s.shared.waitingConfirmations id with
    | none => rfl
    | some w =>
      exact absurd (mem_gather_of_getElem? Task.held ht hid)
        (Multiset.disjoint_left.mp hnodup.1.2.2 (hn.entries id w hw))
  | _ => trivial

theorem steps_notReplacing {cfg : Config} {first : UInt64} : ∀ {es : List Event} {s : State},
    Numbered first s → (s.allIds first (es.flatMap Event.messages)).Nodup →
      Steps (step cfg) NotReplacing s es := by
  intro es
  induction es with
  | nil =>
    intro s _ _
    trivial
  | cons e es ih =>
    intro s hn hnodup
    refine ⟨notReplacing_of_nodup hn hnodup e, fun s' he => ?_⟩
    obtain ⟨hn', hle⟩ := allIds_step hn he (es.flatMap Event.messages)
    exact ih hn' (Multiset.nodup_of_le hle hnodup)

/-! ## 4. A batch of all messages

The one run that the converse needs.  A batch registers its messages one after the other and
nothing is answered in between, so a waiter that is there stays there until another one takes
its id. -/

/-- The steps of task 1 from the head of the loop of `internal_batch_send` up to its end. -/
def registerAll (n : ℕ) : List Event := List.replicate (2 * n) (.move 1)

/-- While nobody answers every registered id has its waiter, behind an insertion too. -/
theorem waits_register {s : Shared} {id : UInt64} {w : ProducerMessageWaiter}
    (h : ∀ id' ∈ s.registrations.map Prod.fst, s.waitingConfirmations id' ≠ none) :
    ∀ id' ∈ (s.register id w).registrations.map Prod.fst,
      (s.register id w).waitingConfirmations id' ≠ none := by
  intro id' hid'
  simp only [Shared.register, List.map_append, List.map_singleton, List.mem_append,
    List.mem_singleton] at hid'
  simp only [Shared.register, Function.update_apply]
  split
  · simp
  · rename_i hne
    exact h id' (hid'.resolve_right hne)

/-- The two moves that choose the id of a message and put its waiter into the map. -/
theorem register_one {cfg : Config} {cb : Callback} {m : Message} {ms : List Message}
    {wrapped : List ClientMessage} {s : State} {es : List Event}
    (ht : s.tasks[1]? = some (.batchDraw cb (m :: ms) wrapped))
    (hsteps : Steps (step cfg) NotReplacing s (.move 1 :: .move 1 :: es)) :
    (s.shared.draw m).1.waitingConfirmations (s.shared.draw m).2 = none ∧
      Steps (step cfg) NotReplacing
        ⟨(s.shared.draw m).1.register (s.shared.draw m).2 ⟨cb, m⟩,
          s.tasks.set 1 (.batchDraw cb ms (wrapped ++ [cfg.wrap (s.shared.draw m).2 m]))⟩ es := by
  have hlt := (List.getElem?_eq_some_iff.mp ht).1
  have hchoose : step cfg s (.move 1) = some ⟨(s.shared.draw m).1,
      s.tasks.set 1 (.batchRegister cb m (s.shared.draw m).2 ms wrapped)⟩ := by
    simp only [step, ht, advance]
  have ht₁ : (s.tasks.set 1 (.batchRegister cb m (s.shared.draw m).2 ms wrapped))[1]? =
      some (.batchRegister cb m (s.shared.draw m).2 ms wrapped) := List.getElem?_set_self hlt
  have hinsert : step cfg ⟨(s.shared.draw m).1,
        s.tasks.set 1 (.batchRegister cb m (s.shared.draw m).2 ms wrapped)⟩ (.move 1) =
      some ⟨(s.shared.draw m).1.register (s.shared.draw m).2 ⟨cb, m⟩,
        s.tasks.set 1 (.batchDraw cb ms (wrapped ++ [cfg.wrap (s.shared.draw m).2 m]))⟩ := by
    simp only [step, ht₁, advance, List.set_set]
  obtain ⟨-, hsteps⟩ := hsteps
  obtain ⟨hnot, hsteps⟩ := hsteps _ hchoose
  exact ⟨hnot _ ht₁ _ (by simp [Task.held]), hsteps _ hinsert⟩

/-- If a batch replaces no waiter while nobody answers, its ids are all different.  By induction on
the messages.  The id of the next one is under no waiter when it is registered, and every id that is
registered has its waiter, so it is none of these. -/
theorem nodup_of_registerAll {cfg : Config} {first : UInt64} {cb : Callback} :
    ∀ {ms : List Message} {wrapped : List ClientMessage} {s : State},
      s.tasks[1]? = some (.batchDraw cb ms wrapped) → Numbered first s →
      (∀ id ∈ s.shared.registrations.map Prod.fst, s.shared.waitingConfirmations id ≠ none) →
      (s.shared.registrations.map Prod.fst).Nodup →
      Steps (step cfg) NotReplacing s (registerAll ms.length) →
      (↑(s.shared.registrations.map Prod.fst) + comingIds first s.shared.drawn ms).Nodup := by
  intro ms
  induction ms with
  | nil =>
    intro wrapped s _ _ _ hnodup _
    simpa [comingIds] using hnodup
  | cons m ms ih =>
    intro wrapped s ht hn hwaits hnodup hsteps
    obtain ⟨hwait, -, -⟩ := draw_frame s.shared m
    obtain ⟨hreg, -⟩ := draw_records s.shared m
    obtain ⟨hfree, hsteps⟩ := register_one ht hsteps
    rw [← hreg, ← hwait] at hwaits
    rw [← hreg] at hnodup ⊢
    have hids : ((s.shared.draw m).1.register (s.shared.draw m).2 ⟨cb, m⟩).registrations.map
        Prod.fst = (s.shared.draw m).1.registrations.map Prod.fst ++ [(s.shared.draw m).2] := by
      simp [Shared.register]
    have hnew : (s.shared.draw m).2 ∉ (s.shared.draw m).1.registrations.map Prod.fst :=
      fun hmem => hwaits _ hmem hfree
    have hrest := ih (List.getElem?_set_self (List.getElem?_eq_some_iff.mp ht).1)
      ⟨draw_sequence m hn.sequence, entries_register (hreg ▸ hwait ▸ hn.entries)⟩
      (waits_register hwaits) ?_ hsteps
    · simp only [hids, ← Multiset.coe_add, Multiset.coe_singleton] at hrest
      rw [← Multiset.cons_coe, comingIds_cons m ms hn.sequence, ← Multiset.singleton_add,
        ← add_assoc]
      exact hrest
    · rw [hids]
      exact List.nodup_append.mpr ⟨hnodup, List.nodup_singleton _,
        fun x hx y hy hxy => hnew (List.mem_singleton.mp hy ▸ hxy ▸ hx)⟩

/-! ## 5. Every run

Both parts of the rule.  In the second the messages are given and everything else is free: the
number and the kind of the calls, their order, and how they interleave. -/

/-- **When every message keeps its own waiter.**

A run in which each id is fresh when it is chosen replaces no waiter, and all along it every waiter
that was put into the map is there until its answer takes it out and calls it.

The messages `ms` can be sent in any way, in any order and by any number of calls at the same time,
and no waiter is ever replaced, exactly when the ids they bring and the ids that the sequence gives
to the others are all different. -/
theorem waiters_kept (cfg : Config) (first : UInt64) :
    (∀ es : List Event, Steps (step cfg) FreshChoice (init first) es →
      Steps (step cfg) NotReplacing (init first) es ∧ Along (step cfg) Kept (init first) es) ∧
    ∀ ms : List Message,
      (∀ es : List Event, (es.flatMap Event.messages).Perm ms →
        Steps (step cfg) NotReplacing (init first) es) ↔ (comingIds first 0 ms).Nodup := by
  refine ⟨fun es hfresh => ⟨?_, ?_⟩, fun ms => ⟨fun h => ?_, fun h es hperm => ?_⟩⟩
  · exact Steps.mono (fun s e s' hC hf he => fresh_step hC hf he)
      (fun s e hf _ => hf.notReplacing e) (fresh_init first) hfresh
  · exact Along.of_steps (fun s e s' hC hf he => fresh_step hC hf he) (fun s hf => hf.kept)
      (fresh_init first) hfresh
  · have hmessages : (Event.batchSend 0 ms :: .move 1 :: registerAll ms.length).flatMap
        Event.messages = ms := by
      simp [registerAll, Event.messages]
    obtain ⟨-, hsteps⟩ := h (.batchSend 0 ms :: .move 1 :: registerAll ms.length)
      (by rw [hmessages])
    obtain ⟨-, hsteps⟩ := hsteps _ rfl
    have hn : Numbered first ⟨(init first).shared, [.tick, .batchDraw 0 ms []]⟩ :=
      ⟨(numbered_init first).sequence, (numbered_init first).entries⟩
    have hnodup := nodup_of_registerAll rfl hn (by simp [init]) List.nodup_nil (hsteps _ rfl)
    simpa [init] using hnodup
  · refine steps_notReplacing (numbered_init first) ?_
    simpa [State.allIds, init, Task.held, Task.unnumbered, Task.messages,
      Multiset.coe_eq_coe.mpr hperm] using h

/-- A message that brings the id 0, and one that gets it. -/
def mixedSends (m : Message) : List Event :=
  [.send 7 { m with publishingId := some 0 }, .move 1, .move 1, .move 1,
    .send 8 m, .move 2, .move 2, .move 2]

/-- The callback of the first message is nowhere, and nobody has answered. -/
theorem explicitId_replaced : ∃ s s',
    run (step ⟨1, 100, 1, none⟩) (init 0) ((mixedSends { message := {} }).take 7) = some s ∧
    s.shared.waitingConfirmations 0 = some ⟨7, { publishingId := some 0, message := {} }⟩ ∧
    ¬ NotReplacing s (.move 2) ∧
    run (step ⟨1, 100, 1, none⟩) (init 0) (mixedSends { message := {} }) = some s' ∧
    s'.shared.waitingConfirmations 0 = some ⟨8, { message := {} }⟩ ∧
    s'.shared.answered = [] ∧ s'.shared.invocations = [] ∧ ¬ Kept s' := by
  refine ⟨_, _, rfl, rfl, fun hnot => ?_, rfl, rfl, rfl, rfl, fun hkept => ?_⟩
  · exact absurd (hnot _ rfl 0 (Multiset.mem_singleton_self 0)) (by decide +kernel)
  · rcases hkept 0 ⟨7, { publishingId := some 0, message := {} }⟩ (List.mem_cons_self ..) with
      hwait | ⟨a, -, hcall | hinv⟩
    · exact absurd hwait (by decide +kernel)
    · exact absurd hcall (Multiset.notMem_zero _)
    · exact absurd hinv List.not_mem_nil

end RabbitMqStream.Producer
