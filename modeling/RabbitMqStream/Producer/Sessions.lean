/-
# A named producer that is built again and again

A producer with a name asks the broker for the largest id stored under the name and goes on
behind it, so that a new session does not use an id of an earlier one.  The broker says 0 when
it has nothing under the name, but also when the only id it has is 0: the answer does not tell
the two apart, and `ProducerBuilder::build` takes 0 for "nothing".

So a first session that sends exactly one message, under the id 0, is followed by one that uses
the id 0 again (`sessions_disjoint_one_message`).  `sessions_disjoint_iff` says when this and
the end of the 64 bits are avoided: exactly when only one session sends anything, or the first
one that does sends at least two messages and all together send at most `2 ^ 64`.

**The argument.**  A session uses as many ids as it sends messages, one after the other from its
start (`mem_assigned_iff`).  So, while nothing wraps, what is stored after a session that has sent
something is an interval from 0 to some `n`, and the next session starts at `n`, unless `n` is 1:
the largest stored id is then 0, and the broker's answer is the one that it gives when it has
nothing.  The equivalence is an induction on the sessions with that interval as the state
(`separate_iff_of_stored`); sessions that send nothing change nothing.
-/
import Mathlib.Data.Set.BooleanAlgebra
import Mathlib.Order.CompletePartialOrder
import RabbitMqStream.Producer.Order

namespace RabbitMqStream.Producer

open Lts Protocol

/-! ## 1. Sessions

A session is a run of the producer from the sequence that the broker's answer gives it.  What
the broker has stored under the name is what all earlier sessions have used. -/

/-- `ProducerBuilder::build`: where the sequence of a named producer starts, from the answer to
`query_publisher_sequence`.  The addition wraps, as it does in a release build. -/
def firstSequence (sequence : UInt64) : UInt64 := if sequence = 0 then 0 else sequence + 1

/-- What the broker answers to `QueryPublisherSequence`, by the ids stored under the name: the
largest one, and 0 when there is none. -/
def Largest (stored : Set UInt64) (sequence : UInt64) : Prop :=
  (sequence ∈ stored ∧ ∀ id ∈ stored, id ≤ sequence) ∨ (stored = ∅ ∧ sequence = 0)

/-- A session: what the broker answered when it was built, what happened, and how it ended. -/
structure Session : Type where
  cfg : Config
  sequence : UInt64
  events : List Event
  final : State

namespace Session

/-- The ids that were assigned to messages. -/
def assigned (S : Session) : Set UInt64 :=
  { id | id ∈ S.final.ledger.held ∨ id ∈ S.final.ledger.ids }

/-- The number of messages that were sent. -/
def sent (S : Session) : ℕ := S.final.shared.drawn

/-- The session is built when `stored` is stored under the name, and no message in it has an id
of its own. -/
structure Valid (stored : Set UInt64) (S : Session) : Prop where
  answer : Largest stored S.sequence
  run : Lts.run (step S.cfg) (init (firstSequence S.sequence)) S.events = some S.final
  unnumbered : ∀ e ∈ S.events, e.Unnumbered

end Session

/-- One session after the other.  The broker accepts and stores every message. -/
def History : Set UInt64 → List Session → Prop
  | _, [] => True
  | stored, S :: rest => S.Valid stored ∧ History (stored ∪ S.assigned) rest

/-! ## 2. The ids of a session

The sequence is drawn from by one at a time and never set back, so the ids are an interval, on
the circle of the 64-bit numbers, from the start of the session on.  Its length is the number of
the messages, since a message draws one id and no message brings its own. -/

/-- Every id that was drawn is held or registered. -/
def Complete (first : UInt64) (s : State) : Prop :=
  ∀ k < s.shared.drawn, first + UInt64.ofNat k ∈ s.ledger.held ∨
    first + UInt64.ofNat k ∈ s.ledger.ids

/-- An id that has been assigned stays assigned.  A registration moves an id from those that are
held to those that are registered, and nothing takes one back. -/
theorem assigned_step {cfg : Config} {s s' : State} {e : Event} (hnone : NoExplicitIds s)
    (h : step cfg s e = some s') {id : UInt64} (hid : id ∈ s.ledger.held ∨ id ∈ s.ledger.ids) :
    id ∈ s'.ledger.held ∨ id ∈ s'.ledger.ids := by
  cases e with
  | send cb m | batchSend cb ms | close =>
    cases h
    rw [ledger_spawn s rfl rfl rfl]
    exact hid
  | confirm ids | error errs =>
    cases h
    simp only [State.ledger, State.receive, Ledger.ids, gather_snoc, Task.held, add_zero]
    exact hid
  | move t =>
    obtain ⟨τ, sh, τ', ht, hmove, rfl⟩ := step_move h
    cases move_effect (hnone τ (List.mem_of_getElem? ht)) hmove with
    | quiet hq =>
      rw [ledger_quiet ht hq]
      exact hid
    | draw hheld hheld' =>
      have hgather : gather Task.held (s.tasks.set t τ') = _ :=
        gather_set_take Task.held ht (by rw [hheld', hheld, Multiset.cons_zero])
      refine hid.imp_left fun hid => ?_
      show id ∈ gather Task.held (s.tasks.set t τ')
      rw [hgather]
      exact Multiset.mem_cons_of_mem hid
    | register hheld hheld' =>
      have hgather : s.ledger.held = _ ::ₘ gather Task.held (s.tasks.set t τ') :=
        gather_set_give Task.held ht (by rw [hheld, hheld', Multiset.cons_zero])
      simp only [State.ledger, Ledger.ids, Shared.register, List.map_append, List.mem_append,
        List.map_cons, List.map_nil, List.mem_singleton]
      rw [hgather, Multiset.mem_cons] at hid
      rcases hid with (hid | hid) | hid
      · exact Or.inr (Or.inr hid)
      · exact Or.inl hid
      · exact Or.inr (Or.inl hid)
    | take hτ | miss hτ | call hτ =>
      subst hτ
      refine hid.imp_left fun hid => ?_
      show id ∈ gather Task.held (s.tasks.set t _)
      rw [gather_set_eq Task.held ht]
      · exact hid
      · rfl
  | publish t result =>
    obtain ⟨owner, messages, ht, rfl⟩ := step_publish h
    have hgather := gather_set_eq Task.held ht (owner.finish_held (result = .ok))
    simp only [State.ledger, Ledger.ids, hgather,
      (write_frame result s.shared (cfg.frame messages)).2.2.1]
    exact hid

/-- A step draws no id, or the next one. -/
theorem drawn_cases {cfg : Config} {s s' : State} {e : Event} (hnone : NoExplicitIds s)
    (h : step cfg s e = some s') : s'.shared.drawn = s.shared.drawn ∨
      (s'.shared.drawn = s.shared.drawn + 1 ∧ s.shared.publishSequence ∈ s'.ledger.held) := by
  cases e with
  | send cb m | batchSend cb ms | close | confirm ids | error errs =>
    cases h
    exact Or.inl rfl
  | move t =>
    obtain ⟨τ, sh, τ', ht, hmove, rfl⟩ := step_move h
    cases move_effect (hnone τ (List.mem_of_getElem? ht)) hmove with
    | quiet hq => exact Or.inl hq.drawn
    | draw hheld hheld' =>
      refine Or.inr ⟨rfl, ?_⟩
      exact mem_gather_of_getElem? _ (getElem?_set_moved ht)
        (by rw [hheld']; exact Multiset.mem_singleton_self _)
    | register | take | miss | call => exact Or.inl rfl
  | publish t result =>
    obtain ⟨owner, messages, ht, rfl⟩ := step_publish h
    exact Or.inl (write_frame result s.shared (cfg.frame messages)).2.1

theorem complete_step {cfg : Config} {first : UInt64} {s s' : State} {e : Event}
    (hi : Inv first s) (hnone : NoExplicitIds s) (hc : Complete first s)
    (h : step cfg s e = some s') : Complete first s' := by
  intro k hk
  have hold : k < s.shared.drawn → first + UInt64.ofNat k ∈ s'.ledger.held ∨
      first + UInt64.ofNat k ∈ s'.ledger.ids := fun hk => assigned_step hnone h (hc k hk)
  rcases drawn_cases hnone h with heq | ⟨heq, hmem⟩
  · exact hold (by omega)
  · by_cases hlt : k < s.shared.drawn
    · exact hold hlt
    · obtain rfl : k = s.shared.drawn := by omega
      rw [← hi.sequence]
      exact Or.inl hmem

/-- **The ids of a session** are as many as it has sent messages, one after the other. -/
theorem mem_assigned_iff {stored : Set UInt64} {S : Session} (hS : S.Valid stored) (id : UInt64) :
    id ∈ S.assigned ↔ ∃ k < S.sent, id = firstSequence S.sequence + UInt64.ofNat k := by
  have hsteps : ∀ {es : List Event} {s : State}, (∀ e ∈ es, e.Unnumbered) →
      Steps (step S.cfg) (fun _ e => e.Unnumbered) s es := by
    intro es
    induction es with
    | nil => exact fun _ => trivial
    | cons e es ih =>
      intro s hes
      exact ⟨hes e List.mem_cons_self, fun s' _ => ih fun e' he' =>
        hes e' (List.mem_cons_of_mem e he')⟩
  obtain ⟨hi, -, hc⟩ := run_invariant_steps (P := fun u => Inv (firstSequence S.sequence) u ∧
    NoExplicitIds u ∧ Complete (firstSequence S.sequence) u)
    (fun u e u' hC hP hs => ⟨inv_step hP.1 hP.2.1 hs, noExplicitIds_step hC hP.2.1 hs,
      complete_step hP.1 hP.2.1 hP.2.2 hs⟩) (hsteps hS.unnumbered)
    ⟨inv_init _, by simp [NoExplicitIds, init, Task.messages], by simp [Complete, init]⟩ hS.run
  constructor
  · exact hi.drawn id
  · rintro ⟨k, hk, rfl⟩
    exact hc k hk

/-! ## 3. Where a session starts and how far it gets

From the answer 0 a session starts at 0, and from another one behind it.  The answer 0 is given
for nothing and for the id 0 alone, which is where the case of a single message comes in. -/

/-- The ids below a bound. -/
def below (n : ℕ) : Set UInt64 := { id | id.toNat < n }

@[simp] theorem mem_below {n : ℕ} {id : UInt64} : id ∈ below n ↔ id.toNat < n := Iff.rfl

theorem below_zero : below 0 = ∅ := by
  ext id
  simp

theorem toNat_add_ofNat {first : UInt64} {k : ℕ} (h : first.toNat + k < 2 ^ 64) :
    (first + UInt64.ofNat k).toNat = first.toNat + k := by
  rw [UInt64.toNat_add, UInt64.toNat_ofNat', Nat.mod_eq_of_lt (show k < 2 ^ 64 by omega),
    Nat.mod_eq_of_lt h]

/-- With nothing stored, or only the id 0, a session starts at 0. -/
theorem firstSequence_of_le_one {n : ℕ} {sequence : UInt64} (hn : n ≤ 1)
    (h : Largest (below n) sequence) : firstSequence sequence = 0 := by
  have hzero : sequence = 0 := by
    rcases h with ⟨hmem, -⟩ | ⟨-, h⟩
    · rw [mem_below] at hmem
      exact UInt64.toNat_inj.mp (by rw [UInt64.toNat_zero]; omega)
    · exact h
  rw [firstSequence, if_pos hzero]

/-- With the ids `0` to `n - 1` stored, two or more, a session starts at `n`. -/
theorem firstSequence_of_two_le {n : ℕ} {sequence : UInt64} (hn : 2 ≤ n) (hle : n ≤ 2 ^ 64)
    (h : Largest (below n) sequence) : firstSequence sequence = UInt64.ofNat n := by
  have hlast : UInt64.ofNat (n - 1) ∈ below n := by
    rw [mem_below, UInt64.toNat_ofNat', Nat.mod_eq_of_lt (by omega)]
    omega
  have hseq : sequence = UInt64.ofNat (n - 1) := by
    rcases h with ⟨hmem, hmax⟩ | ⟨hempty, -⟩
    · rw [mem_below] at hmem
      have hge := UInt64.le_iff_toNat_le.mp (hmax _ hlast)
      rw [UInt64.toNat_ofNat', Nat.mod_eq_of_lt (by omega)] at hge
      refine UInt64.toNat_inj.mp ?_
      rw [UInt64.toNat_ofNat', Nat.mod_eq_of_lt (by omega)]
      omega
    · rw [hempty] at hlast
      exact absurd hlast (Set.notMem_empty _)
  have hne : sequence ≠ 0 := by
    rintro rfl
    have hnat := congrArg UInt64.toNat hseq
    rw [UInt64.toNat_ofNat', Nat.mod_eq_of_lt (by omega), UInt64.toNat_zero] at hnat
    omega
  rw [firstSequence, if_neg hne, hseq]
  refine UInt64.toNat_inj.mp ?_
  rw [UInt64.toNat_add, UInt64.toNat_ofNat', UInt64.toNat_ofNat',
    Nat.mod_eq_of_lt (show n - 1 < 2 ^ 64 by omega), UInt64.toNat_one, Nat.sub_add_cancel (by omega)]

section Sessions

variable {stored : Set UInt64} {S : Session} {n : ℕ}

theorem assigned_of_sent_eq_zero (hS : S.Valid stored) (h : S.sent = 0) : S.assigned = ∅ := by
  ext id
  rw [mem_assigned_iff hS, h]
  simp

/-- The first session that sends anything uses the ids from 0 on. -/
theorem assigned_of_start_zero (hS : S.Valid stored) (hfirst : firstSequence S.sequence = 0) :
    S.assigned = below (min S.sent (2 ^ 64)) := by
  ext id
  rw [mem_assigned_iff hS, hfirst]
  constructor
  · rintro ⟨k, hk, rfl⟩
    rw [mem_below, UInt64.zero_add, UInt64.toNat_ofNat']
    have hmod := Nat.mod_le k (2 ^ 64)
    have hlt := Nat.mod_lt k (show 0 < 2 ^ 64 by omega)
    omega
  · intro hid
    rw [mem_below] at hid
    exact ⟨id.toNat, by omega, by rw [UInt64.zero_add, UInt64.ofNat_toNat]⟩

/-- A session that starts at `n` and does not wrap goes on where the earlier ones ended.  Without a
wrap the ids of the session are `n`, `n + 1` and so on up to `n + S.sent`, as numbers. -/
theorem below_union_assigned (hS : S.Valid stored) (hle : n + S.sent ≤ 2 ^ 64)
    (hfirst : firstSequence S.sequence = UInt64.ofNat n) :
    below n ∪ S.assigned = below (n + S.sent) ∧ Disjoint (below n) S.assigned := by
  have hmem : ∀ id, id ∈ S.assigned ↔ n ≤ id.toNat ∧ id.toNat < n + S.sent := by
    intro id
    rw [mem_assigned_iff hS, hfirst]
    have hlt := id.toNat_lt
    constructor
    · rintro ⟨k, hk, rfl⟩
      have hn : (UInt64.ofNat n).toNat = n := by
        rw [UInt64.toNat_ofNat', Nat.mod_eq_of_lt (by omega)]
      rw [toNat_add_ofNat (by omega), hn]
      omega
    · rintro ⟨hge, hlt'⟩
      refine ⟨id.toNat - n, by omega, UInt64.toNat_inj.mp ?_⟩
      have hn : (UInt64.ofNat n).toNat = n := by
        rw [UInt64.toNat_ofNat', Nat.mod_eq_of_lt (by omega)]
      rw [toNat_add_ofNat (by omega), hn]
      omega
  constructor
  · ext id
    rw [Set.mem_union, hmem, mem_below, mem_below]
    omega
  · rw [Set.disjoint_left]
    intro id hid hid'
    rw [mem_below] at hid
    have hge := ((hmem id).mp hid').1
    omega

/-- A session that uses the id 0 meets every earlier one that has sent anything. -/
theorem not_disjoint_of_zero (hn : 0 < n) (h : 0 ∈ S.assigned) :
    ¬ Disjoint (below n) S.assigned := by
  rw [Set.not_disjoint_iff]
  exact ⟨0, mem_below.mpr hn, h⟩

/-- A session that starts at `n` and wraps uses the id 0. -/
theorem zero_mem_assigned (hS : S.Valid stored) (hle : n ≤ 2 ^ 64) (hlt : 2 ^ 64 < n + S.sent)
    (hfirst : firstSequence S.sequence = UInt64.ofNat n) : 0 ∈ S.assigned := by
  rw [mem_assigned_iff hS, hfirst]
  refine ⟨2 ^ 64 - n, by omega, UInt64.toNat_inj.mp ?_⟩
  rw [← UInt64.ofNat_add, UInt64.toNat_ofNat', Nat.add_sub_cancel' hle, Nat.mod_self,
    UInt64.toNat_zero]

end Sessions

/-! ## 4. Every history

What is stored is an interval from 0 on, as long as nothing has wrapped and no session has
started again at 0.  The first session that breaks this meets an id that is stored. -/

/-- The sessions use different ids. -/
def Separate (sessions : List Session) : Prop :=
  sessions.Pairwise fun S T => Disjoint S.assigned T.assigned

/-- What the numbers of messages of the sessions have to be: only one session sends anything,
or the first that does sends at least two messages and all together at most `2 ^ 64`. -/
def Resumable : List ℕ → Prop
  | [] => True
  | 0 :: ns => Resumable ns
  | n :: ns => (∀ m ∈ ns, m = 0) ∨ (2 ≤ n ∧ n + ns.sum ≤ 2 ^ 64)

/-- The sessions that follow when the ids `0` to `n - 1` are stored.  By induction on the sessions.
One that sends goes on after the stored ids, and then the ids from `0` on are stored again when it
ends; or it starts at `0` or comes round to `0`, which is stored, and meets it. -/
theorem separate_iff_of_stored : ∀ (sessions : List Session) (n : ℕ), 0 < n → n ≤ 2 ^ 64 →
    History (below n) sessions →
    (Separate sessions ∧ (∀ S ∈ sessions, Disjoint (below n) S.assigned) ↔
      (∀ S ∈ sessions, S.sent = 0) ∨
        (2 ≤ n ∧ n + (sessions.map Session.sent).sum ≤ 2 ^ 64)) := by
  intro sessions
  induction sessions with
  | nil => simp [Separate]
  | cons S rest hind =>
    intro n hpos hle hhistory
    obtain ⟨hS, hrest⟩ := hhistory
    by_cases hzero : S.sent = 0
    · -- nothing happens in this session
      have hnone := assigned_of_sent_eq_zero hS hzero
      rw [hnone, Set.union_empty] at hrest
      have ih := hind n hpos hle hrest
      simp only [Separate, List.pairwise_cons, List.forall_mem_cons, hnone, Set.disjoint_empty,
        Set.empty_disjoint, List.map_cons, List.sum_cons, hzero, Nat.zero_add, true_and,
        implies_true] at ih ⊢
      exact ih
    · have hsome : ¬ ∀ T ∈ S :: rest, T.sent = 0 := fun h => hzero (h S List.mem_cons_self)
      rw [or_iff_right hsome]
      by_cases hgood : 2 ≤ n ∧ n + S.sent ≤ 2 ^ 64
      · have hfirst := firstSequence_of_two_le hgood.1 hle hS.answer
        obtain ⟨hunion, hdisj⟩ := below_union_assigned hS hgood.2 hfirst
        rw [hunion] at hrest
        have ih := hind (n + S.sent) (by omega) hgood.2 hrest
        have hboth : ∀ T : Session, Disjoint (below (n + S.sent)) T.assigned ↔
            Disjoint (below n) T.assigned ∧ Disjoint S.assigned T.assigned := by
          intro T
          rw [← hunion, Set.disjoint_union_left]
        have hall : (∀ T ∈ rest, T.sent = 0) → (rest.map Session.sent).sum = 0 := by
          intro h
          refine List.sum_eq_zero fun m hm => ?_
          obtain ⟨T, hT, rfl⟩ := List.mem_map.mp hm
          exact h T hT
        have hcount : (2 ≤ n ∧ n + ((S :: rest).map Session.sent).sum ≤ 2 ^ 64) ↔
            (∀ T ∈ rest, T.sent = 0) ∨
              (2 ≤ n + S.sent ∧ n + S.sent + (rest.map Session.sent).sum ≤ 2 ^ 64) := by
          rw [List.map_cons, List.sum_cons]
          constructor
          · exact fun h => Or.inr ⟨by omega, by omega⟩
          · rintro (h | h)
            · have := hall h
              exact ⟨hgood.1, by omega⟩
            · exact ⟨hgood.1, by omega⟩
        rw [hcount, ← ih]
        simp only [Separate, List.pairwise_cons, List.forall_mem_cons, hboth]
        constructor
        · rintro ⟨⟨h1, h2⟩, -, h3⟩
          exact ⟨h2, fun T hT => ⟨h3 T hT, h1 T hT⟩⟩
        · rintro ⟨h2, h3⟩
          exact ⟨⟨fun T hT => (h3 T hT).2, h2⟩, hdisj, fun T hT => (h3 T hT).1⟩
      · -- the id 0 is used again
        have hmem : 0 ∈ S.assigned := by
          by_cases htwo : 2 ≤ n
          · exact zero_mem_assigned hS hle (by omega)
              (firstSequence_of_two_le htwo hle hS.answer)
          · rw [assigned_of_start_zero hS (firstSequence_of_le_one (by omega) hS.answer)]
            rw [mem_below, UInt64.toNat_zero]
            omega
        have hmeets := not_disjoint_of_zero hpos hmem
        constructor
        · exact fun h => absurd (h.2 S List.mem_cons_self) hmeets
        · intro h
          rw [List.map_cons, List.sum_cons] at h
          exact absurd ⟨h.1, by omega⟩ hgood

/-- **When no id is used in two sessions**, for every history of a named producer: exactly when
only one session sends anything, or the first that does sends at least two messages and all
together send at most `2 ^ 64`.

Sessions in front that send nothing are skipped.  The first one that sends anything starts at 0,
and for those behind it the interval it has stored decides. -/
theorem sessions_disjoint_iff : ∀ sessions : List Session, History ∅ sessions →
    (sessions.Pairwise (fun S T => Disjoint S.assigned T.assigned) ↔
      Resumable (sessions.map Session.sent))
  | [], _ => by simp [Resumable]
  | S :: rest, ⟨hS, hrest⟩ => by
    have hstart : firstSequence S.sequence = 0 := by
      refine firstSequence_of_le_one (n := 0) (by omega) ?_
      rw [below_zero]
      exact hS.answer
    rw [Set.empty_union] at hrest
    rw [List.pairwise_cons, List.map_cons]
    by_cases hzero : S.sent = 0
    · have hnone := assigned_of_sent_eq_zero hS hzero
      rw [hnone] at hrest ⊢
      rw [hzero, Resumable, ← sessions_disjoint_iff rest hrest]
      simp
    · have hassigned := assigned_of_start_zero hS hstart
      rw [hassigned] at hrest ⊢
      have hiff := separate_iff_of_stored rest (min S.sent (2 ^ 64)) (by omega) (by omega) hrest
      have hresumable : Resumable (S.sent :: rest.map Session.sent) ↔
          (∀ m ∈ rest.map Session.sent, m = 0) ∨
            (2 ≤ S.sent ∧ S.sent + (rest.map Session.sent).sum ≤ 2 ^ 64) := by
        obtain ⟨k, hk⟩ := Nat.exists_eq_succ_of_ne_zero hzero
        rw [hk, Resumable]
        omega
      rw [hresumable, and_comm]
      refine hiff.trans ?_
      rw [List.forall_mem_map]
      constructor
      · rintro (h | ⟨h1, h2⟩)
        · exact Or.inl h
        · by_cases hbig : S.sent ≤ 2 ^ 64
          · exact Or.inr ⟨by omega, by omega⟩
          · refine Or.inl fun T hT => ?_
            have hsum : (rest.map Session.sent).sum = 0 := by omega
            exact List.sum_eq_zero_iff_forall_eq_nat.mp hsum _ (List.mem_map_of_mem hT)
      · rintro (h | ⟨h1, h2⟩)
        · exact Or.inl h
        · exact Or.inr ⟨by omega, by omega⟩

/-- A session that sends `n` messages in one batch. -/
def batchSession (n : ℕ) (sequence : UInt64) : Session :=
  let cfg : Config := ⟨1, 100, 1, none⟩
  let events : List Event := .batchSend 7 (List.replicate n { message := {} }) ::
    List.replicate (2 * n + 2) (.move 1) ++ [.publish 1 .ok]
  ⟨cfg, sequence, events,
    (run (step cfg) (init (firstSequence sequence)) events).getD (init 0)⟩

theorem largest_below {n : ℕ} {sequence : UInt64} (h : sequence.toNat + 1 = n) :
    Largest (below n) sequence := by
  refine Or.inl ⟨mem_below.mpr (by omega), fun id hid => ?_⟩
  rw [mem_below] at hid
  exact UInt64.le_iff_toNat_le.mpr (by omega)

/-- The rule at a session of two messages and one of one message. -/
theorem sessions_disjoint_iff_two_messages :
    [batchSession 2 0, batchSession 1 1].Pairwise
      (fun S T => Disjoint S.assigned T.assigned) := by
  have hfirst : (batchSession 2 0).Valid ∅ :=
    ⟨Or.inr ⟨rfl, rfl⟩, by rfl, by decide +kernel⟩
  have hassigned : (batchSession 2 0).assigned = below 2 :=
    assigned_of_start_zero hfirst rfl
  have hhistory : History ∅ [batchSession 2 0, batchSession 1 1] := by
    refine ⟨hfirst, ⟨?_, by rfl, by decide +kernel⟩, trivial⟩
    rw [hassigned, Set.empty_union]
    exact largest_below rfl
  exact (sessions_disjoint_iff _ hhistory).mpr (Or.inr (by decide +kernel))

/-- Two sessions of one message each: both use the id 0. -/
theorem sessions_disjoint_one_message :
    History ∅ [batchSession 1 0, batchSession 1 0] ∧
      ¬ [batchSession 1 0, batchSession 1 0].Pairwise
        (fun S T => Disjoint S.assigned T.assigned) := by
  have hfirst : (batchSession 1 0).Valid ∅ :=
    ⟨Or.inr ⟨rfl, rfl⟩, by rfl, by decide +kernel⟩
  have hassigned : (batchSession 1 0).assigned = below 1 :=
    assigned_of_start_zero hfirst rfl
  refine ⟨⟨hfirst, ⟨?_, hfirst.run, hfirst.unnumbered⟩, trivial⟩, fun h => ?_⟩
  · rw [hassigned, Set.empty_union]
    exact largest_below rfl
  · have hdisj := (List.pairwise_cons.mp h).1 _ List.mem_cons_self
    rw [hassigned] at hdisj
    have hzero : 0 ∈ below 1 := mem_below.mpr (by decide)
    exact Set.disjoint_left.mp hdisj hzero hzero

end RabbitMqStream.Producer
