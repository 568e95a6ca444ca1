/-
# A ledger of requests and answers

The bookkeeping that every client with asynchronous answers keeps, without the client: an id is
drawn for a request, a waiter is registered under the id, the request is published, the answer
comes back, the waiter is taken out of the map and called.  Ids, waiters and answers are
arbitrary types.

Nothing is said about who does these steps and what happens in between, so a concurrent client
refines the ledger step by step: each of its steps is a step here or changes nothing that the
ledger sees.

What the counterpart is trusted with is `Honest`: it answers what was published, and it answers
it once.  That a drawn id is a new one is a condition of the drawing step.

* `Ledger.Inv.step`: every step keeps the invariant.
* `Ledger.Inv.finds_waiter`: an answer that is still to be handled finds its waiter.
* `Ledger.Inv.called_nodup`: no id is called back twice.
* `Ledger.Inv.called_own`: a call goes to the waiter that was registered under the id.
* `Ledger.Spent.step`: a waiter that was called does not come back.

**The argument.**  The invariant counts: every answer that was given is to be handled, being
handled or handled, and the keys in these three places are all different.  Honesty says that the
answers' keys are different and published, and a published id has been registered.  A registered
id has its waiter in the map until an answer with its key is taken up.  Hence an answer that is
still to be handled finds the waiter, as no other answer can have taken it.
-/
import Mathlib.Algebra.Order.Group.Multiset
import Mathlib.Data.Multiset.UnionInter
import Mathlib.Data.Set.Basic
import Mathlib.Logic.Function.Basic

namespace Lts

variable {I W A : Type}

/-! ## 1. The ledger and its invariant

An id has three lives: drawn and not registered, registered with its waiter in the map,
answered.  The answers are kept in the place they have got to, and the ones that are being
handled or have been with the waiter that was found, so that nothing is forgotten and every
statement about the past is one about the ledger. -/

structure Ledger (I W A : Type) : Type where
  /-- Ids that are drawn and not registered yet. -/
  held : Multiset I
  /-- Everything that was ever registered. -/
  registered : List (I × W)
  /-- The map of the waiters. -/
  waiting : I → Option W
  published : Set I
  /-- Every answer so far. -/
  answered : List A
  /-- The answers that are still to be handled. -/
  todo : Multiset A
  /-- The answers whose waiter is out of the map and about to be called. -/
  inCall : Multiset (A × W)
  /-- The calls made, with the answers they were made for. -/
  called : List (A × W)

namespace Ledger

/-- The ledger before anything has happened. -/
def empty : Ledger I W A := ⟨0, [], fun _ => none, ∅, [], 0, 0, []⟩

def ids (L : Ledger I W A) : List I := L.registered.map Prod.fst

section Invariant

variable (key : A → I)

/-- The counterpart answers what was published, each id once. -/
structure Honest (L : Ledger I W A) : Prop where
  once : (L.answered.map key).Nodup
  published : ∀ a ∈ L.answered, key a ∈ L.published

structure Inv (L : Ledger I W A) : Prop where
  distinct : (L.held + L.ids).Nodup
  published : ∀ i ∈ L.published, i ∈ L.ids
  /-- Every answer is to be handled, being handled or handled. -/
  accounted : L.todo + L.inCall.map Prod.fst + (L.called.map Prod.fst : List A) = L.answered
  /-- A waiter stays in the map until its answer is taken up. -/
  kept : ∀ i w, (i, w) ∈ L.registered →
    (i ∉ L.answered.map key ∨ ∃ a ∈ L.todo, key a = i) → L.waiting i = some w
  own : ∀ i w, L.waiting i = some w → (i, w) ∈ L.registered
  inCall_own : ∀ a w, (a, w) ∈ L.inCall → (key a, w) ∈ L.registered
  called_own : ∀ a w, (a, w) ∈ L.called → (key a, w) ∈ L.registered

/-- An answer that has been taken up has left no waiter in the map. -/
def Spent (L : Ledger I W A) : Prop :=
  ∀ a w, (a, w) ∈ L.inCall ∨ (a, w) ∈ L.called → L.waiting (key a) = none

end Invariant

variable {key : A → I} {L L' : Ledger I W A}

theorem inv_empty : Inv key (empty : Ledger I W A) := by
  constructor <;> simp [empty, ids]

theorem spent_empty : Spent key (empty : Ledger I W A) := by
  intro a w _
  rfl

/-- An answer in any of the three places has been given. -/
theorem Inv.mem_answered (hi : Inv key L) {a : A}
    (h : a ∈ L.todo ∨ a ∈ L.inCall.map Prod.fst ∨ a ∈ L.called.map Prod.fst) :
    a ∈ L.answered := by
  rw [← Multiset.mem_coe, ← hi.accounted, Multiset.mem_add, Multiset.mem_add, Multiset.mem_coe]
  tauto

/-- An answer that has been given is in one of the three places. -/
theorem Inv.place_of_answered (hi : Inv key L) {a : A} (h : a ∈ L.answered) :
    a ∈ L.todo ∨ (∃ w, (a, w) ∈ L.inCall) ∨ ∃ w, (a, w) ∈ L.called := by
  rw [← Multiset.mem_coe, ← hi.accounted, Multiset.mem_add, Multiset.mem_add, Multiset.mem_coe,
    or_assoc] at h
  rcases h with htodo | hin | hcalled
  · exact Or.inl htodo
  · obtain ⟨⟨b, w⟩, hw, rfl⟩ := Multiset.mem_map.mp hin
    exact Or.inr (Or.inl ⟨w, hw⟩)
  · obtain ⟨⟨b, w⟩, hw, rfl⟩ := List.mem_map.mp hcalled
    exact Or.inr (Or.inr ⟨w, hw⟩)

/-- An id that is held has no registration. -/
theorem Inv.not_mem_ids (hi : Inv key L) {i : I} (h : i ∈ L.held) : i ∉ L.ids := by
  have hd := (Multiset.nodup_add.mp hi.distinct).2.2
  intro hmem
  exact Multiset.disjoint_left.mp hd h (Multiset.mem_coe.mpr hmem)

theorem mem_ids {i : I} {w : W} (h : (i, w) ∈ L.registered) : i ∈ L.ids :=
  List.mem_map.mpr ⟨(i, w), h, rfl⟩

/-- The answers in the three places have different keys. -/
theorem Inv.accounted_nodup (hi : Inv key L) (hh : Honest key L) :
    (Multiset.map key (L.todo + L.inCall.map Prod.fst +
      (L.called.map Prod.fst : List A))).Nodup := by
  rw [hi.accounted, Multiset.map_coe, Multiset.coe_nodup]
  exact hh.once

/-- The answer that is taken up is the only one with its key. -/
theorem Inv.key_not_mem_rest (hi : Inv key L) (hh : Honest key L) {a : A} {rest : Multiset A}
    (htodo : L.todo = a ::ₘ rest) : ∀ b ∈ rest, key b ≠ key a := by
  have hnodup := hi.accounted_nodup hh
  rw [htodo, Multiset.cons_add, Multiset.cons_add, Multiset.map_cons,
    Multiset.nodup_cons] at hnodup
  intro b hb heq
  refine hnodup.1 (Multiset.mem_map.mpr ⟨b, ?_, heq⟩)
  rw [Multiset.mem_add, Multiset.mem_add]
  exact Or.inl (Or.inl hb)

/-! ## 2. What the invariant gives

The statements that a user of the ledger wants.  All of them come from the one fact that the
keys of the answers in the three places are different: an answer that found no waiter would have
lost it to another one with the same key. -/

/-- **An answer that is still to be handled finds its waiter.** -/
theorem Inv.finds_waiter (hi : Inv key L) (hh : Honest key L) {a : A} (ha : a ∈ L.todo) :
    ∃ w, L.waiting (key a) = some w ∧ (key a, w) ∈ L.registered := by
  have hpub := hh.published a (hi.mem_answered (Or.inl ha))
  obtain ⟨⟨i, w⟩, hmem, hkey⟩ := List.mem_map.mp (hi.published _ hpub)
  simp only at hkey
  subst hkey
  exact ⟨w, hi.kept _ w hmem (Or.inr ⟨a, ha, rfl⟩), hmem⟩

/-- **No id is registered twice.** -/
theorem Inv.ids_nodup (hi : Inv key L) : L.ids.Nodup :=
  Multiset.coe_nodup.mp (Multiset.nodup_add.mp hi.distinct).2.1

/-- **No id is called back twice.** -/
theorem Inv.called_nodup (hi : Inv key L) (hh : Honest key L) :
    (L.called.map (fun c => key c.1)).Nodup := by
  have hnodup := hi.accounted_nodup hh
  rw [Multiset.map_add, Multiset.nodup_add, Multiset.map_coe, List.map_map,
    Multiset.coe_nodup] at hnodup
  exact hnodup.2.1

/-- An id that is just being called back has not been called back. -/
theorem Inv.inCall_not_called (hi : Inv key L) (hh : Honest key L) {a : A} {w : W}
    (h : (a, w) ∈ L.inCall) : key a ∉ L.called.map (fun c => key c.1) := by
  have hnodup := hi.accounted_nodup hh
  rw [Multiset.map_add, Multiset.nodup_add, Multiset.map_coe, List.map_map] at hnodup
  refine fun hmem => Multiset.disjoint_left.mp hnodup.2.2 ?_ (Multiset.mem_coe.mpr hmem)
  exact Multiset.mem_map_of_mem key
    (Multiset.mem_add.mpr (Or.inr (Multiset.mem_map_of_mem Prod.fst h)))

/-! ## 3. The steps

One lemma for each step.  Drawing needs that the id is a new one, and the honesty of the
counterpart is needed where an answer comes and where it is taken up: a second answer with the
same key would have nothing left to take.  The other steps need the invariant alone. -/

theorem Inv.draw (hi : Inv key L) {i : I} (hheld : i ∉ L.held) (hreg : i ∉ L.ids) :
    Inv key { L with held := i ::ₘ L.held } :=
  { hi with
    distinct := by
      show (i ::ₘ L.held + L.ids).Nodup
      rw [Multiset.cons_add, Multiset.nodup_cons, Multiset.mem_add, Multiset.mem_coe]
      exact ⟨fun h => h.elim hheld hreg, hi.distinct⟩ }

theorem Inv.answer (hi : Inv key L) {as : List A}
    (hh : Honest key { L with answered := L.answered ++ as, todo := L.todo + as }) :
    Inv key { L with answered := L.answered ++ as, todo := L.todo + as } :=
  { hi with
    accounted := by
      show L.todo + as + L.inCall.map Prod.fst + (L.called.map Prod.fst : List A) =
        ((L.answered ++ as : List A) : Multiset A)
      rw [← Multiset.coe_add, ← hi.accounted]
      ac_rfl
    kept := by
      intro i w hmem hcond
      have honce := hh.once
      rw [List.map_append, List.nodup_append] at honce
      refine hi.kept i w hmem ?_
      rcases hcond with hnot | ⟨a, ha, hka⟩
      · refine Or.inl fun h => hnot ?_
        rw [List.map_append, List.mem_append]
        exact Or.inl h
      · rcases Multiset.mem_add.mp ha with ha | ha
        · exact Or.inr ⟨a, ha, hka⟩
        · refine Or.inl fun h => ?_
          exact honce.2.2 i h (key a) (List.mem_map_of_mem (Multiset.mem_coe.mp ha)) hka.symm }

theorem Inv.call (hi : Inv key L) {a : A} {w : W} {rest : Multiset (A × W)}
    (hcall : L.inCall = (a, w) ::ₘ rest) :
    Inv key { L with inCall := rest, called := L.called ++ [(a, w)] } :=
  { hi with
    accounted := by
      show L.todo + rest.map Prod.fst + ((L.called ++ [(a, w)]).map Prod.fst : List A) =
        L.answered
      rw [← hi.accounted, hcall, Multiset.map_cons, List.map_append, ← Multiset.coe_add]
      simp only [List.map_cons, List.map_nil, Multiset.coe_singleton, Multiset.add_cons,
        Multiset.cons_add]
      rw [← Multiset.singleton_add]
      ac_rfl
    inCall_own := by
      intro b v hb
      refine hi.inCall_own b v ?_
      rw [hcall]
      exact Multiset.mem_cons_of_mem hb
    called_own := by
      intro b v hb
      rw [List.mem_append, List.mem_singleton] at hb
      rcases hb with hb | hb
      · exact hi.called_own b v hb
      · cases hb
        exact hi.inCall_own a w (by rw [hcall]; exact Multiset.mem_cons_self _ rest) }

section Steps

variable [DecidableEq I]

variable (key) in
inductive Step (L : Ledger I W A) : Ledger I W A → Prop where
  | draw (i : I) (hheld : i ∉ L.held) (hreg : i ∉ L.ids) : Step L { L with held := i ::ₘ L.held }
  | register {i : I} {w : W} {rest : Multiset I} (hheld : L.held = i ::ₘ rest) :
      Step L { L with
        held := rest
        registered := L.registered ++ [(i, w)]
        waiting := Function.update L.waiting i (some w) }
  | publish {is : Set I} (hreg : ∀ i ∈ is, i ∈ L.ids) :
      Step L { L with published := L.published ∪ is }
  | answer (as : List A) : Step L { L with answered := L.answered ++ as, todo := L.todo + as }
  | take {a : A} {w : W} {rest : Multiset A} (htodo : L.todo = a ::ₘ rest)
      (hw : L.waiting (key a) = some w) :
      Step L { L with
        todo := rest
        inCall := (a, w) ::ₘ L.inCall
        waiting := Function.update L.waiting (key a) none }
  | call {a : A} {w : W} {rest : Multiset (A × W)} (hcall : L.inCall = (a, w) ::ₘ rest) :
      Step L { L with inCall := rest, called := L.called ++ [(a, w)] }

/-- The id is held and so has no registration, and no answer either.  No other waiter is under
it. -/
theorem Inv.register (hi : Inv key L) {i : I} {w : W} {rest : Multiset I}
    (hheld : L.held = i ::ₘ rest) :
    Inv key { L with
      held := rest
      registered := L.registered ++ [(i, w)]
      waiting := Function.update L.waiting i (some w) } where
  distinct := by
    have hd := hi.distinct
    rw [hheld, Multiset.cons_add, ← Multiset.singleton_add, add_comm, add_assoc] at hd
    simpa only [ids, List.map_append, List.map_cons, List.map_nil, ← Multiset.coe_add,
      Multiset.coe_singleton] using hd
  published j hj := by simpa [ids] using Or.inl (hi.published j hj)
  accounted := hi.accounted
  kept := by
    intro j v hmem hcond
    rw [List.mem_append, List.mem_singleton] at hmem
    rcases hmem with hmem | hmem
    · have hne : j ≠ i := by
        rintro rfl
        exact hi.not_mem_ids (by rw [hheld]; exact Multiset.mem_cons_self j rest) (mem_ids hmem)
      show Function.update L.waiting i (some w) j = some v
      rw [Function.update_of_ne hne]
      exact hi.kept j v hmem hcond
    · cases hmem
      exact Function.update_self i (some w) L.waiting
  own := by
    intro j v hj
    simp only [Function.update_apply] at hj
    split at hj
    · rename_i heq
      cases hj
      rw [heq]
      simp
    · exact List.mem_append_left _ (hi.own j v hj)
  inCall_own a v h := List.mem_append_left _ (hi.inCall_own a v h)
  called_own a v h := List.mem_append_left _ (hi.called_own a v h)

/-- The waiter goes from the map to the call.  It is kept for every other id, and the one answer
that could still ask for it is the one that is taken up. -/
theorem Inv.take (hi : Inv key L) (hh : Honest key L) {a : A} {w : W} {rest : Multiset A}
    (htodo : L.todo = a ::ₘ rest) (hw : L.waiting (key a) = some w) :
    Inv key { L with
      todo := rest
      inCall := (a, w) ::ₘ L.inCall
      waiting := Function.update L.waiting (key a) none } :=
  { hi with
    accounted := by
      show rest + Multiset.map Prod.fst ((a, w) ::ₘ L.inCall) +
        (L.called.map Prod.fst : List A) = L.answered
      rw [← hi.accounted, htodo, Multiset.map_cons, Multiset.add_cons, Multiset.cons_add,
        Multiset.cons_add, Multiset.cons_add]
    kept := by
      intro i v hmem hcond
      have ha : a ∈ L.answered :=
        hi.mem_answered (Or.inl (by rw [htodo]; exact Multiset.mem_cons_self a rest))
      have hne : i ≠ key a := by
        rintro rfl
        rcases hcond with hnot | ⟨b, hb, hkb⟩
        · exact hnot (List.mem_map_of_mem ha)
        · exact hi.key_not_mem_rest hh htodo b hb hkb
      show Function.update L.waiting (key a) none i = some v
      rw [Function.update_of_ne hne]
      refine hi.kept i v hmem (hcond.imp id ?_)
      rintro ⟨b, hb, hkb⟩
      exact ⟨b, by rw [htodo]; exact Multiset.mem_cons_of_mem hb, hkb⟩
    own := by
      intro i v hi'
      simp only [Function.update_apply] at hi'
      split at hi'
      · exact absurd hi' (by simp)
      · exact hi.own i v hi'
    inCall_own := by
      intro b v hb
      rcases Multiset.mem_cons.mp hb with hb | hb
      · cases hb
        exact hi.own (key a) w hw
      · exact hi.inCall_own b v hb }

/-- **Every step keeps the invariant**, as long as the counterpart is honest. -/
theorem Inv.step (hi : Inv key L) (h : Step key L L') (hh : Honest key L') : Inv key L' := by
  cases h with
  | draw i hheld hreg => exact hi.draw hheld hreg
  | register hheld => exact hi.register hheld
  | publish hreg =>
    exact { hi with published := fun i hmem => hmem.elim (hi.published i) (hreg i) }
  | answer as => exact hi.answer hh
  | take htodo hw => exact hi.take ⟨hh.once, hh.published⟩ htodo hw
  | call hcall => exact hi.call hcall

/-- **No step puts a waiter back.** A waiter comes into the map with its registration only, and an
id that has been answered is registered already. -/
theorem Spent.step (hs : Spent key L) (hi : Inv key L) (h : Step key L L') : Spent key L' := by
  cases h with
  | draw i hheld hreg => exact hs
  | publish hreg => exact hs
  | answer as => exact hs
  | @register i w rest hheld =>
    intro a v ha
    have hown : (key a, v) ∈ L.registered := ha.elim (hi.inCall_own a v) (hi.called_own a v)
    have hne : key a ≠ i := by
      rintro rfl
      exact hi.not_mem_ids (by rw [hheld]; exact Multiset.mem_cons_self _ rest) (mem_ids hown)
    show Function.update L.waiting i (some w) (key a) = none
    rw [Function.update_of_ne hne]
    exact hs a v ha
  | @take b w rest htodo hw =>
    intro a v ha
    simp only [Function.update_apply]
    split
    · rfl
    · rename_i hne
      refine hs a v (ha.imp_left fun hin => ?_)
      rcases Multiset.mem_cons.mp hin with heq | hin
      · cases heq
        exact absurd rfl hne
      · exact hin
  | @call b w rest hcall =>
    intro a v ha
    refine hs a v ?_
    rw [hcall]
    rcases ha with hin | hin
    · exact Or.inl (Multiset.mem_cons_of_mem hin)
    · rcases List.mem_append.mp hin with hin | hin
      · exact Or.inr hin
      · rw [List.mem_singleton.mp hin]
        exact Or.inl (Multiset.mem_cons_self _ rest)

end Steps

end Ledger

end Lts
