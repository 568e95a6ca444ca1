/-
# Framing: items out of a stream that arrives in pieces

A decoder at the front of a buffer is called now and then: it may take an item off, or ask for
more, or refuse.  Between two calls more of the stream arrives, in pieces of any length.  What
comes out of that should be a matter of the stream alone.

A `Session` is any order of arrivals and calls.  It says nothing about when a call is made, so it
covers a loop that calls until it is asked to wait as well as one that calls once a piece.

* `Deframer.Steady`: an item is in the symbols it takes off, whatever follows them.
* `Deframer.Yields`: the items at the front of a stream, and what is left behind them.
* `Deframer.run_yields`: a session takes off what is at the front of what has arrived.
* `Deframer.Yields.comparable`: of two such lists one goes on where the other ends, so sessions over
  one stream agree (`Deframer.Yields.unique`).

**The argument.**  What is at the front of a stream does not depend on what is behind it
(`Yields.append`), so whatever a session has taken off at some time is at the front of all that
arrives in the end.  By induction on the session, its items and its buffer are then a
decomposition of what has arrived (`run_yields`).  Two decompositions of one stream take off the
same first item, hence the second, and so on: the shorter one is a beginning of the longer one.
-/
import Mathlib.Data.List.Induction
import RabbitMqStream.Wire.Reader

namespace Wire

/-- A decoder at the front of a buffer: what it answers, and the buffer it leaves. -/
abbrev Deframer (σ ε α : Type) : Type := List σ → Except ε (Option α) × List σ

/-- What happens to a buffer. -/
inductive Feed (σ : Type) : Type where
  | arrive (piece : List σ)
  | call

/-- A buffer, the items that were taken off it and the error that has ended it. -/
structure Session (σ ε α : Type) : Type where
  buffer : List σ := []
  items : List α := []
  failed : Option ε := none

/-- Everything that has arrived. -/
def arrived {σ : Type} : List (Feed σ) → List σ
  | [] => []
  | .arrive piece :: feeds => piece ++ arrived feeds
  | .call :: feeds => arrived feeds

theorem arrived_append {σ : Type} (feeds more : List (Feed σ)) :
    arrived (feeds ++ more) = arrived feeds ++ arrived more := by
  induction feeds with
  | nil => rfl
  | cons feed feeds ih =>
    cases feed with
    | arrive piece =>
      change piece ++ arrived (feeds ++ more) = _
      rw [ih, ← List.append_assoc]
      rfl
    | call => exact ih

namespace Deframer

variable {σ ε α : Type} (d : Deframer σ ε α)

/-- The items do not depend on what follows them, and nothing else is taken off. -/
structure Steady : Prop where
  item : ∀ {b r : List σ} {x : α}, d b = (.ok (some x), r) →
    ∀ s, d (b ++ s) = (.ok (some x), r ++ s)
  waits : ∀ {b r : List σ}, d b = (.ok none, r) → r = b
  refuses : ∀ {b r : List σ} {e : ε}, d b = (.error e, r) → r = b

/-! ## 1. What is at the front of a stream

A stream begins with some items when they can be taken off it one after the other.  Nothing is
said yet about when that happens: this is the yardstick that the sessions are measured with. -/

/-- The stream begins with these items, and this is left. -/
inductive Yields : List σ → List α → List σ → Prop where
  | nil {b : List σ} : Yields b [] b
  | cons {b r r' : List σ} {x : α} {xs : List α} :
      d b = (.ok (some x), r) → Yields r xs r' → Yields b (x :: xs) r'

/-- Nothing can be taken off here. -/
def Rests (b : List σ) : Prop := ∀ x r, d b ≠ (.ok (some x), r)

variable {d}

theorem Yields.trans {b r r' : List σ} {xs ys : List α} (h : d.Yields b xs r)
    (h' : d.Yields r ys r') : d.Yields b (xs ++ ys) r' := by
  induction h with
  | nil => exact h'
  | cons hx _ ih => exact .cons hx (ih h')

/-- What follows the stream is left with the rest. -/
theorem Yields.append (hd : d.Steady) {b r : List σ} {xs : List α} (h : d.Yields b xs r)
    (s : List σ) : d.Yields (b ++ s) xs (r ++ s) := by
  induction h with
  | nil => exact .nil
  | cons hx _ ih => exact .cons (hd.item hx s) ih

/-- **Of two ways to begin, one goes on where the other ends.** -/
theorem Yields.comparable {b r r' : List σ} {xs ys : List α} (h : d.Yields b xs r)
    (h' : d.Yields b ys r') :
    (∃ zs, ys = xs ++ zs ∧ d.Yields r zs r') ∨ ∃ zs, xs = ys ++ zs ∧ d.Yields r' zs r := by
  induction h generalizing ys with
  | nil => exact Or.inl ⟨ys, rfl, h'⟩
  | cons hx hrest ih =>
    cases h' with
    | nil => exact Or.inr ⟨_, rfl, .cons hx hrest⟩
    | cons hy hrest' =>
      obtain ⟨hxy, rfl⟩ := Prod.mk.inj (hx.symm.trans hy)
      obtain rfl := Option.some.inj (Except.ok.inj hxy)
      rcases ih hrest' with ⟨zs, rfl, hzs⟩ | ⟨zs, rfl, hzs⟩
      · exact Or.inl ⟨zs, rfl, hzs⟩
      · exact Or.inr ⟨zs, rfl, hzs⟩

theorem Yields.nil_of_rests {b r : List σ} {xs : List α} (h : d.Yields b xs r) (hb : d.Rests b) :
    xs = [] ∧ r = b := by
  cases h with
  | nil => exact ⟨rfl, rfl⟩
  | cons hx _ => exact absurd hx (hb _ _)

/-- A beginning behind which nothing can be taken off is the longest one. -/
theorem Yields.longest {b r r' : List σ} {xs ys : List α} (h : d.Yields b xs r) (hr : d.Rests r)
    (h' : d.Yields b ys r') : ∃ zs, xs = ys ++ zs ∧ d.Yields r' zs r := by
  rcases h.comparable h' with ⟨zs, rfl, hzs⟩ | hzs
  · obtain ⟨rfl, rfl⟩ := hzs.nil_of_rests hr
    exact ⟨[], by simp, .nil⟩
  · exact hzs

/-- **One stream**, taken off as far as it goes. -/
theorem Yields.unique {b r r' : List σ} {xs ys : List α} (h : d.Yields b xs r) (hr : d.Rests r)
    (h' : d.Yields b ys r') (hr' : d.Rests r') : xs = ys ∧ r = r' := by
  obtain ⟨zs, rfl, hzs⟩ := h.longest hr h'
  obtain ⟨rfl, rfl⟩ := hzs.nil_of_rests hr'
  exact ⟨by simp, rfl⟩

/-- A decoder of one item, called at the front of the buffer. -/
def ofReader (r : Reader σ ε α) : Deframer σ ε α := fun b =>
  match r b with
  | .ok (x, rest) => (.ok (some x), rest)
  | .error e => (.error e, b)

theorem yields_ofReader_cons {r : Reader σ ε α} {b rest : List σ} {x : α} {xs : List α} :
    (ofReader r).Yields b (x :: xs) rest ↔
      ∃ mid, r b = .ok (x, mid) ∧ (ofReader r).Yields mid xs rest := by
  have hitem : ∀ mid, ofReader r b = (.ok (some x), mid) ↔ r b = .ok (x, mid) := by
    intro mid
    rw [ofReader]
    rcases r b with e | ⟨y, mid'⟩ <;> simp
  constructor
  · intro h
    cases h with
    | cons hx hxs => exact ⟨_, (hitem _).mp hx, hxs⟩
  · rintro ⟨mid, hx, hxs⟩
    exact .cons ((hitem mid).mpr hx) hxs

/-! ## 2. Sessions

The buffer of a session is what has arrived without what was taken off.  An arrival makes both
longer at the same end, and a call takes an item off the one and adds it to the other, so the
relation between them is kept by either. -/

variable (d)

/-- One event of a session.  Behind an error nothing is called. -/
def feed (s : Session σ ε α) : Feed σ → Session σ ε α
  | .arrive piece => { s with buffer := s.buffer ++ piece }
  | .call =>
    if s.failed.isSome then s
    else
      match d s.buffer with
      | (.ok (some x), r) => { s with buffer := r, items := s.items ++ [x] }
      | (.ok none, r) => { s with buffer := r }
      | (.error e, r) => { s with buffer := r, failed := some e }

/-- A session from the empty buffer. -/
def run (feeds : List (Feed σ)) : Session σ ε α := feeds.foldl d.feed {}

theorem run_append (feeds more : List (Feed σ)) :
    d.run (feeds ++ more) = more.foldl d.feed (d.run feeds) := List.foldl_append

theorem run_snoc (feeds : List (Feed σ)) (feed : Feed σ) :
    d.run (feeds ++ [feed]) = d.feed (d.run feeds) feed := d.run_append feeds [feed]

variable {d}

/-- **A call**: it takes off the next item, or leaves everything as it is, or fails. -/
theorem feed_call_cases (hd : d.Steady) (s : Session σ ε α) (hs : s.failed = none) :
    (∃ x r, d s.buffer = (.ok (some x), r) ∧
        d.feed s .call = ⟨r, s.items ++ [x], none⟩) ∨
      ((d s.buffer).1 = .ok none ∧ d.feed s .call = s) ∨
        ∃ e, (d s.buffer).1 = .error e ∧ d.feed s .call = ⟨s.buffer, s.items, some e⟩ := by
  rw [feed, if_neg (by simp [hs])]
  rcases hcall : d s.buffer with ⟨(e | (_ | x)), r⟩
  · obtain rfl := hd.refuses hcall
    exact Or.inr (Or.inr ⟨e, rfl, rfl⟩)
  · obtain rfl := hd.waits hcall
    exact Or.inr (Or.inl ⟨rfl, rfl⟩)
  · exact Or.inl ⟨x, r, rfl, by rw [hs]⟩

theorem feed_of_failed {s : Session σ ε α} (h : s.failed ≠ none) : d.feed s .call = s :=
  if_pos (Option.isSome_iff_ne_none.mpr h)

/-- **The step.** -/
theorem feed_yields (hd : d.Steady) {b : List σ} {s : Session σ ε α}
    (h : d.Yields b s.items s.buffer) (feed : Feed σ) :
    d.Yields (b ++ arrived [feed]) (d.feed s feed).items (d.feed s feed).buffer := by
  cases feed with
  | arrive piece =>
    change d.Yields (b ++ (piece ++ [])) s.items (s.buffer ++ piece)
    rw [List.append_nil]
    exact h.append hd piece
  | call =>
    change d.Yields (b ++ []) _ _
    rw [List.append_nil]
    by_cases hfailed : s.failed = none
    · rcases feed_call_cases hd s hfailed with ⟨x, r, hx, hfeed⟩ | ⟨-, hfeed⟩ | ⟨e, -, hfeed⟩
      · rw [hfeed]
        exact h.trans (.cons hx .nil)
      · rwa [hfeed]
      · rwa [hfeed]
    · rwa [feed_of_failed hfailed]

/-- **The run**: a session has taken off what is at the front of what has arrived. -/
theorem run_yields (hd : d.Steady) (feeds : List (Feed σ)) :
    d.Yields (arrived feeds) (d.run feeds).items (d.run feeds).buffer := by
  induction feeds using List.reverseRecOn with
  | nil => exact .nil
  | append_singleton feeds feed ih =>
    rw [arrived_append, run_snoc]
    exact feed_yields hd ih feed

/-- A failure is final, and a session that has not failed has not failed before. -/
theorem failed_run_append {feeds : List (Feed σ)} (more : List (Feed σ))
    (h : (d.run feeds).failed ≠ none) :
    (d.run (feeds ++ more)).failed = (d.run feeds).failed := by
  induction more using List.reverseRecOn with
  | nil => rw [List.append_nil]
  | append_singleton more feed ih =>
    rw [← List.append_assoc, run_snoc]
    cases feed with
    | arrive piece => exact ih
    | call => rw [feed_of_failed (by rwa [ih]), ih]

/-- **A session fails at a call** that refuses what is in the buffer.  By induction on the session
from its end.  A failure stays, so the call is the last of the feeds, or it was found in the session
before. -/
theorem failed_run_iff (hd : d.Steady) {feeds : List (Feed σ)} {e : ε} :
    (d.run feeds).failed = some e ↔ ∃ before after, feeds = before ++ .call :: after ∧
      (d.run before).failed = none ∧ (d (d.run before).buffer).1 = .error e := by
  constructor
  · intro h
    induction feeds using List.reverseRecOn with
    | nil => cases h
    | append_singleton feeds feed ih =>
      rw [run_snoc] at h
      by_cases hfailed : (d.run feeds).failed = none
      · cases feed with
        | arrive piece =>
          have hsame : (d.run feeds).failed = some e := h
          rw [hfailed] at hsame
          cases hsame
        | call =>
          refine ⟨feeds, [], rfl, hfailed, ?_⟩
          rcases feed_call_cases hd _ hfailed with ⟨x, r, -, hfeed⟩ | ⟨-, hfeed⟩ | ⟨e', he, hfeed⟩
          · rw [hfeed] at h
            cases h
          · rw [hfeed, hfailed] at h
            cases h
          · rw [hfeed] at h
            obtain rfl := Option.some.inj h
            exact he
      · have hsame := failed_run_append [feed] hfailed
        rw [run_snoc] at hsame
        obtain ⟨before, after, rfl, hnone, he⟩ := ih (hsame.symm.trans h)
        exact ⟨before, after ++ [feed], by simp, hnone, he⟩
  · rintro ⟨before, after, rfl, hnone, he⟩
    have hcall : (d.run (before ++ [.call])).failed = some e := by
      rw [run_snoc]
      rcases feed_call_cases hd _ hnone with ⟨x, r, hx, -⟩ | ⟨hx, -⟩ | ⟨e', he', hfeed⟩
      · rw [hx] at he
        cases he
      · rw [hx] at he
        cases he
      · rw [hfeed, ← Except.error.inj (he'.symm.trans he)]
    have hrest := failed_run_append after (hcall ▸ Option.some_ne_none e)
    rw [List.append_assoc] at hrest
    exact hrest.trans hcall

end Deframer

end Wire
