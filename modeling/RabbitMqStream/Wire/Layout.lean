/-
# Layouts: what the fields of a frame are, without the values in them

A `Layout` describes a frame field by field: so many symbols here, a count there that says
how often the next group is repeated, a field whose content decides what comes next.
`Layout.walk` follows the description along an input and reports how far it gets.  A layout
returns no value; it is the independent account of where a frame's fields begin and end that
a decoder can be compared with.

Two kinds of field are told apart because decoders treat them differently when the input ends
inside them.  A `field` is read with a length check, so the decoder can say "incomplete".  A
`slice` is cut out of the input without one, so the decoder crashes.

* `Layout.walk_swap`: a walk that reaches the end of a frame has looked at the frame only.
* `Layout.walk_prefix`: cut a frame short anywhere and the walk stops at the cut, either as
  `short` or as `midSlice`.
* `Layout.walk_stuck`: a walk that ends anywhere else but at the end of the input or of the frame
  ends there whatever follows.
* `Follows`: a reader does what the layout says.  The rules of section 4 build this for a
  decoder from its parts, and each delivers `Reader.Local` on the way.
* `Layout.Reaches.walk_eq`: a walk stops exactly where it gets to a point it stops at.

**The argument.**  The three facts about walks are inductions on the layout, with one induction
more on the rounds of a repeated group.  Each of them follows the first part of a sequence and
then the second from where the first has ended, and a cut is in one of the two parts
(`prefix_append_cases`).  A reader follows its layout by the same structure: `Follows` has a rule
for each constructor, so that a decoder of many fields is compared with its layout by applying the
rules in the order of its lines.
-/
import RabbitMqStream.Wire.Reader

namespace Wire

variable {σ ε α β : Type}

/-! ## 1. Layouts and walks

A walk can be evaluated on a given frame, and what it answers says why it ends there: at the end
of the frame, at the end of the input (before a checked field, or inside a slice), or at
something that the decoder refuses or that makes it crash. -/

/-- The fields of a frame, in order. -/
inductive Layout (σ : Type) : Type where
  /-- Nothing. -/
  | empty
  /-- The decoder refuses the frame here. -/
  | reject
  /-- The decoder crashes here. -/
  | crash
  /-- Something nested in the frame, although complete, is itself cut short. -/
  | cut
  /-- `n` symbols read with a length check, and what follows them. -/
  | field (n : ℕ) (next : List σ → Layout σ)
  /-- `n` symbols cut out without a length check, and what follows them. -/
  | slice (n : ℕ) (next : List σ → Layout σ)
  /-- The same group `n` times. -/
  | repeated (n : ℕ) (item : Layout σ)
  /-- One part after another. -/
  | seq (first second : Layout σ)

/-- How far a walk gets. -/
inductive Walk (σ : Type) : Type where
  /-- To the end of the frame; `rest` is what follows it. -/
  | whole (rest : List σ)
  /-- The input ends in or before a length-checked field. -/
  | short
  /-- The input ends in or before a slice. -/
  | midSlice
  /-- At a nested item that is cut short. -/
  | cut
  | rejected
  | crashed
  deriving DecidableEq

/-- Walk one part `n` times. -/
def Walk.times (step : List σ → Walk σ) : ℕ → List σ → Walk σ
  | 0, b => .whole b
  | n + 1, b =>
    match step b with
    | .whole rest => Walk.times step n rest
    | w => w

/-- Follow a layout along an input. -/
def Layout.walk : Layout σ → List σ → Walk σ
  | .empty, b => .whole b
  | .reject, _ => .rejected
  | .crash, _ => .crashed
  | .cut, _ => .cut
  | .field n next, b => if b.length < n then .short else (next (b.take n)).walk (b.drop n)
  | .slice n next, b => if b.length < n then .midSlice else (next (b.take n)).walk (b.drop n)
  | .repeated n item, b => Walk.times item.walk n b
  | .seq first second, b =>
    match first.walk b with
    | .whole rest => second.walk rest
    | w => w

/-- The fields of a record. -/
def Layout.record : List (Layout σ) → Layout σ
  | [] => .empty
  | l :: ls => .seq l (record ls)

/-! ## 2. A walk looks at its own frame only

What a walk has passed over is a prefix of the input, and the same prefix is passed over in
front of anything else.  For a sequence the prefix of the whole has to be cut where the first
part ends, and `walk_drop_append` says that the cut is inside of it. -/

/-- A walk that gets to the end has passed over a prefix of the input. -/
theorem Walk.times_suffix {step : List σ → Walk σ}
    (h : ∀ b rest, step b = .whole rest → ∃ c, b = c ++ rest) :
    ∀ (n : ℕ) (b rest : List σ), Walk.times step n b = .whole rest → ∃ c, b = c ++ rest := by
  intro n
  induction n with
  | zero =>
    intro b rest hw
    simp only [Walk.times, Walk.whole.injEq] at hw
    exact ⟨[], hw⟩
  | succ n ih =>
    intro b rest hw
    simp only [Walk.times] at hw
    split at hw
    · rename_i mid hs
      obtain ⟨c, rfl⟩ := h b mid hs
      obtain ⟨d, rfl⟩ := ih mid rest hw
      exact ⟨c ++ d, (List.append_assoc c d rest).symm⟩
    · rename_i w hne
      exact absurd hw (hne rest)

theorem Layout.walk_suffix (l : Layout σ) : ∀ {b rest : List σ},
    l.walk b = .whole rest → ∃ c, b = c ++ rest := by
  induction l with
  | empty => intro b rest h; simp only [walk, Walk.whole.injEq] at h; exact ⟨[], h⟩
  | reject => intro b rest h; simp [walk] at h
  | crash => intro b rest h; simp [walk] at h
  | cut => intro b rest h; simp [walk] at h
  | field n next ih | slice n next ih =>
    intro b rest h
    simp only [walk] at h
    split at h
    · exact absurd h (by simp)
    · obtain ⟨c, hc⟩ := ih _ h
      exact ⟨b.take n ++ c, by rw [List.append_assoc, ← hc, List.take_append_drop]⟩
  | repeated n item ih =>
    intro b rest h
    exact Walk.times_suffix (fun _ _ hs => ih hs) n b rest h
  | seq first second ih1 ih2 =>
    intro b rest h
    simp only [walk] at h
    split at h
    · rename_i mid hs
      obtain ⟨c, rfl⟩ := ih1 hs
      obtain ⟨d, rfl⟩ := ih2 h
      exact ⟨c ++ d, (List.append_assoc c d rest).symm⟩
    · rename_i w hne
      exact absurd h (hne rest)

/-- A part of a frame that starts with `n` symbols lies inside what the walk uses: `n` is at
most the length of the used prefix, and the walk of what follows uses the rest of it. -/
theorem Layout.walk_drop_append {l : Layout σ} {n : ℕ} {c rest : List σ}
    (hlen : ¬ (c ++ rest).length < n) (h : l.walk ((c ++ rest).drop n) = .whole rest) :
    n ≤ c.length ∧ l.walk (c.drop n ++ rest) = .whole rest := by
  obtain ⟨d, hd⟩ := walk_suffix _ h
  have hle : n ≤ c.length := by
    have h1 := congrArg List.length hd
    simp only [List.length_drop, List.length_append] at h1 hlen
    omega
  rw [List.drop_append_of_le_length hle] at h
  exact ⟨hle, h⟩

/-- Where one part ends inside what two parts use together. -/
theorem append_split {c c1 mid c2 rest : List σ} (h : c ++ rest = c1 ++ mid)
    (hmid : mid = c2 ++ rest) : c = c1 ++ c2 := by
  rw [hmid, ← List.append_assoc] at h
  exact List.append_cancel_right h

theorem Walk.times_swap {step : List σ → Walk σ}
    (hsuf : ∀ b rest, step b = .whole rest → ∃ c, b = c ++ rest)
    (h : ∀ c rest, step (c ++ rest) = .whole rest → ∀ s, step (c ++ s) = .whole s) :
    ∀ (n : ℕ) (c rest : List σ), Walk.times step n (c ++ rest) = .whole rest →
      ∀ s, Walk.times step n (c ++ s) = .whole s := by
  intro n
  induction n with
  | zero =>
    intro c rest hw s
    simp only [Walk.times, Walk.whole.injEq, List.append_left_eq_self] at hw ⊢
    exact hw
  | succ n ih =>
    intro c rest hw s
    simp only [Walk.times] at hw
    split at hw
    · rename_i mid hs
      obtain ⟨c1, hc1⟩ := hsuf _ mid hs
      obtain ⟨c2, hc2⟩ := times_suffix hsuf n mid rest hw
      obtain rfl := append_split hc1 hc2
      subst hc2
      rw [List.append_assoc] at hs
      simp only [List.append_assoc, Walk.times, h c1 (c2 ++ rest) hs (c2 ++ s)]
      exact ih c2 rest hw s
    · rename_i w hne
      exact absurd hw (hne rest)

/-- **A walk looks at its own frame only**: what it passed over, in front of anything else, is
passed over again. -/
theorem Layout.walk_swap (l : Layout σ) : ∀ {c rest : List σ},
    l.walk (c ++ rest) = .whole rest → ∀ s, l.walk (c ++ s) = .whole s := by
  induction l with
  | empty =>
    intro c rest h s
    simp only [walk, Walk.whole.injEq, List.append_left_eq_self] at h ⊢
    exact h
  | reject => intro c rest h; simp [walk] at h
  | crash => intro c rest h; simp [walk] at h
  | cut => intro c rest h; simp [walk] at h
  | field n next ih | slice n next ih =>
    intro c rest h s
    simp only [walk] at h ⊢
    split at h
    · exact absurd h (by simp)
    · rename_i hlen
      obtain ⟨hle, h⟩ := walk_drop_append hlen h
      rw [if_neg (by rw [List.length_append]; omega), List.take_append_of_le_length hle,
        List.drop_append_of_le_length hle]
      rw [List.take_append_of_le_length hle] at h
      exact ih _ h s
  | repeated n item ih =>
    intro c rest h s
    exact Walk.times_swap (fun _ _ hs => walk_suffix item hs) (fun _ _ hs => ih hs) n c rest h s
  | seq first second ih1 ih2 =>
    intro c rest h s
    simp only [walk] at h ⊢
    split at h
    · rename_i mid hs
      obtain ⟨c1, hc1⟩ := walk_suffix first hs
      obtain ⟨c2, hc2⟩ := walk_suffix second h
      obtain rfl := append_split hc1 hc2
      subst hc2
      rw [List.append_assoc] at hs
      rw [List.append_assoc, ih1 hs (c2 ++ s)]
      exact ih2 h s
    · rename_i w hne
      exact absurd h (hne rest)

/-! ## 3. A frame cut short

A cut is in the first part of a sequence, where the induction applies, or behind all of it,
where the first part is passed over as before and the cut is in the second.  A field that is cut
is `short` and a slice that is cut is `midSlice`; nothing else can be stopped by a cut.  A walk
that has stopped for another reason is stuck: it stops there with more input too. -/

/-- The walk ends because the input does. -/
def Walk.Stops (w : Walk σ) : Prop := w = .short ∨ w = .midSlice

/-- A proper prefix of `c1 ++ c2` is a proper prefix of `c1`, or all of `c1` and a proper
prefix of `c2`. -/
theorem prefix_append_cases {p c1 c2 : List σ} (hp : p <+: c1 ++ c2) (hne : p ≠ c1 ++ c2) :
    (p <+: c1 ∧ p ≠ c1) ∨ ∃ q, p = c1 ++ q ∧ q <+: c2 ∧ q ≠ c2 := by
  rcases Nat.lt_or_ge p.length c1.length with hlt | hge
  · refine Or.inl ⟨List.prefix_of_prefix_length_le hp (List.prefix_append c1 c2)
      (Nat.le_of_lt hlt), ?_⟩
    rintro rfl
    exact Nat.lt_irrefl _ hlt
  · obtain ⟨q, rfl⟩ := List.prefix_of_prefix_length_le (List.prefix_append c1 c2) hp hge
    exact Or.inr ⟨q, rfl, (List.prefix_append_right_inj c1).mp hp, fun h => hne (by rw [h])⟩

theorem Walk.times_prefix {step : List σ → Walk σ}
    (hsuf : ∀ b rest, step b = .whole rest → ∃ c, b = c ++ rest)
    (hswap : ∀ c rest, step (c ++ rest) = .whole rest → ∀ s, step (c ++ s) = .whole s)
    (h : ∀ c p, step c = .whole [] → p <+: c → p ≠ c → (step p).Stops) :
    ∀ (n : ℕ) (c p : List σ), Walk.times step n c = .whole [] → p <+: c → p ≠ c →
      (Walk.times step n p).Stops := by
  intro n
  induction n with
  | zero =>
    intro c p hw hp hne
    simp only [Walk.times, Walk.whole.injEq] at hw
    subst hw
    exact absurd (List.prefix_nil.mp hp) hne
  | succ n ih =>
    intro c p hw hp hne
    simp only [Walk.times] at hw
    split at hw
    · rename_i mid hs
      obtain ⟨c1, rfl⟩ := hsuf c mid hs
      have hc1 : step c1 = .whole [] := by simpa using hswap c1 mid hs []
      rcases prefix_append_cases hp hne with ⟨hp1, hne1⟩ | ⟨q, rfl, hq, hneq⟩
      · rcases h c1 p hc1 hp1 hne1 with hstop | hstop
        · exact Or.inl (by simp only [Walk.times, hstop])
        · exact Or.inr (by simp only [Walk.times, hstop])
      · simp only [Walk.times, hswap c1 mid hs q]
        exact ih mid q hw hq hneq
    · rename_i w hw'
      exact absurd hw (hw' [])

/-- **A frame cut short stops the walk at the cut.** By induction on the layout.  Where a field is
cut the walk stops; where it is whole, it has the same content as in the frame, and the rest is a
cut of the rest. -/
theorem Layout.walk_prefix (l : Layout σ) : ∀ {c p : List σ},
    l.walk c = .whole [] → p <+: c → p ≠ c → (l.walk p).Stops := by
  induction l with
  | empty =>
    intro c p h hp hne
    simp only [walk, Walk.whole.injEq] at h
    subst h
    exact absurd (List.prefix_nil.mp hp) hne
  | reject => intro c p h; simp [walk] at h
  | crash => intro c p h; simp [walk] at h
  | cut => intro c p h; simp [walk] at h
  | field n next ih | slice n next ih =>
    intro c p h hp hne
    simp only [walk] at h ⊢
    split at h
    · exact absurd h (by simp)
    · split
      · simp [Walk.Stops]
      · rename_i hlen hlen'
        obtain ⟨s, rfl⟩ := hp
        rw [List.take_append_of_le_length (by omega),
          List.drop_append_of_le_length (by omega)] at h
        refine ih _ h (List.prefix_append _ s) (fun he => hne ?_)
        have hs := congrArg List.length he
        simp only [List.length_append] at hs
        rw [List.eq_nil_of_length_eq_zero (by omega : s.length = 0), List.append_nil]
  | repeated n item ih =>
    intro c p h hp hne
    exact Walk.times_prefix (fun _ _ hs => walk_suffix item hs)
      (fun _ _ hs => walk_swap item hs) (fun _ _ hs => ih hs) n c p h hp hne
  | seq first second ih1 ih2 =>
    intro c p h hp hne
    simp only [walk] at h ⊢
    split at h
    · rename_i mid hs
      obtain ⟨c1, rfl⟩ := walk_suffix first hs
      have hc1 : first.walk c1 = .whole [] := by simpa using walk_swap first hs []
      rcases prefix_append_cases hp hne with ⟨hp1, hne1⟩ | ⟨q, rfl, hq, hneq⟩
      · rcases ih1 hc1 hp1 hne1 with hstop | hstop
        · exact Or.inl (by simp only [hstop])
        · exact Or.inr (by simp only [hstop])
      · rw [walk_swap first hs q]
        exact ih2 h hq hneq
    · rename_i w hw
      exact absurd h (hw [])

/-- The walk ends at something that more input does not change. -/
def Walk.Stuck (w : Walk σ) : Prop := w = .cut ∨ w = .rejected ∨ w = .crashed

theorem Walk.times_stuck {step : List σ → Walk σ} {s : List σ}
    (hwhole : ∀ b rest, step b = .whole rest → step (b ++ s) = .whole (rest ++ s))
    (h : ∀ b, (step b).Stuck → step (b ++ s) = step b) :
    ∀ (n : ℕ) (b : List σ), (Walk.times step n b).Stuck →
      Walk.times step n (b ++ s) = Walk.times step n b := by
  intro n
  induction n with
  | zero =>
    intro b hb
    simp [Walk.times, Walk.Stuck] at hb
  | succ n ih =>
    intro b hb
    simp only [Walk.times] at hb ⊢
    split at hb
    · rename_i mid hs
      rw [hwhole b mid hs]
      exact ih mid hb
    · rename_i w hne
      rw [h b hb]
      split
      · rename_i mid hs
        exact (hne mid hs).elim
      · rfl

/-- What the walk has passed over, and what follows it. -/
theorem Layout.walk_append (l : Layout σ) {b rest : List σ} (h : l.walk b = .whole rest)
    (s : List σ) : l.walk (b ++ s) = .whole (rest ++ s) := by
  obtain ⟨c, rfl⟩ := walk_suffix l h
  rw [List.append_assoc]
  exact walk_swap l h (rest ++ s)

/-- **More input does not free a walk that is stuck.** By induction on the layout.  The fields that
the walk has passed are whole with more input too, with the same content, and so is the place where
it got stuck. -/
theorem Layout.walk_stuck (l : Layout σ) (s : List σ) : ∀ {b : List σ},
    (l.walk b).Stuck → l.walk (b ++ s) = l.walk b := by
  induction l with
  | empty =>
    intro b h
    simp [walk, Walk.Stuck] at h
  | reject => intro b _; rfl
  | crash => intro b _; rfl
  | cut => intro b _; rfl
  | field n next ih | slice n next ih =>
    intro b h
    simp only [walk] at h ⊢
    split at h
    · simp [Walk.Stuck] at h
    · rename_i hlen
      rw [if_neg hlen, if_neg (by rw [List.length_append]; omega),
        List.take_append_of_le_length (by omega), List.drop_append_of_le_length (by omega)]
      exact ih _ h
  | repeated n item ih =>
    intro b h
    exact Walk.times_stuck (fun _ _ hs => walk_append item hs s) (fun _ hb => ih hb) n b h
  | seq first second ih1 ih2 =>
    intro b h
    simp only [walk] at h ⊢
    split at h
    · rename_i mid hs
      rw [walk_append first hs s]
      exact ih2 h
    · rename_i w hne
      rw [ih1 h]
      split
      · rename_i mid hs
        exact (hne mid hs).elim
      · rfl

/-! ## 4. Readers that follow a layout

The reader and the walk agree on every input: on where the frame ends, and on which of the three
ways to fail it is.  There is one rule for each constructor of a layout.  The rules for `field`
and `slice` hand the symbols on to the rest of the reader, as the layout hands them to its own
rest, so a count or a code that decides what comes next is the same in both. -/

/-- What a decoder's failure amounts to. -/
inductive Stop : Type where
  | incomplete
  | rejected
  | crashed
  deriving DecidableEq

/-- A run of a decoder without its value: what is left of the input, or why it stopped. -/
inductive Outcome (σ : Type) : Type where
  | whole (rest : List σ)
  | stop (s : Stop)
  deriving DecidableEq

/-- What a decoder makes of the place where a walk ends. -/
def Walk.outcome : Walk σ → Outcome σ
  | .whole rest => .whole rest
  | .short => .stop .incomplete
  | .midSlice => .stop .crashed
  | .cut => .stop .incomplete
  | .rejected => .stop .rejected
  | .crashed => .stop .crashed

theorem Walk.outcome_eq_whole {w : Walk σ} {rest : List σ} :
    w.outcome = .whole rest ↔ w = .whole rest := by
  cases w <;> simp [outcome]

theorem Walk.outcome_eq_incomplete {w : Walk σ} :
    w.outcome = .stop .incomplete ↔ w = .short ∨ w = .cut := by
  cases w <;> simp [outcome]

theorem Walk.outcome_eq_rejected {w : Walk σ} :
    w.outcome = .stop .rejected ↔ w = .rejected := by
  cases w <;> simp [outcome]

theorem Walk.outcome_eq_crashed {w : Walk σ} :
    w.outcome = .stop .crashed ↔ w = .midSlice ∨ w = .crashed := by
  cases w <;> simp [outcome]

section Follows

variable (cls : ε → Stop)

/-- Forget the value of a run, keeping what kind of failure a failed run was. -/
def outcome : Except ε (α × List σ) → Outcome σ
  | .ok (_, rest) => .whole rest
  | .error e => .stop (cls e)

/-- The reader does what the layout says, on every input, and looks at nothing else. -/
structure Follows (r : Reader σ ε α) (l : Layout σ) : Prop where
  agrees : ∀ b, outcome cls (r b) = (l.walk b).outcome
  isLocal : r.Local

variable {cls}

theorem Follows.pure (x : α) : Follows cls (pure x : Reader σ ε α) .empty :=
  ⟨fun _ => rfl, Reader.local_pure x⟩

theorem Follows.throw {e : ε} (h : cls e = .rejected) :
    Follows cls (throw e : Reader σ ε α) .reject :=
  ⟨fun b => by simp [outcome, Layout.walk, Walk.outcome, h], Reader.local_throw e⟩

theorem Follows.crash {e : ε} (h : cls e = .crashed) :
    Follows cls (MonadExcept.throw e : Reader σ ε α) .crash :=
  ⟨fun b => by simp [outcome, Layout.walk, Walk.outcome, h], Reader.local_throw e⟩

theorem Follows.cut {e : ε} (h : cls e = .incomplete) :
    Follows cls (MonadExcept.throw e : Reader σ ε α) .cut :=
  ⟨fun b => by simp [outcome, Layout.walk, Walk.outcome, h], Reader.local_throw e⟩

/-- Reading one part and then another. -/
theorem Follows.seq {r : Reader σ ε α} {k : α → Reader σ ε β} {first second : Layout σ}
    (hr : Follows cls r first) (hk : ∀ x, Follows cls (k x) second) :
    Follows cls (r >>= k) (.seq first second) := by
  refine ⟨fun b => ?_, hr.isLocal.bind fun x => (hk x).isLocal⟩
  have hb := hr.agrees b
  rw [Reader.bind_apply, Layout.walk]
  cases h : r b with
  | error e =>
    rw [h] at hb
    cases hw : first.walk b <;> simp_all [outcome, Walk.outcome]
  | ok q =>
    obtain ⟨x, rest⟩ := q
    rw [h] at hb
    cases hw : first.walk b <;> simp_all [outcome, Walk.outcome]
    exact (hk x).agrees _

/-- The last part of a record: its value is only put in place. -/
theorem Follows.map {r : Reader σ ε α} {l : Layout σ} (hr : Follows cls r l) (f : α → β) :
    Follows cls (r >>= fun x => Pure.pure (f x)) l := by
  refine ⟨fun b => ?_, hr.isLocal.bind fun x => Reader.local_pure (f x)⟩
  rw [← hr.agrees b, Reader.bind_apply]
  cases r b <;> rfl

/-- A loop that runs a fixed number of times repeats its body's layout. -/
theorem Follows.loop {body : β → Reader σ ε β} {item : Layout σ}
    (h : ∀ acc, Follows cls (body acc) item) :
    ∀ (n : ℕ) (acc : β), Follows cls (Reader.loop body n acc) (.repeated n item) := by
  intro n
  induction n with
  | zero =>
    intro acc
    exact ⟨fun _ => rfl, Reader.local_pure acc⟩
  | succ n ih =>
    intro acc
    refine ⟨fun b => ?_, Reader.Local.loop (fun acc' => (h acc').isLocal) (n + 1) acc⟩
    have hseq := (h acc).seq (fun acc' => ih acc')
    exact hseq.agrees b

theorem takeN_agrees {n : ℕ} {e : ε} {k : List σ → Reader σ ε β} {next : List σ → Layout σ}
    (hk : ∀ x, Follows cls (k x) (next x)) (b : List σ) :
    outcome cls ((Reader.takeN n e >>= k) b) =
      if b.length < n then .stop (cls e) else ((next (b.take n)).walk (b.drop n)).outcome := by
  rw [Reader.bind_apply]
  by_cases h : b.length < n
  · simp only [Reader.takeN, if_pos h, outcome]
  · simp only [Reader.takeN, if_neg h]
    exact (hk _).agrees _

/-- A length-checked field, whose symbols the rest of the reader may depend on. -/
theorem Follows.field {n : ℕ} {e : ε} {k : List σ → Reader σ ε β} {next : List σ → Layout σ}
    (he : cls e = .incomplete) (hk : ∀ x, Follows cls (k x) (next x)) :
    Follows cls (Reader.takeN n e >>= k) (.field n next) := by
  refine ⟨fun b => ?_, (Reader.takeN_local n e).bind fun x => (hk x).isLocal⟩
  rw [takeN_agrees hk, Layout.walk]
  split <;> simp [Walk.outcome, he]

/-- A slice, whose symbols the rest of the reader may depend on. -/
theorem Follows.slice {n : ℕ} {e : ε} {k : List σ → Reader σ ε β} {next : List σ → Layout σ}
    (he : cls e = .crashed) (hk : ∀ x, Follows cls (k x) (next x)) :
    Follows cls (Reader.takeN n e >>= k) (.slice n next) := by
  refine ⟨fun b => ?_, (Reader.takeN_local n e).bind fun x => (hk x).isLocal⟩
  rw [takeN_agrees hk, Layout.walk]
  split <;> simp [Walk.outcome, he]

end Follows

/-! ## 5. The points a walk gets to

`Reaches` names a point inside a walk by what is still to be walked there and the input that is
left.  A walk that stops, stops at such a point (`walk_eq`), so a reason to stop can be looked
for field by field, and from the field it is carried back to the frame. -/

theorem Layout.walk_field_append {n : ℕ} {next : List σ → Layout σ} {bs : List σ}
    (h : bs.length = n) (rest : List σ) :
    (Layout.field n next).walk (bs ++ rest) = (next bs).walk rest := by
  rw [walk, if_neg (by rw [List.length_append]; omega), List.take_left' h, List.drop_left' h]

theorem Layout.walk_seq_of_whole {first second : Layout σ} {b mid : List σ}
    (h : first.walk b = .whole mid) : (Layout.seq first second).walk b = second.walk mid := by
  rw [walk, h]

theorem Layout.walk_seq_eq_whole {first second : Layout σ} {b rest : List σ}
    (h : (Layout.seq first second).walk b = .whole rest) :
    ∃ mid, first.walk b = .whole mid ∧ second.walk mid = .whole rest := by
  rw [walk] at h
  split at h
  · rename_i mid hw
    exact ⟨mid, hw, h⟩
  · rename_i hne
    exact absurd h (hne rest)

/-- The walk along `l` from `b` gets to the layout `l'` at `b'`. -/
inductive Layout.Reaches : Layout σ → List σ → Layout σ → List σ → Prop where
  | here (l : Layout σ) (b : List σ) : Reaches l b l b
  | field {n : ℕ} {next : List σ → Layout σ} {b b' : List σ} {l' : Layout σ} (hlen : n ≤ b.length)
      (h : Reaches (next (b.take n)) (b.drop n) l' b') : Reaches (.field n next) b l' b'
  | slice {n : ℕ} {next : List σ → Layout σ} {b b' : List σ} {l' : Layout σ} (hlen : n ≤ b.length)
      (h : Reaches (next (b.take n)) (b.drop n) l' b') : Reaches (.slice n next) b l' b'
  | item {n k : ℕ} {item l' : Layout σ} {b mid b' : List σ} (hk : k < n)
      (hw : Walk.times item.walk k b = .whole mid) (h : Reaches item mid l' b') :
      Reaches (.repeated n item) b l' b'
  | first {first second l' : Layout σ} {b b' : List σ} (h : Reaches first b l' b') :
      Reaches (.seq first second) b l' b'
  | second {first second l' : Layout σ} {b mid b' : List σ} (hw : first.walk b = .whole mid)
      (h : Reaches second mid l' b') : Reaches (.seq first second) b l' b'

namespace Layout.Reaches

variable {l l' l'' : Layout σ} {b b' b'' : List σ}

theorem trans (h : Reaches l b l' b') (h' : Reaches l' b' l'' b'') : Reaches l b l'' b'' := by
  induction h with
  | here l b => exact h'
  | field hlen _ ih => exact .field hlen (ih h')
  | slice hlen _ ih => exact .slice hlen (ih h')
  | item hk hw _ ih => exact .item hk hw (ih h')
  | first _ ih => exact .first (ih h')
  | second hw _ ih => exact .second hw (ih h')

theorem suffix (h : Reaches l b l' b') : b' <:+ b := by
  induction h with
  | here l b => exact List.suffix_rfl
  | field hlen _ ih => exact ih.trans (List.drop_suffix _ _)
  | slice hlen _ ih => exact ih.trans (List.drop_suffix _ _)
  | item hk hw _ ih =>
    obtain ⟨c, rfl⟩ := Walk.times_suffix (fun _ _ hs => walk_suffix _ hs) _ _ _ hw
    exact ih.trans (List.suffix_append c _)
  | first _ ih => exact ih
  | second hw _ ih =>
    obtain ⟨c, rfl⟩ := walk_suffix _ hw
    exact ih.trans (List.suffix_append c _)

end Layout.Reaches

/-- A repeated group stops where one of its rounds does. -/
theorem Walk.times_of_stop {step : List σ → Walk σ} : ∀ {n k : ℕ} {b mid : List σ}, k < n →
    Walk.times step k b = .whole mid → (∀ rest, step mid ≠ .whole rest) →
    Walk.times step n b = step mid := by
  intro n
  induction n with
  | zero =>
    intro k b mid hk _ _
    exact absurd hk (Nat.not_lt_zero k)
  | succ n ih =>
    intro k b mid hk hw hstop
    cases k with
    | zero =>
      simp only [Walk.times, Walk.whole.injEq] at hw
      subst hw
      rw [Walk.times]
      split
      · rename_i rest hs
        exact absurd hs (hstop rest)
      · rfl
    | succ k =>
      simp only [Walk.times] at hw ⊢
      split at hw
      · exact ih (by omega) hw hstop
      · rename_i w hne
        exact absurd hw (hne mid)

theorem Walk.times_eq_stop {step : List σ → Walk σ} {w : Walk σ} (hstop : ∀ rest, w ≠ .whole rest) :
    ∀ {n : ℕ} {b : List σ}, Walk.times step n b = w →
      ∃ k mid, k < n ∧ Walk.times step k b = .whole mid ∧ step mid = w := by
  intro n
  induction n with
  | zero =>
    intro b h
    exact absurd h.symm (hstop b)
  | succ n ih =>
    intro b h
    simp only [Walk.times] at h
    split at h
    · rename_i mid hs
      obtain ⟨k, mid', hk, hw, hstep⟩ := ih h
      exact ⟨k + 1, mid', by omega, by simp only [Walk.times, hs, hw], hstep⟩
    · exact ⟨0, b, Nat.succ_pos n, rfl, h⟩

/-- **A walk stops where it gets to a point it stops at.** -/
theorem Layout.Reaches.walk_eq {l l' : Layout σ} {b b' : List σ} (h : l.Reaches b l' b')
    (hstop : ∀ rest, l'.walk b' ≠ .whole rest) : l.walk b = l'.walk b' := by
  induction h with
  | here l b => rfl
  | field hlen _ ih => rw [walk, if_neg (Nat.not_lt.mpr hlen), ih hstop]
  | slice hlen _ ih => rw [walk, if_neg (Nat.not_lt.mpr hlen), ih hstop]
  | item hk hw _ ih =>
    rw [walk, Walk.times_of_stop hk hw (by rw [ih hstop]; exact hstop), ih hstop]
  | first _ ih =>
    rw [walk, ih hstop]
    split
    · rename_i rest hw
      exact absurd hw (hstop rest)
    · rfl
  | second hw _ ih =>
    rw [walk, hw]
    exact ih hstop

/-- The decoder crashes on the input. -/
def Layout.Crashes (l : Layout σ) (b : List σ) : Prop := (l.walk b).outcome = .stop .crashed

theorem Layout.Crashes.seq {first second : Layout σ} {b : List σ}
    (h : (Layout.seq first second).Crashes b) :
    first.Crashes b ∨ ∃ mid, first.walk b = .whole mid ∧ second.Crashes mid := by
  rw [Layout.Crashes, walk] at h
  split at h
  · rename_i mid hw
    exact Or.inr ⟨mid, hw, h⟩
  · exact Or.inl h

theorem Layout.Reaches.crashes {l l' : Layout σ} {b b' : List σ} (h : l.Reaches b l' b')
    (hc : l'.Crashes b') : l.Crashes b := by
  have hstop : ∀ rest, l'.walk b' ≠ .whole rest := by
    intro rest hw
    rw [Layout.Crashes, hw] at hc
    exact absurd hc (by simp [Walk.outcome])
  rw [Layout.Crashes, h.walk_eq hstop]
  exact hc

end Wire
