import Mathlib.Logic.Relation
import ReplicaRing.Proofs.SoloRun

/-!
# The events of an operation that runs alone

An operation that is performed on its own goes from event to event, and the world with it.

* `World.Next`, `World.Reaches` — the next event of an activity, and some number of them;
* `World.Meets` — a world that occurs while an operation is performed;
* `performs_of_reaches` — an operation that reaches its answer is performed;
* `Simulates`, `Reaches.simulate`, `Reaches.simulate_back` — an activity that goes on like another;
* `World.Ends` — an activity reaches its answer.
-/

namespace ReplicaRing.Scenario

namespace World

variable {w v : World} {p q : Activity × World}

/-- The next event of an activity that runs alone: time passes up to it, and then it happens. -/
def Next (p q : Activity × World) : Prop :=
  p.2.loops = #[] ∧ ∃ t, p.1.wake? p.2.cluster.now #[] = some t ∧
    (p.2.advanceTo t).stepActivity p.1 = q

/-- An activity and its world get from one state to another. -/
def Reaches : Activity × World → Activity × World → Prop := Relation.ReflTransGen Next

/-- A world occurs while an operation is performed on its own. -/
def Meets (w : World) (op : Op) (v : World) : Prop :=
  ∃ a, Reaches (.later w.cluster.now op, w) (a, v)

/-- What comes of an activity does not change with its events. -/
theorem Reaches.drain (h : Reaches p q) : (p.2.alone p.1).drain = (q.2.alone q.1).drain := by
  induction h with
  | refl => rfl
  | tail _ hnext ih =>
    obtain ⟨hl, t, ht, rfl⟩ := hnext
    rw [ih, drain_alone hl ht]

/-- An operation that is about to start has its start ahead of it. -/
theorem next_later {op : Op} (hl : w.loops = #[]) :
    Next (.later w.cluster.now op, w) (w.begin op) := by
  refine ⟨hl, w.cluster.now, rfl, ?_⟩
  rw [advanceTo_now]
  rfl

/-- **An operation that reaches its answer is performed.** -/
theorem performs_of_reaches {op : Op} {t : Instant} {x : Answer} (hl : w.loops = #[])
    (h : Reaches (w.begin op) (.answered t x, v)) : w.Performs op x v.settled := by
  have hdrain : (alone (w.begin op).2 (w.begin op).1).drain = (v.alone (.answered t x)).drain :=
    h.drain
  exact performs_of_drain hl rfl (hdrain.trans (drain_answered v t x))

/-- The next event is determined. -/
theorem next_unique {q' : Activity × World} (h : Next p q) (h' : Next p q') : q = q' := by
  obtain ⟨-, t, ht, rfl⟩ := h
  obtain ⟨-, t', ht', rfl⟩ := h'
  obtain rfl := Option.some.inj (ht.symm.trans ht')
  rfl

theorem not_next_answered (t : Instant) (x : Answer) (w : World) (q : Activity × World) :
    ¬ Next (.answered t x, w) q := by
  rintro ⟨-, s, hs, -⟩
  cases hs

/-- An activity goes on like another one: each event of the first has its like with the second, or
shows nowhere. -/
def Simulates (R : Activity × World → Activity × World → Prop) : Prop :=
  ∀ p p' q, R p p' → Next p q → R q p' ∨ ∃ q', Next p' q' ∧ R q q'

section Simulates

variable {R : Activity × World → Activity × World → Prop} (hR : Simulates R)
  {p' r' : Activity × World}

include hR

/-- Whatever an activity gets to, the other one gets to its like. -/
theorem Reaches.simulate (h : Reaches p q) (hp : R p p') : ∃ q', Reaches p' q' ∧ R q q' := by
  induction h with
  | refl => exact ⟨p', .refl, hp⟩
  | @tail q r _ hnext ih =>
    obtain ⟨q', hreach, hq⟩ := ih
    obtain hr | ⟨r', hnext', hr⟩ := hR q q' r hq hnext
    · exact ⟨q', hreach, hr⟩
    · exact ⟨r', .tail hreach hnext', hr⟩

/-- Whatever the other one gets to, the activity gets to its like, provided that it gets to an end
whose like is an end too. The induction is on the way to this end. -/
theorem Reaches.simulate_back (h : Reaches p q) (hend : ∀ q' r, R q q' → ¬ Next q' r)
    (hp : R p p') (h' : Reaches p' r') : ∃ r, Reaches p r ∧ R r r' := by
  induction h using Relation.ReflTransGen.head_induction_on generalizing p' with
  | refl =>
    obtain rfl | ⟨r, hnext, -⟩ := h'.cases_head
    · exact ⟨q, .refl, hp⟩
    · exact absurd hnext (hend p' r hp)
  | @head p s hnext _ ih =>
    obtain hs | ⟨s', hnext', hs⟩ := hR p p' s hp hnext
    · obtain ⟨r, hreach, hr⟩ := ih hs h'
      exact ⟨r, .head hnext hreach, hr⟩
    · obtain rfl | ⟨s'', hnext'', hrest⟩ := h'.cases_head
      · exact ⟨p, .refl, hp⟩
      · rw [← next_unique hnext' hnext''] at hrest
        obtain ⟨r, hreach, hr⟩ := ih hs hrest
        exact ⟨r, .head hnext hreach, hr⟩

end Simulates

/-- A world that occurs while an operation is performed is the one before it, or occurs after its
start. -/
theorem Meets.cases {op : Op} (h : w.Meets op v) : v = w ∨ ∃ a, Reaches (w.begin op) (a, v) := by
  obtain ⟨a, hreach⟩ := h
  obtain hsame | ⟨p, hfirst, hrest⟩ := hreach.cases_head
  · exact .inl (congrArg Prod.snd hsame).symm
  · obtain ⟨-, s, hs, rfl⟩ := hfirst
    obtain rfl := Option.some.inj hs
    rw [advanceTo_now] at hrest
    exact .inr ⟨a, hrest⟩

theorem meets_of_begin {op : Op} {a : Activity} (hl : w.loops = #[])
    (h : Reaches (w.begin op) (a, v)) : w.Meets op v :=
  ⟨a, .head (next_later hl) h⟩

/-! ### Activities that come to their end -/

/-- An activity reaches its answer. -/
def Ends (p : Activity × World) : Prop := ∃ t x v, Reaches p (.answered t x, v)

theorem ends_answered (t : Instant) (x : Answer) (w : World) : Ends (.answered t x, w) :=
  ⟨t, x, w, .refl⟩

theorem Ends.of_next (h : Next p q) (hq : Ends q) : Ends p := by
  obtain ⟨t, x, v, hreach⟩ := hq
  exact ⟨t, x, v, .head h hreach⟩

end World

end ReplicaRing.Scenario
