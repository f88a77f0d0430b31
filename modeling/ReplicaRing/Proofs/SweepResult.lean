import ReplicaRing.Proofs.SoloEvents
import ReplicaRing.Proofs.SweepPass

/-!
# The result of a sweep

What one sweep that runs alone and is not cancelled leaves in the stores of a ring, and what it
reports.

* `reaches_repair`, `performs_repair` — a sweep comes to its end, and what it has done until then;
* `FirstHolder` — the answering member of the lowest identity that holds a key;
* `repair_result` — data and report, in terms of the data before.
-/

namespace ReplicaRing.Scenario.World

variable {w : World} {down : Finset NodeId}

/-- One event of a sweep that is all that goes on, told to stop by then or not. -/
theorem next_sweep (hl : w.loops = #[]) {cancelAt : Option Instant} {p q : SweepRun × Cluster}
    {told : Bool} (htold : cancelledBy cancelAt (max p.2.now (p.1.wake p.2.now)) = told)
    (hq : p.1.step told { p.2 with now := max p.2.now (p.1.wake p.2.now) } = q) :
    Next (.sweep p.1 cancelAt, { w with cluster := p.2 })
      (w.started (Activity.ofSweep q.2 q.1 cancelAt)) := by
  subst hq htold
  exact ⟨hl, p.1.wake p.2.now, rfl, rfl⟩

/-- A sweep that gets to its end is answered with its report. -/
theorem reaches_sweep (hl : w.loops = #[]) {cancelAt : Option Instant} {p q : SweepRun × Cluster}
    (h : SweepRun.Reaches p q)
    (hgo : ∀ r, SweepRun.Reaches p r →
      cancelledBy cancelAt (max r.2.now (r.1.wake r.2.now)) = false)
    (hp : p.1.sweep.isFinished = false) (hq : q.1.sweep.isFinished = true) :
    Reaches (.sweep p.1 cancelAt, { w with cluster := p.2 })
      (.answered q.2.now
          (.report q.1.sweep.report (cancelAt.map fun t => decide (t ≤ q.2.now))),
        { w with cluster := SweepRun.close q.1.sweep.report q.2 }) := by
  induction h using Relation.ReflTransGen.head_induction_on with
  | refl =>
    rw [hq] at hp
    exact absurd hp (by decide)
  | @head p p' hstep hrest ih =>
    have hnext := next_sweep (w := w) hl (hgo p .refl) hstep.2
    rw [Activity.ofSweep] at hnext
    cases hp' : p'.1.sweep.isFinished with
    | false =>
      rw [hp'] at hnext
      exact .head hnext (ih (fun r hr => hgo r (.head hstep hr)) hp')
    | true =>
      rw [hp'] at hnext
      -- a sweep that has finished goes nowhere else
      obtain rfl | ⟨r, hr, -⟩ := hrest.cases_head
      · exact .single hnext
      · rw [hp'] at hr
        exact absurd hr.1 (by decide)

/-- How a sweep starts. -/
theorem begin_sweep (hring : w.hasRing = true) (cancelAfter : Option Duration) :
    w.begin (.repair cancelAfter) =
      (.sweep ⟨.start w.cluster.ring.membership, none⟩
        (cancelAfter.map w.cluster.after), w) := begin_of_hasRing hring _

/-- **A sweep comes to its end.** In a steady cluster it passes all members, without inconsistencies
and without being cancelled, unless it has been told to stop at some point on its way. -/
theorem reaches_repair (hring : w.hasRing = true) (hl : w.loops = #[])
    (hc : w.cluster.Steady down) (cancelAfter : Option Duration)
    (hgo : ∀ p, SweepRun.Reaches (⟨.start w.cluster.ring.membership, none⟩, w.cluster) p →
      cancelledBy (cancelAfter.map w.cluster.after) (max p.2.now (p.1.wake p.2.now)) =
        false) :
    ∃ (c' : Cluster) (r : Report),
      Reaches (w.begin (.repair cancelAfter))
        (.answered c'.now
            (.report r ((cancelAfter.map w.cluster.after).map fun t => decide (t ≤ c'.now))),
          { w with cluster := SweepRun.close r c' }) ∧
      c'.Steady down ∧ w.cluster.Evolves c' ∧ r.cancelled = false ∧ r.inconsistencies = 0 ∧
      w.cluster.Passed down w.cluster.ring.membership.handles c' r.nodesScanned r.keysScanned
        r.copies r.failures := by
  obtain ⟨c', nodes, keys, copies, failures, hlead, hpassed⟩ :=
    hc.sweep_nodes (s := .start w.cluster.ring.membership) w.cluster.ring.membership.handles rfl rfl
      (fun x hx => hx) hc.sound.handles_ascend
  have hreport : Report.plus {} nodes keys copies failures =
      { nodesScanned := nodes, keysScanned := keys, copies := copies, failures := failures } := by
    simp [Report.plus]
  have hreach := hlead.reaches
  rw [show (Sweep.start w.cluster.ring.membership).report = {} from rfl, hreport] at hreach
  rw [begin_sweep hring]
  exact ⟨c', _, reaches_sweep hl hreach hgo rfl rfl, hlead.steady, hlead.evolves, rfl, rfl, hpassed⟩

theorem performs_repair (hring : w.hasRing = true) (hl : w.loops = #[])
    (hc : w.cluster.Steady down) (cancelAfter : Option Duration)
    (hgo : ∀ p, SweepRun.Reaches (⟨.start w.cluster.ring.membership, none⟩, w.cluster) p →
      cancelledBy (cancelAfter.map w.cluster.after) (max p.2.now (p.1.wake p.2.now)) =
        false) :
    ∃ (c' : Cluster) (r : Report),
      w.Performs (.repair cancelAfter)
        (.report r ((cancelAfter.map w.cluster.after).map fun t => decide (t ≤ c'.now)))
        (settled { w with cluster := SweepRun.close r c' }) ∧
      c'.Steady down ∧ w.cluster.Evolves c' ∧ r.cancelled = false ∧ r.inconsistencies = 0 ∧
      w.cluster.Passed down w.cluster.ring.membership.handles c' r.nodesScanned r.keysScanned
        r.copies r.failures := by
  obtain ⟨c', r, hreach, hrest⟩ := reaches_repair hring hl hc cancelAfter hgo
  exact ⟨c', r, performs_of_reaches hl hreach, hrest⟩

end ReplicaRing.Scenario.World

namespace ReplicaRing.Cluster

variable {down : Finset NodeId} {c : Cluster}

/-- A node is the answering member of the lowest identity that holds a key. -/
structure FirstHolder (down : Finset NodeId) (c : Cluster) (a : Handle) (key value : String) :
    Prop where
  member : a ∈ c.ring.membership.handles
  up : a.id ∉ down
  holds : c.fleet.held a key = some value
  lowest : ∀ b ∈ c.ring.membership.handles, b.id ∉ down → c.fleet.held b key ≠ none → a.id ≤ b.id

/-- Some member that answers holds a key. -/
def Available (down : Finset NodeId) (c : Cluster) (key : String) : Prop :=
  ∃ a ∈ c.ring.membership.handles, a.id ∉ down ∧ c.fleet.held a key ≠ none

theorem given_ne_none {a : Handle} {k : String} :
    c.given down a k ≠ none ↔ a.id ∉ down ∧ c.fleet.held a k ≠ none := by
  rw [given]
  split <;> simp_all

theorem offer_ne_none {k : String} :
    c.offer down c.ring.membership.handles k ≠ none ↔ c.Available down k := by
  simp only [offer, Ne, List.findSome?_eq_none_iff, not_forall, exists_prop]
  exact exists_congr fun a => and_congr_right fun _ => given_ne_none

/-- The value that a sweep spreads is that of the first holder. -/
theorem firstHolder_of_offer (hc : c.Steady down) {k v : String}
    (h : c.offer down c.ring.membership.handles k = some v) : ∃ a, c.FirstHolder down a k v := by
  obtain ⟨a, ha, hgives, hlowest⟩ := hc.sound.lowest_of_findSome? h
  have hgiven := given_ne_none.1 (hgives ▸ Option.some_ne_none v)
  refine ⟨a, ha, hgiven.1, ?_, fun b hb hup hholds => hlowest b hb (given_ne_none.2 ⟨hup, hholds⟩)⟩
  rwa [given, if_neg hgiven.1] at hgives

/-- A member received a key from a member before it: it lacked the key and is a replica that
answers, and the first holder comes before it. -/
def ReceivedFromBelow (down : Finset NodeId) (c : Cluster) (a : Handle) (key : String) : Prop :=
  c.ring.Serves down a key ∧ c.fleet.held a key = none ∧
    ∃ b v, c.FirstHolder down b key v ∧ b.id < a.id

/-- What a member lists when the sweep comes to it is what it held or received before. -/
theorem lists_iff (hc : c.Steady down) {a : Handle} {k : String} :
    c.Lists down c.ring.membership.handles a k ↔
      a.id ∉ down ∧ (c.fleet.held a k ≠ none ∨ c.ReceivedFromBelow down a k) := by
  rw [Lists, given_ne_none]
  constructor
  · rintro (⟨hup, hk⟩ | ⟨hserves, b, hb, hlt, hgiven⟩)
    · exact ⟨hup, .inl hk⟩
    · refine ⟨hserves.1, ?_⟩
      by_cases hk : c.fleet.held a k = none
      · obtain ⟨v, hv⟩ := Option.ne_none_iff_exists'.1
          (offer_ne_none.2 ⟨b, hb, given_ne_none.1 hgiven⟩)
        obtain ⟨f, hf⟩ := firstHolder_of_offer hc hv
        refine .inr ⟨hserves, hk, f, v, hf, ?_⟩
        obtain ⟨hbup, hbk⟩ := given_ne_none.1 hgiven
        have hle := NodeId.le_def.1 (hf.lowest b hb hbup hbk)
        exact NodeId.lt_def.2 (Nat.lt_of_le_of_lt hle (NodeId.lt_def.1 hlt))
      · exact .inl hk
  · rintro ⟨hup, hk | ⟨hserves, -, b, v, hb, hlt⟩⟩
    · exact .inl ⟨hup, hk⟩
    · have hgiven : c.given down b k ≠ none :=
        given_ne_none.2 ⟨hb.up, by rw [hb.holds]; exact Option.some_ne_none v⟩
      exact .inr ⟨hserves, b, hb.member, hlt, hgiven⟩

end ReplicaRing.Cluster

namespace ReplicaRing.Scenario.World

variable {w : World} {down : Finset NodeId}

/-- **The result of a sweep.** Members of a set fail for the whole sweep and all others answer.
Nobody loses or changes a value; a replica that answers and lacked a key gets the value of its first
holder, if there is one; and nobody else gets anything. The report counts just that. -/
theorem repair_result (hring : w.hasRing = true) (hloops : w.loops = #[])
    (hsteady : w.cluster.Steady down) :
    ∃ r w', w.Performs (.repair none) (.report r none) w' ∧
      (∀ m ∈ w.cluster.ring.membership.handles, ∀ k,
        (∀ v, w.cluster.fleet.held m k = some v → w'.cluster.fleet.held m k = some v) ∧
        (w.cluster.fleet.held m k = none →
          w.cluster.ring.Serves down m k ∧ w.cluster.Available down k →
          ∃ a v, w.cluster.FirstHolder down a k v ∧ w'.cluster.fleet.held m k = some v) ∧
        (w.cluster.fleet.held m k = none →
          ¬ (w.cluster.ring.Serves down m k ∧ w.cluster.Available down k) →
          w'.cluster.fleet.held m k = none)) ∧
      r.cancelled = false ∧ r.inconsistencies = 0 ∧
      Counted (fun m => m ∈ w.cluster.ring.membership.handles ∧ m.id ∉ down) r.nodesScanned ∧
      Counted (fun p : Handle × String => p.1 ∈ w.cluster.ring.membership.handles ∧
        w.cluster.fleet.held p.1 p.2 = none ∧ w'.cluster.fleet.held p.1 p.2 ≠ none) r.copies ∧
      Counted (fun p : String × Handle => p.2 ∈ w.cluster.ring.membership.handles ∧
        p.2.id ∉ down ∧ (w.cluster.fleet.held p.2 p.1 ≠ none ∨
          w.cluster.ReceivedFromBelow down p.2 p.1)) r.keysScanned ∧
      ∃ m n, r.failures = m + n ∧
        Counted (fun a => a ∈ w.cluster.ring.membership.handles ∧ a.id ∈ down) m ∧
        Counted (fun p : (Handle × String) × Handle =>
          p.2 ∈ w.cluster.ring.membership.handles ∧
          (p.2.id ∉ down ∧ (w.cluster.fleet.held p.2 p.1.2 ≠ none ∨
            w.cluster.ReceivedFromBelow down p.2 p.1.2)) ∧
          p.1.1 ∈ (w.cluster.ring.placement p.1.2).members ∧ p.1.1.id ∈ down) n := by
  obtain ⟨c', r, hperforms, -, -, hcancel, hincon, hpassed⟩ :=
    performs_repair hring hloops hsteady none fun _ _ => rfl
  have hdata : ∀ m ∈ w.cluster.ring.membership.handles, ∀ k, c'.fleet.held m k =
      (w.cluster.fleet.held m k).or (if w.cluster.ring.Serves down m k then
        w.cluster.offer down w.cluster.ring.membership.handles k else none) := hpassed.data
  refine ⟨r, _, hperforms, fun m hm k => ⟨fun v hv => ?_, fun hlack hget => ?_,
    fun hlack hget => ?_⟩, hcancel, hincon, hpassed.nodes, ?_, ?_, ?_⟩
  · exact (hdata m hm k).trans (by rw [hv, Option.some_or])
  · obtain ⟨v, hv⟩ := Option.ne_none_iff_exists'.1 (Cluster.offer_ne_none.2 hget.2)
    obtain ⟨a, ha⟩ := Cluster.firstHolder_of_offer hsteady hv
    refine ⟨a, v, ha, (hdata m hm k).trans ?_⟩
    rw [hlack, Option.none_or, if_pos hget.1, hv]
  · refine (hdata m hm k).trans ?_
    rw [hlack, Option.none_or]
    split
    · next hserves => exact not_not.1 fun h => hget ⟨hserves, Cluster.offer_ne_none.1 h⟩
    · rfl
  · refine hpassed.copies.congr fun p => ⟨?_, ?_⟩
    · rintro ⟨hserves, hlack, hoffer⟩
      have hm := hsteady.sound.placement_subset hserves.2
      refine ⟨hm, hlack, fun h => hoffer ?_⟩
      have h' := (hdata p.1 hm p.2).symm.trans h
      rwa [hlack, Option.none_or, if_pos hserves] at h'
    · rintro ⟨hm, hlack, hgot⟩
      have hgot' : ¬ _ = none := fun h => hgot ((hdata p.1 hm p.2).trans h)
      rw [hlack, Option.none_or] at hgot'
      split at hgot'
      · next hserves => exact ⟨hserves, hlack, hgot'⟩
      · exact absurd rfl hgot'
  · exact hpassed.keys.congr fun p => and_congr_right fun _ => Cluster.lists_iff hsteady
  · obtain ⟨m, n, hmn, hm, hn⟩ := hpassed.failures
    exact ⟨m, n, hmn, hm, hn.congr fun p =>
      and_congr_right fun _ => and_congr_left fun _ => Cluster.lists_iff hsteady⟩

/-- Three nodes, all of them replicas of every key: one holds a value, one is empty and one is
switched off. -/
def lameTrio : World where
  cluster :=
    { fleet := ⟨#[{ id := ⟨10⟩, store := ⟨[("k", "v")]⟩ }, { id := ⟨20⟩ },
        { id := ⟨30⟩, faults := .injected { down := true } }]⟩
      ring := ⟨fun _ => 0, {},
        ⟨⟨[(⟨10⟩, ⟨⟨10⟩, 0⟩), (⟨20⟩, ⟨⟨20⟩, 1⟩), (⟨30⟩, ⟨⟨30⟩, 2⟩)]⟩, 0⟩⟩ }

theorem lameTrio_forall {P : Handle → Prop} (h₁ : P ⟨⟨10⟩, 0⟩) (h₂ : P ⟨⟨20⟩, 1⟩)
    (h₃ : P ⟨⟨30⟩, 2⟩) : ∀ h ∈ lameTrio.cluster.ring.membership.handles, P h := by
  intro h hh
  have hlist : lameTrio.cluster.ring.membership.handles = [⟨⟨10⟩, 0⟩, ⟨⟨20⟩, 1⟩, ⟨⟨30⟩, 2⟩] := rfl
  rw [hlist, List.mem_cons, List.mem_cons, List.mem_singleton] at hh
  rcases hh with rfl | rfl | rfl
  · exact h₁
  · exact h₂
  · exact h₃

theorem lameTrio_steady : lameTrio.cluster.Steady {⟨30⟩} where
  sound := ⟨by unfold OrderedMap.Sorted; decide, by decide⟩
  houses := lameTrio_forall ⟨_, rfl, rfl⟩ ⟨_, rfl, rfl⟩ ⟨_, rfl, rfl⟩
  sorted := lameTrio_forall (List.pairwise_singleton _ _) .nil .nil
  answering := lameTrio_forall (fun _ => Node.answering_of_none rfl)
    (fun _ => Node.answering_of_none rfl) fun h => absurd (by decide) h
  failing := lameTrio_forall (fun h => absurd h (by decide)) (fun h => absurd h (by decide))
    fun _ => Node.failing_of_isDown rfl

/-- The empty node gets the value, and the one that is switched off does not. -/
theorem repair_result_lameTrio : lameTrio.hasRing = true ∧ lameTrio.loops = #[] ∧
    lameTrio.cluster.Steady {⟨30⟩} ∧
    ∃ r w', lameTrio.Performs (.repair none) (.report r none) w' ∧
      w'.cluster.fleet.held ⟨⟨20⟩, 1⟩ "k" = some "v" ∧
      w'.cluster.fleet.held ⟨⟨30⟩, 2⟩ "k" = none := by
  obtain ⟨r, w', hperforms, hdata, -⟩ := repair_result rfl rfl lameTrio_steady
  refine ⟨rfl, rfl, lameTrio_steady, r, w', hperforms, ?_, ?_⟩
  · have hget : lameTrio.cluster.ring.Serves {⟨30⟩} ⟨⟨20⟩, 1⟩ "k" := by decide
    obtain ⟨a, v, ha, hv⟩ := (hdata ⟨⟨20⟩, 1⟩ (by decide) "k").2.1 (by decide)
      ⟨hget, ⟨⟨10⟩, 0⟩, by decide, by decide, by decide⟩
    have hvalue : ∀ x ∈ lameTrio.cluster.ring.membership.handles, ∀ y,
        lameTrio.cluster.fleet.held x "k" = some y → some y = some "v" :=
      lameTrio_forall (fun y hy => hy.symm) (fun y hy => absurd hy.symm (Option.some_ne_none y))
        fun y hy => absurd hy.symm (Option.some_ne_none y)
    exact hv.trans (hvalue a ha.member v ha.holds)
  · exact (hdata ⟨⟨30⟩, 2⟩ (by decide) "k").2.2 (by decide) fun h => h.1.1 (by decide)

end ReplicaRing.Scenario.World
