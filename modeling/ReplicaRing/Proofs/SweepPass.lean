import ReplicaRing.Proofs.SweepRepair

/-!
# The whole sweep

A sweep passes over the sources in ascending order, and over the keys of each source. The values
that it spreads are those of the first source that holds a key, since a copy never makes another
value the first one.

* `Ring.Serves` — a node that answers is a replica of a key;
* `offer` — the value that the first of several sources holds;
* `Lists` — a source lists a key when the sweep comes to it;
* `Visited`, `Passed` — a cluster after one source, and after all of them;
* `Steady.sweep_keys` — the data and the counts after all keys of one source;
* `Steady.sweep_nodes` — the data and the counts after all sources.
-/

namespace ReplicaRing

/-! ### What a sweep spreads -/

/-- A node that answers is a replica of a key. -/
def Ring.Serves (r : Ring) (down : Finset NodeId) (h : Handle) (key : String) : Prop :=
  h.id ∉ down ∧ h ∈ (r.placement key).members

instance (r : Ring) (down : Finset NodeId) (h : Handle) (key : String) :
    Decidable (r.Serves down h key) := inferInstanceAs (Decidable (_ ∧ _))

namespace Cluster

variable {down : Finset NodeId} {c : Cluster} {s : Sweep} {a : Handle}

/-! ### All keys of a source -/

/-- **One key of a source.** -/
theorem Steady.repair_key {key : String} {keys : List String} {v : String} (hc : c.Steady down)
    (hs : s.stage = .betweenKeys a (key :: keys)) (ha : a ∈ c.ring.membership.handles)
    (hup : a.id ∉ down) (hv : c.fleet.held a key = some v) :
    ∃ c' copies failures, Sweep.Leads down c s c'
        { s with
          stage := .betweenKeys a keys
          report := s.report.plus 0 1 copies failures } ∧
      (∀ x ∈ c.ring.membership.handles, ∀ k, c'.fleet.held x k =
        (c.fleet.held x k).or
          (if k = key ∧ c.ring.Serves down x k then c.fleet.held a k else none)) ∧
      Counted (fun x => c.ring.Serves down x key ∧ c.fleet.held x key = none) copies ∧
      Counted (fun x => x ∈ (c.ring.placement key).members ∧ x.id ∈ down) failures := by
  have hunf : s.isFinished = false := by simp [Sweep.isFinished, hs]
  obtain ⟨c₁, hlead₁, hfleet⟩ := Sweep.Leads.boundary hc (by simp [hs]) hunf
  have hproceed : (s.proceed c.ring false).1 =
      { s with
        stage := KeyRepair.next
          { source := a, key := key, ahead := (c.ring.placement key).members, keys := keys }
        report := s.report.plus 0 1 0 0 } := by
    simp only [Sweep.proceed, hs]
    rfl
  have hring : c₁.ring = c.ring := hlead₁.evolves.ring
  rw [hproceed] at hlead₁
  obtain ⟨c', m, n, hlead, hheld, hm, hn⟩ := hlead₁.steady.repair_ahead
    (j := { source := a, key := key, ahead := (c.ring.placement key).members, keys := keys })
    (s := { s with stage := _, report := _ }) (c.ring.placement key).members rfl rfl
    (fun x hx => by rw [hring]; exact hc.sound.placement_subset hx)
    (hc.sound.placement_nodup _ _) (by rwa [hring]) hup (by rw [hfleet]; exact hv) (.inl rfl)
  refine ⟨c', m, n, ?_, fun x hx k => ?_, hm.congr fun x => ?_, hn⟩
  · simpa only [Report.plus_plus, Nat.zero_add, Nat.add_zero] using hlead₁.trans hlead
  · rw [hheld x (by rwa [hring]) k, hfleet]
    by_cases hk : k = key
    · subst hk
      cases hx' : c.fleet.held x k with
      | none => simp [Ring.Serves, and_comm, hv]
      | some old => simp
    · simp [hk]
  · rw [hfleet, Ring.Serves]
    tauto

/-- **All keys of a source.** The induction is on the keys still to come. A copy never changes what
the source itself holds, so its listing stays right. -/
theorem Steady.sweep_keys (keys : List String) (hc : c.Steady down)
    (hs : s.stage = .betweenKeys a keys) (ha : a ∈ c.ring.membership.handles)
    (hup : a.id ∉ down) (hkeys : ∀ k ∈ keys, c.fleet.held a k ≠ none) (hnodup : keys.Nodup) :
    ∃ c' copies failures, Sweep.Leads down c s c'
        { s with
          stage := .betweenNodes
          report := s.report.plus 0 keys.length copies failures } ∧
      (∀ x ∈ c.ring.membership.handles, ∀ k, c'.fleet.held x k =
        (c.fleet.held x k).or
          (if k ∈ keys ∧ c.ring.Serves down x k then c.fleet.held a k else none)) ∧
      Counted (fun p : Handle × String =>
        p.2 ∈ keys ∧ c.ring.Serves down p.1 p.2 ∧ c.fleet.held p.1 p.2 = none) copies ∧
      Counted (fun p : Handle × String =>
        p.2 ∈ keys ∧ p.1 ∈ (c.ring.placement p.2).members ∧ p.1.id ∈ down) failures := by
  induction keys generalizing c s with
  | nil =>
    have hunf : s.isFinished = false := by simp [Sweep.isFinished, hs]
    obtain ⟨c', hlead, hfleet⟩ := Sweep.Leads.boundary hc (by simp [hs]) hunf
    have hproceed : (s.proceed c.ring false).1 = { s with stage := .betweenNodes } := by
      simp only [Sweep.proceed, hs]
    rw [hproceed] at hlead
    exact ⟨c', 0, 0, hlead, fun x _ k => by simp [hfleet], .of_false (by simp), .of_false (by simp)⟩
  | cons key keys ih =>
    rw [List.nodup_cons] at hnodup
    obtain ⟨v, hv⟩ := Option.ne_none_iff_exists'.1 (hkeys key (List.mem_cons_self ..))
    obtain ⟨c₁, m, n, hlead₁, hheld₁, hm, hn⟩ := hc.repair_key hs ha hup hv
    have hring : c₁.ring = c.ring := hlead₁.evolves.ring
    -- only the data under one key have changed, and there not those of the source
    have hkept : ∀ x ∈ c.ring.membership.handles, ∀ k ∈ keys,
        c₁.fleet.held x k = c.fleet.held x k := fun x hx k hk => by
      have hne : k ≠ key := fun he => hnodup.1 (he ▸ hk)
      simp [hheld₁ x hx k, hne]
    obtain ⟨c', m', n', hlead, hheld, hm', hn'⟩ :=
      ih (s := { s with stage := _, report := _ }) hlead₁.steady rfl (by rwa [hring])
        (fun k hk => by
          rw [hkept a ha k hk]
          exact hkeys k (List.mem_cons_of_mem _ hk)) hnodup.2
    refine ⟨c', m + m', n + n', ?_, fun x hx k => ?_, ?_, ?_⟩
    · simpa [Nat.add_comm] using hlead₁.trans hlead
    · rw [hheld x (by rwa [hring]) k, hring]
      by_cases hk : k = key
      · subst hk
        simp [hnodup.1, hheld₁ x hx k]
      · by_cases hks : k ∈ keys
        · simp [hkept x hx k hks, hkept a ha k hks, hks]
        · simp [hheld₁ x hx k, hk, hks]
    · refine Counted.cons (P := fun x k => c.ring.Serves down x k ∧ c.fleet.held x k = none)
        hnodup.1 hm (hm'.congr fun p => ?_)
      rw [hring]
      refine and_congr_right fun hk => and_congr_right fun hserves => ?_
      rw [hkept p.1 (hc.sound.placement_subset hserves.2) p.2 hk]
    · refine Counted.cons (P := fun x k => x ∈ (c.ring.placement k).members ∧ x.id ∈ down)
        hnodup.1 hn (hn'.congr fun p => ?_)
      rw [hring]

/-! ### All sources -/

/-- What a sweep can get from a node. -/
def given (down : Finset NodeId) (c : Cluster) (a : Handle) (key : String) : Option String :=
  if a.id ∈ down then none else c.fleet.held a key

/-- What a sweep can get from the first of several nodes that has something. -/
def offer (down : Finset NodeId) (c : Cluster) (sources : List Handle) (key : String) :
    Option String := sources.findSome? fun a => c.given down a key

/-- A node lists a key when the sweep comes to it: it has held the key all along, or got it from a
node before it. -/
def Lists (down : Finset NodeId) (c : Cluster) (sources : List Handle) (a : Handle)
    (key : String) : Prop :=
  c.given down a key ≠ none ∨
    c.ring.Serves down a key ∧ ∃ b ∈ sources, b.id < a.id ∧ c.given down b key ≠ none

/-- What a sweep does to a steady cluster when it visits a source. -/
structure Visited (down : Finset NodeId) (c : Cluster) (a : Handle) (c' : Cluster)
    (keys copies failures : Nat) : Prop where
  ring : c'.ring = c.ring
  data : ∀ x ∈ c.ring.membership.handles, ∀ k, c'.fleet.held x k =
    (c.fleet.held x k).or (if c.ring.Serves down x k then c.given down a k else none)
  keys : Counted (fun k => c.given down a k ≠ none) keys
  copies : Counted (fun p : Handle × String => c.ring.Serves down p.1 p.2 ∧
    c.fleet.held p.1 p.2 = none ∧ c.given down a p.2 ≠ none) copies
  failures : Counted (fun p : Handle × String => c.given down a p.2 ≠ none ∧
    p.1 ∈ (c.ring.placement p.2).members ∧ p.1.id ∈ down) failures

/-- **One source.** A source that answers gives all replicas what it holds, and one that fails gives
nothing. -/
theorem Steady.sweep_node {rest : List Handle} (hc : c.Steady down)
    (hs : s.stage = .betweenNodes) (hsrc : s.sources = a :: rest)
    (ha : a ∈ c.ring.membership.handles) :
    ∃ c' keys copies failures, Sweep.Leads down c s c'
        { sources := rest
          report := s.report.plus (if a.id ∉ down then 1 else 0) keys copies
            ((if a.id ∈ down then 1 else 0) + failures) } ∧
      c.Visited down a c' keys copies failures := by
  have hunf : s.isFinished = false := by simp [Sweep.isFinished, hs]
  obtain ⟨c₁, hlead₁, hfleet⟩ := Sweep.Leads.boundary hc (by simp [hs]) hunf
  have hon : c.ring.membership.contains a.id = true :=
    (Membership.contains_iff hc.sound).2 ⟨a, ha, rfl⟩
  have hproceed : (s.proceed c.ring false).1 =
      { s with sources := rest, stage := .waiting (.listing a) } := by
    simp [Sweep.proceed, hs, hsrc, Sweep.visit, hon]
  have hring₁ : c₁.ring = c.ring := hlead₁.evolves.ring
  rw [hproceed] at hlead₁
  by_cases hd : a.id ∈ down
  · have hnone : ∀ k, c.given down a k = none := fun k => if_pos hd
    obtain ⟨e, c', hreach, hst, hev, hheld⟩ := hlead₁.steady.exchange_error
      (s := { s with sources := rest, stage := .waiting (.listing a) }) rfl
      (show a ∈ _ by rwa [hring₁]) hd
    have hlead := hlead₁.trans ⟨hreach, hst, hev⟩
    refine ⟨c', 0, 0, 0, ?_, hlead.evolves.ring, fun x hx k => ?_, .of_false (by simp [hnone]),
      .of_false (by simp [hnone]), .of_false (by simp [hnone])⟩
    · rw [if_neg (fun h => h hd), if_pos hd]
      exact hlead
    · rw [hheld x (by rwa [hring₁]) k, hfleet, hnone, ite_self, Option.or_none]
  · have hgiven : ∀ k, c.given down a k = c.fleet.held a k := fun k => if_neg hd
    obtain ⟨(listed : List String), c₂, hreach, hst, hev, hrep, hheld₂⟩ := hlead₁.steady.exchange_ok
      (s := { s with sources := rest, stage := .waiting (.listing a) }) rfl
      (show a ∈ _ by rwa [hring₁]) hd
    have hring₂ : c₂.ring = c.ring := hev.ring.trans hring₁
    have hsame : ∀ x ∈ c.ring.membership.handles, ∀ k, c₂.fleet.held x k = c.fleet.held x k :=
      fun x hx k => by
        rw [← hfleet]
        exact (hheld₂ x (by rwa [hring₁]) k).trans (ite_self _)
    have hlisted : ∀ k, k ∈ listed ↔ c.fleet.held a k ≠ none := fun k => by
      rw [← hfleet, Fleet.held, ← OrderedMap.mem_keys_iff]
      exact hrep.mem_iff
    have hnodup : listed.Nodup := by
      refine hrep.nodup_iff.2 ?_
      rw [hfleet]
      exact (hc.sorted a ha).keys_nodup
    obtain ⟨c', m, n, hlead, hheld, hm, hn⟩ := hst.sweep_keys
      (s := { s with
        sources := rest
        stage := .betweenKeys a listed
        report := s.report.plus 1 0 0 0 }) listed rfl (by rwa [hring₂]) hd
      (fun k hk => by rw [hsame a ha k]; exact (hlisted k).1 hk) hnodup
    have hlead' := hlead₁.trans (.trans ⟨hreach, hst, hev⟩ hlead)
    refine ⟨c', listed.length, m, n, ?_, hlead'.evolves.ring, fun x hx k => ?_, ?_,
      hm.congr fun p => ?_, hn.congr fun p => ?_⟩
    · rw [if_pos hd, if_neg hd]
      simpa only [Report.plus_plus, Nat.zero_add, Nat.add_zero] using hlead'
    · rw [hheld x (by rwa [hring₂]) k, hsame x hx k, hsame a ha k, hgiven, hring₂]
      by_cases hk : k ∈ listed
      · simp only [hk, true_and]
      · have hnone : c.fleet.held a k = none := not_not.1 fun h => hk ((hlisted k).2 h)
        simp [hk, hnone]
    · refine (Counted.of_nodup hnodup).congr fun k => ?_
      rw [hlisted, hgiven]
    · rw [hlisted, hring₂, hgiven]
      constructor
      · rintro ⟨hk, hserves, hnone⟩
        rw [hsame _ (hc.sound.placement_subset hserves.2)] at hnone
        exact ⟨hserves, hnone, hk⟩
      · rintro ⟨hserves, hnone, hk⟩
        rw [← hsame _ (hc.sound.placement_subset hserves.2)] at hnone
        exact ⟨hk, hserves, hnone⟩
    · rw [hlisted, hring₂, hgiven]

/-- What a sweep does to a steady cluster from the sources ahead of it on. -/
structure Passed (down : Finset NodeId) (c : Cluster) (sources : List Handle) (c' : Cluster)
    (nodes keys copies failures : Nat) : Prop where
  data : ∀ x ∈ c.ring.membership.handles, ∀ k, c'.fleet.held x k =
    (c.fleet.held x k).or (if c.ring.Serves down x k then c.offer down sources k else none)
  nodes : Counted (fun a => a ∈ sources ∧ a.id ∉ down) nodes
  keys : Counted (fun p : String × Handle => p.2 ∈ sources ∧ c.Lists down sources p.2 p.1) keys
  copies : Counted (fun p : Handle × String => c.ring.Serves down p.1 p.2 ∧
    c.fleet.held p.1 p.2 = none ∧ c.offer down sources p.2 ≠ none) copies
  failures : ∃ m n, failures = m + n ∧ Counted (fun a => a ∈ sources ∧ a.id ∈ down) m ∧
    Counted (fun p : (Handle × String) × Handle => p.2 ∈ sources ∧
      c.Lists down sources p.2 p.1.2 ∧ p.1.1 ∈ (c.ring.placement p.1.2).members ∧
      p.1.1.id ∈ down) n

section After

variable {c' c'' : Cluster} {keys copies failures : Nat} {sources : List Handle}

/-- What a node has to give after another one has been visited. -/
theorem Visited.given (h : c.Visited down a c' keys copies failures) {b : Handle}
    (hb : b ∈ c.ring.membership.handles) (k : String) :
    c'.given down b k =
      (c.given down b k).or (if c.ring.Serves down b k then c.given down a k else none) := by
  by_cases hd : b.id ∈ down
  · have hserves : ¬ c.ring.Serves down b k := fun h => h.1 hd
    simp [Cluster.given, hd, hserves]
  · rw [Cluster.given, if_neg hd, Cluster.given, if_neg hd, h.data b hb k]

theorem offer_cons (a : Handle) (sources : List Handle) (k : String) :
    c.offer down (a :: sources) k = (c.given down a k).or (c.offer down sources k) := by
  rw [offer, List.findSome?_cons, offer]
  cases c.given down a k <;> rfl

/-- The first value that can be had is the same after a node has been visited. -/
theorem Visited.offer (h : c.Visited down a c' keys copies failures)
    (hsub : ∀ x ∈ sources, x ∈ c.ring.membership.handles) (k : String) :
    c.offer down (a :: sources) k = (c.given down a k).or (c'.offer down sources k) := by
  rw [offer_cons]
  cases hv : c.given down a k with
  | some v => rfl
  | none =>
    congr 1
    induction sources with
    | nil => rfl
    | cons b sources ih =>
      rw [offer_cons, offer_cons, ih fun x hx => hsub x (List.mem_cons_of_mem _ hx),
        h.given (hsub b (List.mem_cons_self ..)), hv, ite_self, Option.or_none]

theorem lists_head (hasc : ∀ b ∈ sources, a.id < b.id) (k : String) :
    c.Lists down (a :: sources) a k ↔ c.given down a k ≠ none := by
  refine ⟨?_, .inl⟩
  rintro (h | ⟨-, b, hb, hlt, -⟩)
  · exact h
  · rcases List.mem_cons.1 hb with rfl | hb
    · exact absurd hlt (irrefl_of (· < ·) b.id)
    · exact absurd (trans_of (· < ·) hlt (hasc b hb)) (irrefl_of (· < ·) b.id)

/-- A later node lists what it held before or got from any node before it. -/
theorem Visited.lists (h : c.Visited down a c' keys copies failures)
    (hsub : ∀ x ∈ sources, x ∈ c.ring.membership.handles)
    {b : Handle} (hb : b ∈ sources) (hlt : a.id < b.id) (k : String) :
    c.Lists down (a :: sources) b k ↔ c'.Lists down sources b k := by
  have hsome : ∀ x ∈ sources, c'.given down x k ≠ none ↔
      c.given down x k ≠ none ∨ c.ring.Serves down x k ∧ c.given down a k ≠ none := by
    intro x hx
    rw [h.given (hsub x hx)]
    cases c.given down x k <;> by_cases hserves : c.ring.Serves down x k <;> simp [hserves]
  rw [Lists, Lists, h.ring, hsome b hb]
  constructor
  · rintro (hk | ⟨hserves, t, ht, htb, hk⟩)
    · exact .inl (.inl hk)
    · rcases List.mem_cons.1 ht with rfl | ht
      · exact .inl (.inr ⟨hserves, hk⟩)
      · exact .inr ⟨hserves, t, ht, htb, (hsome t ht).2 (.inl hk)⟩
  · rintro ((hk | ⟨hserves, hk⟩) | ⟨hserves, t, ht, htb, hk⟩)
    · exact .inl hk
    · exact .inr ⟨hserves, a, List.mem_cons_self .., hlt, hk⟩
    · rcases (hsome t ht).1 hk with hk | ⟨-, hk⟩
      · exact .inr ⟨hserves, t, List.mem_cons_of_mem _ ht, htb, hk⟩
      · exact .inr ⟨hserves, a, List.mem_cons_self .., hlt, hk⟩

/-- A visit of one source and what comes after it. -/
theorem Visited.cons {nodes keys' copies' failures' : Nat} (hc : c.Steady down)
    (h : c.Visited down a c' keys copies failures)
    (h' : c'.Passed down sources c'' nodes keys' copies' failures')
    (hsub : ∀ x ∈ sources, x ∈ c.ring.membership.handles)
    (hasc : ∀ b ∈ sources, a.id < b.id) :
    c.Passed down (a :: sources) c'' ((if a.id ∉ down then 1 else 0) + nodes) (keys + keys')
      (copies + copies') (((if a.id ∈ down then 1 else 0) + failures) + failures') := by
  have hnot : a ∉ sources := fun hm => irrefl_of (· < ·) a.id (hasc a hm)
  have hplaced : ∀ p : Handle × String, c.ring.Serves down p.1 p.2 →
      (c'.fleet.held p.1 p.2 = none ↔ c.fleet.held p.1 p.2 = none ∧ c.given down a p.2 = none) := by
    intro p hp
    rw [h.data p.1 (hc.sound.placement_subset hp.2), if_pos hp, Option.or_eq_none_iff]
  refine ⟨fun x hx k => ?_, ?_, ?_, ?_, ?_⟩
  · rw [h'.data x (by rwa [h.ring]) k, h.data x hx k, h.ring, h.offer hsub]
    by_cases hserves : c.ring.Serves down x k
    · simp only [hserves, if_true, Option.or_assoc]
    · simp [hserves]
  · exact h'.nodes.filter_cons hnot
  · refine Counted.cons (P := fun k b => c.Lists down (a :: sources) b k) hnot
      (h.keys.congr fun k => (lists_head hasc k).symm) (h'.keys.congr fun p => ?_)
    exact and_congr_right fun hp => (h.lists hsub hp (hasc _ hp) _).symm
  · refine (h.copies.or h'.copies ?_).congr fun p => ?_
    · intro p hp hp'
      rw [h.ring] at hp'
      exact hp.2.2 ((hplaced p hp.1).1 hp'.2.1).2
    · rw [h.ring, h.offer hsub, ← and_or_left]
      refine and_congr_right fun hp => ?_
      rw [hplaced p hp]
      cases c.given down a p.2 <;> simp
  · obtain ⟨m, n, rfl, hm, hn⟩ := h'.failures
    refine ⟨(if a.id ∈ down then 1 else 0) + m, failures + n, by omega, hm.filter_cons hnot, ?_⟩
    refine Counted.cons (P := fun q b => c.Lists down (a :: sources) b q.2 ∧
      q.1 ∈ (c.ring.placement q.2).members ∧ q.1.id ∈ down) hnot
      (h.failures.congr fun q => ?_) (hn.congr fun p => ?_)
    · rw [lists_head hasc]
    · rw [h.ring]
      refine and_congr_right fun hp => ?_
      rw [h.lists hsub hp (hasc _ hp)]

end After

/-- **All sources.** The induction is on the sources still to come. What the first of them holds is
what the replicas end up with, so a visit changes nothing about the sources behind it. -/
theorem Steady.sweep_nodes (sources : List Handle) (hc : c.Steady down)
    (hs : s.stage = .betweenNodes) (hsrc : s.sources = sources)
    (hsub : ∀ x ∈ sources, x ∈ c.ring.membership.handles)
    (hasc : sources.Pairwise fun a b => a.id < b.id) :
    ∃ c' nodes keys copies failures, Sweep.Leads down c s c'
        { sources := []
          stage := .finished
          report := s.report.plus nodes keys copies failures } ∧
      c.Passed down sources c' nodes keys copies failures := by
  induction sources generalizing c s with
  | nil =>
    have hunf : s.isFinished = false := by simp [Sweep.isFinished, hs]
    obtain ⟨c', hlead, hfleet⟩ := Sweep.Leads.boundary hc (by simp [hs]) hunf
    have hproceed : (s.proceed c.ring false).1 =
        { sources := [], stage := .finished, report := s.report } := by
      simp only [Sweep.proceed, hs, hsrc]
    rw [hproceed] at hlead
    refine ⟨c', 0, 0, 0, 0, hlead, ?_, .of_false (by simp), .of_false (by simp),
      .of_false (by simp [offer]), 0, 0, rfl, .of_false (by simp), .of_false (by simp)⟩
    intro x _ k
    simp [hfleet, offer]
  | cons a sources ih =>
    rw [List.pairwise_cons] at hasc
    have ha := hsub a (List.mem_cons_self ..)
    have hsub' : ∀ x ∈ sources, x ∈ c.ring.membership.handles :=
      fun x hx => hsub x (List.mem_cons_of_mem _ hx)
    obtain ⟨c₁, keys, copies, failures, hlead₁, hvisited⟩ := hc.sweep_node hs hsrc ha
    obtain ⟨c', nodes', keys', copies', failures', hlead, hpassed⟩ :=
      ih (s := { sources := sources, report := s.report.plus _ _ _ _ }) hlead₁.steady rfl rfl
        (by rwa [hvisited.ring]) hasc.2
    refine ⟨c', _, _, _, _, ?_, hvisited.cons hc hpassed hsub' hasc.1⟩
    simpa only [Report.plus_plus] using hlead₁.trans hlead

end Cluster

end ReplicaRing
