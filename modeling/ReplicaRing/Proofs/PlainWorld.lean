import ReplicaRing.Proofs.PromptSweep

/-!
# Plain worlds

A world is plain if it has a ring, no repair loop, and only nodes without faults. Every operation
that runs alone on such a world is answered, and what it does can be said in one line.

* `Cluster.Plain`, `World.Plain` — the conditions, which all operations keep;
* `World.Acts` — an operation is answered and changes at most the data of the members;
* `World.Idles` — such an operation that changes no data;
* `acts_write`, `acts_read`, `acts_clear`, `acts_repair` — the operations on data;
* `change_cases`, `get_cases` — client operations break off if the clock cannot tell their deadline.
-/

namespace ReplicaRing

/-- A ring with valid options and enough nodes, all of them without faults. -/
structure Cluster.Plain (c : Cluster) : Prop where
  options : c.ring.options.Valid
  enough : c.ring.options.replicaCount ≤ c.ring.membership.size
  sound : c.ring.membership.Sound
  houses : ∀ h ∈ c.ring.membership.handles, c.fleet.Houses h
  memory : c.fleet.Memory

namespace Cluster.Plain

variable {c c' : Cluster}

theorem steady (hc : c.Plain) : c.Steady ∅ where
  sound := hc.sound
  houses := hc.houses
  sorted _ _ := (hc.memory.node _).sorted
  answering _ _ _ := Node.answering_of_none (hc.memory.node _).faults
  failing _ _ hd := absurd hd (Finset.notMem_empty _)

theorem evolve (hc : c.Plain) (h : c.Evolves c') : c'.Plain where
  options := h.ring ▸ hc.options
  enough := h.ring ▸ hc.enough
  sound := h.ring ▸ hc.sound
  houses x hx := h.houses x (hc.houses x (h.ring ▸ hx))
  memory := h.memory hc.memory

theorem placement_length (hc : c.Plain) (key : String) :
    (c.ring.placement key).members.length = c.ring.options.replicaCount :=
  hc.sound.placement_length _ hc.enough

theorem placement_card (hc : c.Plain) (key : String) :
    (c.ring.placement key).members.toFinset.card = c.ring.options.replicaCount := by
  have hnodup : (c.ring.placement key).members.Nodup := hc.sound.placement_nodup _ _
  rw [List.toFinset_card_of_nodup hnodup, hc.placement_length]

theorem placement_ne_nil (hc : c.Plain) (key : String) : (c.ring.placement key).members ≠ [] := by
  rw [← List.length_pos_iff, hc.placement_length]
  exact hc.options.1

theorem placement_houses (hc : c.Plain) {key : String} {x : Handle}
    (hx : x ∈ (c.ring.placement key).members) : c.fleet.Houses x :=
  hc.houses x (hc.sound.placement_subset hx)

theorem handles_ne_nil (hc : c.Plain) : c.ring.membership.handles ≠ [] := by
  rw [← List.length_pos_iff, ← Membership.size_eq]
  exact Nat.lt_of_lt_of_le hc.options.1 hc.enough

end Cluster.Plain

/-- The data under a key that a change is not about. -/
theorem Change.effect_of_ne (change : Change) {key k : String} (hk : k ≠ key)
    (old : Option String) : (change.request key).effect k old = old := by
  cases change <;> simp [Change.request, Request.effect, hk]

namespace Scenario.World

/-- A world with a plain ring and without repair loops. All nodes that it knows exist. -/
structure Plain (w : World) : Prop where
  hasRing : w.hasRing = true
  loops : w.loops = #[]
  cluster : w.cluster.Plain
  known : ∀ id h, w.registry.find? id = some h → h.id = id ∧ w.cluster.fleet.Houses h

/-- An operation is answered and changes at most the data of the members. -/
structure Acts (w : World) (op : Op) (x : Answer)
    (effect : Handle → String → Option String → Option String) (w' : World) : Prop where
  performs : w.Performs op x w'
  plain : w'.Plain
  ring : w'.cluster.ring = w.cluster.ring
  data : ∀ h ∈ w.cluster.ring.membership.handles, ∀ k,
    w'.cluster.fleet.held h k = effect h k (w.cluster.fleet.held h k)

/-- An operation that changes no data of the members. -/
def Idles (w : World) (op : Op) (x : Answer) (w' : World) : Prop :=
  w.Acts op x (fun _ _ old => old) w'

variable {w : World}

theorem Plain.evolve (hw : w.Plain) {c : Cluster} (hc : w.cluster.Evolves c) :
    (settled { w with cluster := c }).Plain where
  hasRing := hw.hasRing
  loops := hw.loops
  cluster := hw.cluster.evolve (hc.trans (.of_eq rfl rfl rfl))
  known id h hh := ⟨(hw.known id h hh).1, hc.houses h (hw.known id h hh).2⟩

/-! ### Operations on data -/

/-- A client operation that breaks off changes no data. -/
theorem acts_breakOff (hw : w.Plain) {op : Op} {kind : ClientOp}
    (hbegin : w.begin op = w.breakOff kind) :
    ∃ w', w.Idles op (.overflow .deadline) w' :=
  ⟨_, performs_of_answered hw.loops hbegin, hw.evolve (.of_eq rfl rfl rfl), rfl, fun _ _ _ => rfl⟩

theorem timedOut_of_acked {f : FanOut} (h : f.acked = f.members) : f.timedOut = [] := by
  rw [FanOut.timedOut, List.filter_eq_nil_iff]
  intro id hid
  simp [h, hid]

/-- A write that every member has applied is answered so. -/
theorem ofWrite_acked {c : Cluster} {r : Write} (hdone : r.flights = [])
    (hacked : r.outcome.acked = r.outcome.members) (hfailed : r.outcome.failed = [])
    (hq : c.ring.options.writeQuorum ≤ r.outcome.members.length) :
    ∃ c', c'.ring = c.ring ∧ c'.env = c.env ∧ c'.fleet = c.fleet ∧
      Activity.ofWrite c r true =
        (.answered c'.now (.written ⟨r.outcome.members, []⟩), c') := by
  have hdone' : r.isDone = true := by rw [Write.isDone, hdone]; rfl
  have htimed := timedOut_of_acked hacked
  let c' := (c.report (r.outcome.events r.change.op r.key)).endOp r.change.op
    r.outcome.misses r.started
  have hsettle : r.outcome.settle c'.ring.options r.key (.ofMillis (c'.now - r.started)) =
      .ok ⟨r.outcome.members, []⟩ := by
    have hq' : c'.ring.options.writeQuorum ≤ r.outcome.acks := by
      rw [FanOut.acks, hacked]
      exact hq
    rw [FanOut.settle, if_pos hq', FanOut.missed, hfailed, htimed, hacked]
    rfl
  refine ⟨c', rfl, rfl, rfl, ?_⟩
  rw [Activity.ofWrite, if_pos hdone', if_pos rfl]
  simp only [c'] at hsettle ⊢
  rw [hsettle]
  rfl

/-- **Writes.** Every replica of the key applies the change, and nobody else. -/
theorem acts_write (hw : w.Plain) (change : Change) (key : String) {timeout : Option Duration}
    (hfits : (w.cluster.ring.options.limit timeout).fits = true) :
    ∃ w', w.Acts (changeOp key timeout change)
      (.written ⟨(w.cluster.ring.placement key).ids, []⟩)
      (fun h k old => if h ∈ (w.cluster.ring.placement key).members then
        (change.request key).effect k old else old) w' := by
  let p := w.cluster.ring.placement key
  let c₀ := (w.cluster.beginOp change.op).report [w.cluster.ring.placementEvent key]
  let r : Write :=
    { change := change
      key := key
      started := c₀.now
      deadline := c₀.now + (w.cluster.ring.options.limit timeout).ticks
      flights := p.members.map fun h => ⟨h, c₀.now, .forward⟩
      outcome := { members := p.ids } }
  have hstart : Write.start w.cluster.env w.cluster.now
      (w.cluster.ring.options.limit timeout) change key p w.cluster.fleet =
      (r, w.cluster.fleet) :=
    start_memory hw.cluster.memory _ _ _ _ _ _ fun x hx => hw.cluster.placement_houses hx
  have hnone : ¬ r.isDone = true := by
    simp [Write.isDone, r, p, hw.cluster.placement_ne_nil key]
  have hof : Activity.ofWrite c₀ r true = (.write r true, c₀) := by
    rw [Activity.ofWrite, if_neg hnone]
  have hbegin : w.begin (changeOp key timeout change) =
      (.write r true, { w with cluster := c₀ }) :=
    (begin_change hw.hasRing hfits hstart).trans (congrArg w.started hof)
  obtain ⟨c₁, hring₁, henv₁, hfleet₁, hdrain⟩ :=
    drain_write (w := { w with cluster := c₀ }) p.members (hw.cluster.placement_ne_nil key)
      hw.loops (r := r) rfl (Nat.le_add_right _ _)
  have hquorum : c₁.ring.options.writeQuorum ≤ p.ids.length := by
    rw [hring₁, Placement.ids, List.length_map, hw.cluster.placement_length key]
    exact hw.cluster.options.2.1.2
  obtain ⟨c, hring, henv, hfleet, hanswer⟩ :=
    ofWrite_acked (c := c₁) (r := acked r p.members) rfl rfl rfl hquorum
  rw [hanswer] at hdrain
  have hst : c₀.Steady ∅ := hw.cluster.steady.of_eq rfl rfl rfl
  have hev₀ : w.cluster.Evolves c₀ := .of_eq rfl rfl rfl
  obtain ⟨hev, hdata⟩ := hst.serveAll (change.request key) p.members
    (fun x hx => hw.cluster.sound.placement_subset hx)
    (hw.cluster.sound.placement_nodup _ _) (hring.trans hring₁) (henv.trans henv₁)
    (hfleet.trans hfleet₁)
  have hev' : w.cluster.Evolves c := hev₀.trans hev
  exact ⟨_, performs_of_drain hw.loops hbegin (hdrain.trans (drain_answered _ _ _)),
    hw.evolve hev', hev'.ring, hdata⟩

/-- **Reads.** The first replica that holds the key answers, and nothing changes. -/
theorem acts_read (hw : w.Plain) (key : String) {timeout : Option Duration}
    (hfits : (w.cluster.ring.options.limit timeout).fits = true) :
    ∃ w', w.Idles (.get key timeout)
      (.value ((w.cluster.ring.placement key).members.findSome? fun h =>
        w.cluster.fleet.held h key)) w' := by
  let p := w.cluster.ring.placement key
  let c₀ := (w.cluster.beginOp .get).report [w.cluster.ring.placementEvent key]
  let deadline := c₀.now + (w.cluster.ring.options.limit timeout).ticks
  let r : ReadRun :=
    { read := .start key p
      started := c₀.now
      deadline := deadline
      inquiry := p.members.head?.map fun h => ⟨⟨h, c₀.now, .forward⟩, some deadline⟩ }
  have hhouses : ∀ x ∈ p.members, c₀.fleet.Houses x :=
    fun x hx => hw.cluster.placement_houses hx
  have hask : c₀.askHead p.members (.get key) (some deadline) = (r.inquiry, c₀) :=
    askHead_memory (c := c₀) hw.cluster.memory _ hhouses _ _
  have hstart : ReadRun.start c₀ key p (c₀.ring.options.limit timeout) = (r, c₀) :=
    congrArg (fun q => (({ r with started := q.2.now, inquiry := q.1 } : ReadRun), q.2)) hask
  have hnone : ¬ r.read.isDone = true := by
    simp [Read.isDone, r, Read.start, p, hw.cluster.placement_ne_nil key]
  have hof : Activity.ofRead c₀ r (p.primary?.map (·.id)) true =
      (.read r (p.primary?.map (·.id)) true, c₀) := by
    rw [Activity.ofRead, if_neg hnone]
  have hbegin : w.begin (.get key timeout) =
      (.read r (p.primary?.map (·.id)) true, { w with cluster := c₀ }) :=
    (begin_get hw.hasRing hfits hstart).trans (congrArg w.started hof)
  have hquorum : w.cluster.ring.options.readQuorum ≤ 0 + p.members.length := by
    rw [Nat.zero_add, hw.cluster.placement_length key]
    exact hw.cluster.options.2.2.1.2
  obtain ⟨c, t, hring, henv, hfleet, hdrain⟩ :=
    drain_read (w := { w with cluster := c₀ }) p.members (hw.cluster.placement_ne_nil key)
      hw.loops hw.cluster.memory hhouses (r := r) (n := 0) rfl rfl
      (Nat.le_add_right _ _) ⟨rfl, rfl, fun _ => rfl⟩ hquorum _
  exact ⟨_, performs_of_drain hw.loops hbegin hdrain, hw.evolve (.of_eq hring henv hfleet), hring,
    fun h _ k => congrArg (Fleet.held · h k) hfleet⟩

/-- A change reaches every replica of its key, or breaks off. -/
theorem change_cases (hw : w.Plain) (change : Change) (key : String) (timeout : Option Duration) :
    ((w.cluster.ring.options.limit timeout).fits = true ∧
      ∃ w', w.Acts (changeOp key timeout change)
        (.written ⟨(w.cluster.ring.placement key).ids, []⟩)
        (fun h k old => if h ∈ (w.cluster.ring.placement key).members then
          (change.request key).effect k old else old) w') ∨
    (w.cluster.ring.options.limit timeout).fits = false ∧
      ∃ w', w.Idles (changeOp key timeout change) (.overflow .deadline) w' := by
  by_cases hfits : (w.cluster.ring.options.limit timeout).fits = true
  · exact .inl ⟨hfits, acts_write hw change key hfits⟩
  · exact .inr ⟨Bool.eq_false_iff.2 hfits, acts_breakOff hw (breaks_change hw.hasRing hfits)⟩

/-- A get is answered with the first value of its key, or breaks off. -/
theorem get_cases (hw : w.Plain) (key : String) (timeout : Option Duration) :
    ((w.cluster.ring.options.limit timeout).fits = true ∧
      ∃ w', w.Idles (.get key timeout)
        (.value ((w.cluster.ring.placement key).members.findSome? fun h =>
          w.cluster.fleet.held h key)) w') ∨
    (w.cluster.ring.options.limit timeout).fits = false ∧
      ∃ w', w.Idles (.get key timeout) (.overflow .deadline) w' := by
  by_cases hfits : (w.cluster.ring.options.limit timeout).fits = true
  · exact .inl ⟨hfits, acts_read hw key hfits⟩
  · exact .inr ⟨Bool.eq_false_iff.2 hfits, acts_breakOff hw (breaks_get hw.hasRing hfits)⟩

/-- **Wipes.** Every member loses everything. -/
theorem acts_clear (hw : w.Plain) : ∃ w', w.Acts .clear .done (fun _ _ _ => none) w' := by
  let ahead := w.cluster.ring.membership.handles
  let r : WipeRun :=
    ⟨.start w.cluster.ring.membership,
      ahead.head?.map fun h => ⟨⟨h, w.cluster.now, .forward⟩, none⟩⟩
  have hask : w.cluster.askHead ahead .clear none = (r.inquiry, w.cluster) :=
    askHead_memory hw.cluster.memory _ hw.cluster.houses _ _
  have hstart : WipeRun.start w.cluster = (r, w.cluster) :=
    congrArg (fun q => ((⟨r.wipe, q.1⟩ : WipeRun), q.2)) hask
  have hnone : ¬ r.wipe.isDone = true := by
    simp [Wipe.isDone, r, Wipe.start, hw.cluster.handles_ne_nil]
  have hbegin : w.begin .clear = (.wipe r, w) := by
    have h := congrArg (fun q => w.started (Activity.ofWipe q.2 q.1)) hstart
    have hof : Activity.ofWipe w.cluster r = (.wipe r, w.cluster) := by
      rw [Activity.ofWipe, if_neg hnone]
    rw [begin_of_hasRing hw.hasRing]
    exact h.trans (congrArg w.started hof)
  obtain ⟨c, t, hring, henv, hfleet, hdrain⟩ :=
    drain_wipe (w := w) ahead hw.cluster.handles_ne_nil hw.loops hw.cluster.memory
      hw.cluster.houses (r := r) rfl rfl rfl
  obtain ⟨hev, hdata⟩ := hw.cluster.steady.serveAll .clear ahead (fun x hx => hx)
    hw.cluster.sound.handles_nodup hring henv hfleet
  exact ⟨_, performs_of_drain hw.loops hbegin hdrain, hw.evolve hev, hring,
    fun h hh k => (hdata h hh k).trans (if_pos hh)⟩

/-- **Sweeps.** Every replica that lacks a key gets the first value there is, unless the sweep has
been told to stop: then it changes nothing. -/
theorem acts_repair (hw : w.Plain) (cancelAfter : Option Duration) :
    (∃ r told w', r.cancelled = false ∧ w.Acts (.repair cancelAfter) (.report r told)
      (fun h k old => old.or (if h ∈ (w.cluster.ring.placement k).members then
        w.cluster.ring.membership.handles.findSome? fun a => w.cluster.fleet.held a k
        else none)) w') ∨
    ∃ r told w', cancelAfter ≠ none ∧ r.cancelled = true ∧
      w.Acts (.repair cancelAfter) (.report r told) (fun _ _ old => old) w' := by
  cases hstop : cancelledBy (cancelAfter.map w.cluster.after) w.cluster.now with
  | false =>
    obtain ⟨c, r, told, hperforms, hev, hcancel, hpassed⟩ :=
      performs_repair_prompt hw.hasRing hw.loops hw.cluster.steady hw.cluster.memory hstop
    have hev' : w.cluster.Evolves (SweepRun.close r c) := hev.trans (.of_eq rfl rfl rfl)
    refine .inl ⟨r, told, _, hcancel, hperforms, hw.evolve hev', hev.ring, fun h hh k => ?_⟩
    refine (hpassed.data h hh k).trans ?_
    have hgiven : ∀ a, w.cluster.given ∅ a k = w.cluster.fleet.held a k :=
      fun a => if_neg (by simp)
    simp [Ring.Serves, Cluster.offer, hgiven]
  | true =>
    have hne : cancelAfter ≠ none := by
      rintro rfl
      exact absurd hstop Bool.false_ne_true
    obtain ⟨r, told, hperforms, hcancel⟩ :=
      performs_repair_stopped hw.hasRing hw.loops hw.cluster.handles_ne_nil hstop
    exact .inr ⟨r, told, _, hne, hcancel, hperforms, hw.evolve (.of_eq rfl rfl rfl), rfl,
      fun _ _ _ => rfl⟩

end Scenario.World

end ReplicaRing
