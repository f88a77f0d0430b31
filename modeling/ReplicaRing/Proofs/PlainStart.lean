import ReplicaRing.Proofs.PlainMembership

/-!
# The start of plain worlds

A scenario whose nodes have no faults starts in a plain world, whichever way its ring is built.

* `enlistAll_houses`, `mem_enlistAll` — the fleet of a scenario;
* `enter_ok`, `create_ok`, `ringWorld_ok` — what is known of a ring that could be built;
* `initialWorld_plain` — the world in which a scenario starts.
-/

namespace ReplicaRing

/-! ### Registries -/

theorem OrderedMap.find?_foldl_insert {κ α : Type} [DecidableEq κ] [LT κ] [DecidableLT κ]
    {pairs : List (κ × α)} {m : OrderedMap κ α} {k : κ} {a : α}
    (h : (pairs.foldl (fun m p => m.insert p.1 p.2) m).find? k = some a) :
    (k, a) ∈ pairs ∨ m.find? k = some a := by
  induction pairs generalizing m with
  | nil => exact .inr h
  | cons p pairs ih =>
    rcases ih h with hmem | hfind
    · exact .inl (List.mem_cons_of_mem _ hmem)
    · rw [find?_insert] at hfind
      split at hfind
      · next hk =>
        obtain rfl := Option.some.inj hfind
        exact .inl (List.mem_cons.2 (.inl (by rw [hk])))
      · exact .inr hfind

theorem OrderedMap.mem_of_find?_ofList {κ α : Type} [DecidableEq κ] [LT κ] [DecidableLT κ]
    {pairs : List (κ × α)} {k : κ} {a : α} (h : (ofList pairs).find? k = some a) :
    (k, a) ∈ pairs := by
  rcases find?_foldl_insert h with hmem | hnone
  · exact hmem
  · exact absurd hnone.symm (Option.some_ne_none a)

/-! ### Rings that could be built -/

namespace Ring

theorem enter_ok {nodes out : OrderedMap NodeId Handle} {handles : List Handle}
    (h : enter nodes handles = .ok out) (hnodes : (Membership.mk nodes 0).Sound) :
    (Membership.mk out 0).Sound ∧
      (Membership.mk out 0).handles.Perm (handles ++ (Membership.mk nodes 0).handles) := by
  induction handles generalizing nodes with
  | nil =>
    obtain rfl := Except.ok.inj h
    exact ⟨hnodes, .refl _⟩
  | cons x handles ih =>
    rw [enter] at h
    split at h
    · exact absurd h (by simp)
    · next hnot =>
      have hfresh : (Membership.mk nodes 0).find? x.id = none := by
        rw [OrderedMap.contains, Option.isSome_iff_ne_none, not_not] at hnot
        exact hnot
      obtain ⟨hsound, hperm⟩ := ih h (hnodes.insert hfresh 0)
      refine ⟨hsound, hperm.trans ?_⟩
      exact ((Membership.handles_insert hfresh 0).append_left handles).trans
        List.perm_middle

/-- A ring that could be built has valid options, enough nodes and just the nodes it was built
of. -/
theorem create_ok {hasher : KeyHasher} {options : RingOptions} {handles : List Handle} {r : Ring}
    (h : create hasher options handles = .ok r) :
    r.hasher = hasher ∧ r.options = options ∧ options.Valid ∧
      options.replicaCount ≤ r.membership.size ∧ r.membership.Sound ∧
      r.membership.handles.Perm handles := by
  rw [create, RingOptions.validate] at h
  cases hfault : options.fault? with
  | some fault =>
    rw [hfault] at h
    exact absurd h (by simp)
  | none =>
    rw [hfault] at h
    simp only at h
    split at h
    · exact absurd h (by simp)
    · next hsize =>
      cases henter : enter .empty handles with
      | error e =>
        rw [henter] at h
        exact absurd h (by simp [Except.map])
      | ok nodes =>
        rw [henter] at h
        obtain rfl := Except.ok.inj h
        obtain ⟨hsound, hperm⟩ := enter_ok henter ⟨List.Pairwise.nil, by simp [OrderedMap.empty]⟩
        have hperm' : (Membership.mk nodes 0).handles.Perm handles := by
          simpa [Membership.handles, OrderedMap.empty, OrderedMap.values] using hperm
        refine ⟨rfl, rfl, (RingOptions.fault?_eq_none_iff options).1 hfault, ?_, hsound, hperm'⟩
        rw [Membership.size_eq, hperm'.length_eq]
        omega

/-- A new ring has not been changed yet. -/
theorem create_version {hasher : KeyHasher} {options : RingOptions} {handles : List Handle}
    {r : Ring} (h : create hasher options handles = .ok r) : r.membership.version = 0 := by
  rw [create] at h
  split at h
  · exact nomatch h
  · split at h
    · exact nomatch h
    · cases henter : enter .empty handles with
      | error e =>
        rw [henter] at h
        exact nomatch h
      | ok nodes =>
        rw [henter] at h
        obtain rfl := Except.ok.inj h
        rfl

theorem createRandom_ok {hasher : KeyHasher} {options : RingOptions} {size slot : Nat}
    {draws : List NodeId} {p : Ring × List Handle}
    (h : createRandom hasher options size slot draws = .ok p) :
    p.2 = randomHandles size slot draws ∧ create hasher options p.2 = .ok p.1 := by
  rw [createRandom] at h
  split at h
  · exact absurd h (by simp)
  · cases hcreate : create hasher options (randomHandles size slot draws) with
    | error e =>
      simp only [hcreate] at h
      exact absurd h (by simp [Except.map])
    | ok r =>
      simp only [hcreate] at h
      obtain rfl := Except.ok.inj h
      exact ⟨rfl, hcreate⟩

end Ring

/-! ### Fleets of scenarios -/

namespace Scenario

theorem enlistAll_fst (ns : List Node) (f : Fleet) :
    (enlistAll ns f).1 = (ns.zipIdx f.nodes.size).map fun e => ⟨e.1.id, e.2⟩ := by
  induction ns generalizing f with
  | nil => rfl
  | cons n ns ih =>
    rw [enlistAll, List.zipIdx_cons, List.map_cons]
    simp only [ih]
    rw [Fleet.enlist, Array.size_push]

theorem houses_enlistAll (ns : List Node) {f : Fleet} {h : Handle} (hh : f.Houses h) :
    (enlistAll ns f).2.Houses h := by
  induction ns generalizing f with
  | nil => exact hh
  | cons n ns ih => exact ih (Fleet.houses_enlist n hh)

/-- All nodes that are enlisted are found under their handles. -/
theorem enlistAll_houses (ns : List Node) (f : Fleet) :
    ∀ h ∈ (enlistAll ns f).1, (enlistAll ns f).2.Houses h := by
  induction ns generalizing f with
  | nil => exact fun h hh => absurd hh List.not_mem_nil
  | cons n ns ih =>
    intro h hh
    rcases List.mem_cons.1 hh with rfl | hh
    · exact houses_enlistAll ns (Fleet.enlisted f n).1
    · exact ih _ h hh

/-- A fleet has no other nodes than those that were enlisted. -/
theorem mem_enlistAll {ns : List Node} {f : Fleet} {n : Node}
    (hn : n ∈ (enlistAll ns f).2.nodes) : n ∈ f.nodes ∨ n ∈ ns := by
  induction ns generalizing f with
  | nil => exact .inl hn
  | cons x ns ih =>
    rcases ih hn with h | h
    · rcases Array.mem_push.1 h with h | rfl
      · exact .inl h
      · exact .inr (List.mem_cons_self ..)
    · exact .inr (List.mem_cons_of_mem _ h)

/-- New nodes at random places get the handles under which they are enlisted. -/
theorem enlistAll_random (size : Nat) (draws : List NodeId) (f : Fleet) :
    (enlistAll ((Ring.randomHandles size f.nodes.size draws).map fun h => { id := h.id }) f).1 =
      Ring.randomHandles size f.nodes.size draws := by
  rw [enlistAll_fst, List.zipIdx_map, List.map_map]
  refine List.ext_getElem (by simp) fun i h₁ h₂ => ?_
  simp [Ring.randomHandles]

/-- A ring that could be built of nodes without faults, some of which are new and empty, makes a
world plain. -/
theorem plain_of_create {w : World} {hasher : KeyHasher} {options : RingOptions}
    {handles : List Handle} {nodes : List Node} (hn : ∀ n ∈ nodes, n.IsMemory)
    (hcreate : Ring.create hasher options handles = .ok w.cluster.ring)
    (hring : w.hasRing = true) (hloops : w.loops = #[])
    (hhouses : ∀ h ∈ handles, w.cluster.fleet.Houses h)
    (hnodes : ∀ n ∈ w.cluster.fleet.nodes, n ∈ nodes ∨ n.faults = .none ∧ n.store = .empty)
    (hknown : ∀ id h, w.registry.find? id = some h → h.id = id ∧ w.cluster.fleet.Houses h) :
    w.Plain ∧ w.cluster.ring.options = options ∧ w.cluster.ring.hasher = hasher ∧
      ∀ n ∈ w.cluster.fleet.nodes, n ∈ nodes ∨ n.store = .empty := by
  obtain ⟨hhasher, hoptions, hvalid, henough, hsound, hperm⟩ := Ring.create_ok hcreate
  have hmemory : w.cluster.fleet.Memory := by
    intro n h
    rcases hnodes n h with h | ⟨hfaults, hstore⟩
    · exact hn n h
    · exact ⟨hfaults, by rw [hstore]; exact List.Pairwise.nil⟩
  exact ⟨⟨hring, hloops, ⟨hoptions ▸ hvalid, hoptions ▸ henough, hsound,
    fun h hh => hhouses h (hperm.mem_iff.1 hh), hmemory⟩, hknown⟩, hoptions, hhasher,
    fun n h => (hnodes n h).imp_right And.right⟩

/-- The world with the ring of a plan, if that could be built: the ring is built of nodes that
exist, which are those of the scenario or new ones. -/
theorem ringWorld_ok {s : Scenario} {nodes : List Node} {plan : RingPlan} {w : World}
    (hw : ringWorld (s.ringlessWorld (enlistAll nodes {}).1 (enlistAll nodes {}).2)
      (enlistAll nodes {}).1 plan = .ok w) :
    ∃ handles, Ring.create s.hasher plan.options handles = .ok w.cluster.ring ∧
      w.hasRing = true ∧ w.loops = #[] ∧ (∀ h ∈ handles, w.cluster.fleet.Houses h) ∧
      (∀ n ∈ w.cluster.fleet.nodes, n ∈ nodes ∨ n.faults = .none ∧ n.store = .empty) ∧
      ∀ id h, w.registry.find? id = some h → h.id = id ∧ w.cluster.fleet.Houses h := by
  have hregistry : ∀ id h, (OrderedMap.ofList ((enlistAll nodes {}).1.map fun h =>
      (h.id, h))).find? id = some h → h.id = id ∧ (enlistAll nodes {}).2.Houses h := by
    intro id h hh
    obtain ⟨x, hx, he⟩ := List.mem_map.1 (OrderedMap.mem_of_find?_ofList hh)
    obtain ⟨rfl, rfl⟩ := Prod.mk.inj he
    exact ⟨rfl, enlistAll_houses nodes {} x hx⟩
  have hmem : ∀ n ∈ (enlistAll nodes {}).2.nodes, n ∈ nodes := fun n h =>
    (mem_enlistAll h).resolve_left (by simp)
  rw [ringWorld] at hw
  cases hsize : plan.randomSize with
  | none =>
    simp only [hsize, ringlessWorld] at hw
    cases hcreate : Ring.create s.hasher plan.options (enlistAll nodes {}).1 with
    | error e =>
      rw [hcreate] at hw
      exact absurd hw (by simp [Except.map])
    | ok r =>
      rw [hcreate] at hw
      obtain rfl := Except.ok.inj hw
      exact ⟨_, hcreate, rfl, rfl, enlistAll_houses nodes {}, fun n h => .inl (hmem n h), hregistry⟩
  | some size =>
    let w₀ := s.ringlessWorld (enlistAll nodes {}).1 (enlistAll nodes {}).2
    simp only [hsize] at hw
    cases hcreate : Ring.createRandom w₀.cluster.ring.hasher plan.options size
        w₀.cluster.fleet.nodes.size (w₀.draws size) with
    | error e =>
      rw [hcreate] at hw
      exact absurd hw (by simp [Except.map])
    | ok p =>
      rw [hcreate] at hw
      obtain rfl := Except.ok.inj hw
      obtain ⟨hp, hring⟩ := Ring.createRandom_ok hcreate
      have hfst : (enlistAll (p.2.map fun h => { id := h.id }) w₀.cluster.fleet).1 = p.2 := by
        rw [hp]
        exact enlistAll_random size _ _
      refine ⟨_, hring, rfl, rfl, fun h hh => ?_, fun n h => ?_, fun id h hh => ?_⟩
      · exact enlistAll_houses _ _ h ((congrArg (h ∈ ·) hfst).mpr hh)
      · rcases mem_enlistAll h with h | h
        · exact .inl (hmem n h)
        · obtain ⟨x, -, rfl⟩ := List.mem_map.1 h
          exact .inr ⟨rfl, rfl⟩
      · exact ⟨(hregistry id h hh).1, houses_enlistAll _ (hregistry id h hh).2⟩

/-- The nodes of a scenario and its ring, if that could be built. -/
theorem ringWorld_plain {s : Scenario} {nodes : List Node} {plan : RingPlan} {w : World}
    (hn : ∀ n ∈ nodes, n.IsMemory)
    (hw : ringWorld (s.ringlessWorld (enlistAll nodes {}).1 (enlistAll nodes {}).2)
      (enlistAll nodes {}).1 plan = .ok w) :
    w.Plain ∧ w.cluster.ring.options = plan.options ∧ w.cluster.ring.hasher = s.hasher ∧
      ∀ n ∈ w.cluster.fleet.nodes, n ∈ nodes ∨ n.store = .empty := by
  obtain ⟨handles, hcreate, hring, hloops, hhouses, hnodes, hknown⟩ := ringWorld_ok hw
  exact plain_of_create hn hcreate hring hloops hhouses hnodes hknown

/-- **The start of a plain world.** A scenario whose nodes have no faults and whose ring could be
built starts in a plain world, in which no node has other data than those of the scenario. -/
theorem initialWorld_plain {s : Scenario} {plan : RingPlan} {w : World}
    (hn : ∀ n ∈ s.nodes, n.IsMemory) (hplan : s.ring = some plan) (hw : s.initialWorld = .ok w) :
    w.Plain ∧ w.cluster.ring.options = plan.options ∧ w.cluster.ring.hasher = s.hasher ∧
      ∀ n ∈ w.cluster.fleet.nodes, n ∈ s.nodes ∨ n.store = .empty := by
  rw [initialWorld, hplan] at hw
  exact ringWorld_plain hn hw

/-- Three empty nodes, two of which are responsible for every key. -/
def emptyTrio : ReplicaRing.Scenario where
  nodes := [{ id := ⟨10⟩ }, { id := ⟨20⟩ }, { id := ⟨30⟩ }]
  hasher := fun _ => 0
  ring := some { options := { replicaCount := 2 } }
  steps := []

theorem emptyTrio_nodes : ∀ n ∈ emptyTrio.nodes, n.faults = .none ∧ n.store = .empty := by
  simp [emptyTrio, OrderedMap.empty]

end Scenario

end ReplicaRing
