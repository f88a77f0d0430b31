import ReplicaRing.Proofs.PlainWorld

/-!
# Changes of membership on plain worlds

A change of membership either fails and leaves the ring as it was, or adds or removes one node and
touches no data.

* `Ring.add_cases`, `Ring.drop_cases` — what the two changes can do to a ring;
* `World.Leaves`, `World.Joins` — an operation that removes a node, or adds one;
* `drop_cases`, `add_cases`, `addAgain_cases`, `addRandom_cases`, `dropRandom_cases` — what the
  operations can do to a plain world.
-/

namespace ReplicaRing

namespace Ring

variable {r : Ring}

/-- The ring with another set of nodes. -/
def withNodes (r : Ring) (nodes : OrderedMap NodeId Handle) : Ring :=
  { r with membership := ⟨nodes, r.membership.version + 1⟩ }

theorem publish_cases (r : Ring) (nodes : OrderedMap NodeId Handle) :
    (∃ e, r.publish nodes = .error e) ∨
      r.publish nodes = .ok (r.withNodes nodes) ∧ r.options.replicaCount ≤ nodes.size := by
  rw [publish]
  split
  · exact .inl ⟨_, rfl⟩
  · next h => exact .inr ⟨rfl, Nat.not_lt.1 h⟩

/-- Adding a node fails, or the node is new and the only change. -/
theorem add_cases (r : Ring) (h : Handle) :
    (∃ e, r.add h = .error e) ∨
      r.add h = .ok (r.withNodes (r.membership.nodes.insert h.id h)) ∧
        r.membership.find? h.id = none ∧
        r.options.replicaCount ≤ (r.membership.nodes.insert h.id h).size := by
  rw [add]
  split
  · exact .inl ⟨_, rfl⟩
  · next hnot =>
    have hfresh : r.membership.find? h.id = none := by
      rw [Membership.contains, OrderedMap.contains, Option.isSome_iff_ne_none, not_not] at hnot
      exact hnot
    obtain he | ⟨hok, hsize⟩ := publish_cases r (r.membership.nodes.insert h.id h)
    · exact .inl he
    · exact .inr ⟨hok, hfresh, hsize⟩

/-- Dropping a node fails, or the node was there and its leaving is the only change. -/
theorem drop_cases (r : Ring) (id : NodeId) :
    (∃ e, r.drop id = .error e) ∨
      ∃ h, r.drop id = .ok (h, r.withNodes (r.membership.nodes.erase id)) ∧
        r.membership.find? id = some h ∧
        r.options.replicaCount ≤ (r.membership.nodes.erase id).size := by
  rw [drop]
  cases hfind : r.membership.find? id with
  | none => exact .inl ⟨_, rfl⟩
  | some h =>
    obtain ⟨e, he⟩ | ⟨hok, hsize⟩ := publish_cases r (r.membership.nodes.erase id)
    · exact .inl ⟨e, by rw [he]; rfl⟩
    · exact .inr ⟨h, by rw [hok]; rfl, rfl, hsize⟩

end Ring

/-! ### New nodes -/

namespace Fleet

variable {f : Fleet} {h : Handle} {n : Node}

theorem getElem?_enlist_of_lt {s : Nat} {x : Node} (hs : f.nodes[s]? = some x) (n : Node) :
    (f.enlist n).2.nodes[s]? = some x := by
  have hlt := (Array.getElem?_eq_some_iff.1 hs).1
  rw [enlist, Array.getElem?_push_lt hlt, ← hs, Array.getElem?_eq_getElem hlt]

theorem houses_enlist (n : Node) (hh : f.Houses h) : (f.enlist n).2.Houses h := by
  obtain ⟨x, hx, hid⟩ := hh
  exact ⟨x, getElem?_enlist_of_lt hx n, hid⟩

theorem node_enlist (n : Node) (hh : f.Houses h) : (f.enlist n).2.node h = f.node h := by
  obtain ⟨x, hx, -⟩ := hh
  rw [node_eq hx, node_eq (getElem?_enlist_of_lt hx n)]

/-- A new node is found under its new handle. -/
theorem enlisted (f : Fleet) (n : Node) :
    (f.enlist n).2.Houses (f.enlist n).1 ∧ (f.enlist n).2.node (f.enlist n).1 = n := by
  have hx : (f.enlist n).2.nodes[(f.enlist n).1.slot]? = some n := Array.getElem?_push_size
  exact ⟨⟨n, hx, rfl⟩, node_eq hx⟩

theorem Memory.enlist (hf : f.Memory) (hn : n.IsMemory) : (f.enlist n).2.Memory := by
  intro x hx
  rcases Array.mem_push.1 hx with hx | rfl
  · exact hf x hx
  · exact hn

end Fleet

theorem Cluster.Evolves.enlist (c : Cluster) {n : Node} (hn : n.IsMemory) :
    c.Evolves { c with fleet := (c.fleet.enlist n).2 } where
  ring := rfl
  env := rfl
  houses _ hx := Fleet.houses_enlist n hx
  others _ hx _ := Fleet.node_enlist n hx
  memory hm := hm.enlist hn

/-- A plain ring stays plain when a new node joins it. -/
theorem Cluster.Plain.join {c : Cluster} (hc : c.Plain) {h : Handle} (hh : c.fleet.Houses h)
    (hfresh : c.ring.membership.find? h.id = none)
    (hsize : c.ring.options.replicaCount ≤ (c.ring.membership.nodes.insert h.id h).size) :
    Cluster.Plain { c with ring := c.ring.withNodes (c.ring.membership.nodes.insert h.id h) } where
  options := hc.options
  enough := hsize
  sound := hc.sound.insert hfresh _
  houses x hx := by
    rcases List.mem_cons.1 ((Membership.handles_insert hfresh _).mem_iff.1 hx) with rfl | hx
    · exact hh
    · exact hc.houses x hx
  memory := hc.memory

namespace Scenario.World

/-- An operation removes the node of an identity and changes no data. -/
structure Leaves (w : World) (op : Op) (x : Answer) (id : NodeId) (w' : World) : Prop where
  performs : w.Performs op x w'
  plain : w'.Plain
  ring : w'.cluster.ring = w.cluster.ring.withNodes (w.cluster.ring.membership.nodes.erase id)
  fleet : w'.cluster.fleet = w.cluster.fleet

/-- An operation adds a node of a new identity with its data and changes no other data. -/
structure Joins (w : World) (op : Op) (x : Answer) (h : Handle) (s : Store) (w' : World) :
    Prop where
  performs : w.Performs op x w'
  plain : w'.Plain
  ring : w'.cluster.ring = w.cluster.ring.withNodes (w.cluster.ring.membership.nodes.insert h.id h)
  fresh : w.cluster.ring.membership.find? h.id = none
  brings : ∀ k, w'.cluster.fleet.held h k = s.find? k
  data : ∀ x ∈ w.cluster.ring.membership.handles, ∀ k,
    w'.cluster.fleet.held x k = w.cluster.fleet.held x k

variable {w w' : World} {op : Op} {x : Answer} {h : Handle} {id : NodeId}

/-- The members behind a node that leaves. -/
theorem Leaves.handles_eq (hl : w.Leaves op x id w') (hw : w.Plain) :
    w'.cluster.ring.membership.handles =
      w.cluster.ring.membership.handles.filter (·.id ≠ id) := by
  rw [hl.ring]
  exact Membership.handles_erase hw.cluster.sound id _

theorem Leaves.mem_handles (hl : w.Leaves op x id w') (hw : w.Plain) :
    h ∈ w'.cluster.ring.membership.handles ↔
      h ∈ w.cluster.ring.membership.handles ∧ h.id ≠ id := by
  rw [hl.handles_eq hw, List.mem_filter, decide_eq_true_eq]

/-- The replicas of a key stay its replicas when another node leaves. -/
theorem Leaves.mem_placement (hl : w.Leaves op x id w') (hw : w.Plain) {k : String}
    (hh : h ∈ (w.cluster.ring.placement k).members) (hid : h.id ≠ id) :
    h ∈ (w'.cluster.ring.placement k).members := by
  rw [hl.ring]
  exact Membership.placement_erase hw.cluster.sound _ hh hid

theorem Leaves.options (hl : w.Leaves op x id w') :
    w'.cluster.ring.options = w.cluster.ring.options := by
  rw [hl.ring]
  rfl

theorem Leaves.held (hl : w.Leaves op x id w') (h : Handle) (k : String) :
    w'.cluster.fleet.held h k = w.cluster.fleet.held h k := by rw [hl.fleet]

/-- A node that leaves takes at most one member of a set with it. -/
theorem Leaves.card_le (hw : w.Plain) {S : Finset Handle}
    (hS : ∀ a ∈ S, a ∈ w.cluster.ring.membership.handles) (id : NodeId) :
    S.card ≤ (S.filter (·.id ≠ id)).card + 1 := by
  have hone : (S.filter fun a => ¬ a.id ≠ id).card ≤ 1 := by
    refine Finset.card_le_one.2 fun a ha b hb => ?_
    rw [Finset.mem_filter, not_not] at ha hb
    exact hw.cluster.sound.eq_of_id (hS a ha.1) (hS b hb.1) (ha.2.trans hb.2.symm)
  have hsum := Finset.card_filter_add_card_filter_not (s := S) fun a : Handle => a.id ≠ id
  omega

/-- The members behind a node that joins. -/
theorem Joins.handles_perm {s : Store} (hj : w.Joins op x h s w') :
    w'.cluster.ring.membership.handles.Perm (h :: w.cluster.ring.membership.handles) := by
  rw [hj.ring]
  exact Membership.handles_insert hj.fresh _

theorem Joins.options {s : Store} (hj : w.Joins op x h s w') :
    w'.cluster.ring.options = w.cluster.ring.options := by
  rw [hj.ring]
  rfl

theorem Joins.position {s : Store} (hj : w.Joins op x h s w') (k : String) :
    w'.cluster.ring.position k = w.cluster.ring.position k := by
  rw [hj.ring]
  rfl

theorem Leaves.position (hl : w.Leaves op x id w') (k : String) :
    w'.cluster.ring.position k = w.cluster.ring.position k := by
  rw [hl.ring]
  rfl

theorem Plain.idles (hw : w.Plain) {c : Cluster} {x : Answer} {t : Instant}
    (hbegin : w.begin op = (.answered t x, { w with cluster := c })) (hev : w.cluster.Evolves c)
    (hdata : ∀ h ∈ w.cluster.ring.membership.handles, c.fleet.node h = w.cluster.fleet.node h) :
    ∃ w', w.Idles op x w' :=
  ⟨_, performs_of_answered hw.loops hbegin, hw.evolve hev, hev.ring,
    fun h hh k => congrArg (fun n : Node => n.store.find? k) (hdata h hh)⟩

/-- An operation that is answered at once and changes nothing. -/
theorem Plain.idles_reply (hw : w.Plain) {x : Answer} (hbegin : w.begin op = w.reply x) :
    ∃ w', w.Idles op x w' := hw.idles hbegin (.refl _) fun _ _ => rfl

/-! ### Nodes that leave -/

theorem dropNode_cases (hw : w.Plain) {id : NodeId} {a : NodeId → Answer}
    (hbegin : w.begin op = w.dropNode id a) :
    (∃ e w', w.Idles op (.ringError e) w') ∨ ∃ w', w.Leaves op (a id) id w' := by
  rw [dropNode] at hbegin
  obtain ⟨e, he⟩ | ⟨h, hok, hfind, hsize⟩ := w.cluster.ring.drop_cases id
  · rw [he] at hbegin
    obtain ⟨w', hw'⟩ := hw.idles_reply hbegin
    exact .inl ⟨e, w', hw'⟩
  · rw [hok] at hbegin
    have hid : h.id = id := (Membership.mem_of_find? hw.cluster.sound hfind).2
    have hperforms := performs_of_answered hw.loops hbegin
    rw [hid] at hperforms
    refine .inr ⟨_, hperforms, ⟨hw.hasRing, hw.loops, ⟨hw.cluster.options, hsize, ?_, ?_,
      hw.cluster.memory⟩, hw.known⟩, rfl, rfl⟩
    · exact hw.cluster.sound.erase id _
    · intro x hx
      have hx' := (Membership.handles_erase hw.cluster.sound id _).symm ▸ hx
      exact hw.cluster.houses x (List.mem_of_mem_filter hx')

/-- Dropping a node is refused, or the node leaves. -/
theorem drop_cases (hw : w.Plain) (id : NodeId) :
    (∃ e w', w.Idles (.drop id) (.ringError e) w') ∨
      ∃ w', w.Leaves (.drop id) (.dropped id) id w' :=
  dropNode_cases hw (begin_of_hasRing hw.hasRing _)

/-- Dropping a node at a random place is refused, or one leaves. -/
theorem dropRandom_cases (hw : w.Plain) :
    (∃ x w', w.Idles .dropRandom x w' ∧ x ≠ .droppedRandom) ∨
      ∃ id w', w.Leaves .dropRandom .droppedRandom id w' := by
  have hbegin := begin_of_hasRing hw.hasRing .dropRandom
  rw [beginChecked] at hbegin
  cases hfind : w.randoms.find? w.cluster.ring.membership.contains with
  | none =>
    simp only [hfind] at hbegin
    obtain ⟨w', hw'⟩ := hw.idles_reply hbegin
    exact .inl ⟨_, w', hw', by simp⟩
  | some id =>
    simp only [hfind] at hbegin
    obtain ⟨e, w', hw'⟩ | ⟨w', hw'⟩ := dropNode_cases hw hbegin
    · exact .inl ⟨_, w', hw', by simp⟩
    · exact .inr ⟨id, w', hw'⟩

/-! ### Nodes that join -/

/-- Adding a known node is refused, or the node joins with its data. -/
theorem addKnown_cases (hw : w.Plain) {c : Cluster} {h : Handle}
    (hbegin : w.begin op = addKnown { w with cluster := c } h) (hev : w.cluster.Evolves c)
    (hdata : ∀ x ∈ w.cluster.ring.membership.handles, c.fleet.node x = w.cluster.fleet.node x)
    (hh : c.fleet.Houses h) :
    (∃ e w', w.Idles op (.ringError e) w') ∨
      ∃ w', w.Joins op .done h (c.fleet.node h).store w' := by
  have hc := hw.cluster.evolve hev
  rw [addKnown] at hbegin
  obtain ⟨e, he⟩ | ⟨hok, hfresh, hsize⟩ := c.ring.add_cases h
  · simp only [he] at hbegin
    obtain ⟨w', hw'⟩ := hw.idles hbegin hev hdata
    exact .inl ⟨e, w', hw'⟩
  · simp only [hok] at hbegin
    have hring : c.ring.withNodes (c.ring.membership.nodes.insert h.id h) =
        w.cluster.ring.withNodes (w.cluster.ring.membership.nodes.insert h.id h) := by
      rw [hev.ring]
    refine .inr ⟨_, performs_of_answered hw.loops hbegin, ⟨hw.hasRing, hw.loops, ?_, ?_⟩, hring,
      hev.ring ▸ hfresh, fun k => rfl, fun x hx k => ?_⟩
    · have hplain := hc.join hh hfresh hsize
      exact ⟨hplain.options, hplain.enough, hplain.sound, hplain.houses, hplain.memory⟩
    · intro id x hx
      have hx' : (w.registry.insert h.id h).find? id = some x := hx
      rw [OrderedMap.find?_insert] at hx'
      split at hx'
      · next hid =>
        obtain rfl := Option.some.inj hx'
        exact ⟨hid.symm, hh⟩
      · exact ⟨(hw.known id x hx').1, hev.houses x (hw.known id x hx').2⟩
    · exact congrArg (fun n : Node => n.store.find? k) (hdata x hx)

/-- Adding a new node is refused, or the node joins with its data. -/
theorem add_cases (hw : w.Plain) {n : Node} (hn : n.IsMemory) :
    (∃ e w', w.Idles (.add n) (.ringError e) w') ∨
      ∃ h w', h.id = n.id ∧ w.Joins (.add n) .done h n.store w' := by
  obtain ⟨hhouse, hnode⟩ := Fleet.enlisted w.cluster.fleet n
  obtain hidle | ⟨w', hw'⟩ := addKnown_cases hw (h := (w.cluster.fleet.enlist n).1)
    (c := { w.cluster with fleet := (w.cluster.fleet.enlist n).2 })
    (begin_of_hasRing hw.hasRing (.add n)) (.enlist w.cluster hn)
    (fun x hx => Fleet.node_enlist n (hw.cluster.houses x hx)) hhouse
  · exact .inl hidle
  · rw [hnode] at hw'
    exact .inr ⟨_, w', rfl, hw'⟩

/-- Adding a node again is refused, or the node joins with the data that it still has. -/
theorem addAgain_cases (hw : w.Plain) (id : NodeId) :
    (∃ x w', w.Idles (.addAgain id) x w' ∧ x ≠ .done) ∨
      ∃ h w', w.registry.find? id = some h ∧
        w.Joins (.addAgain id) .done h (w.cluster.fleet.node h).store w' := by
  have hbegin := begin_of_hasRing hw.hasRing (.addAgain id)
  rw [beginChecked, withNode] at hbegin
  cases hfind : w.registry.find? id with
  | none =>
    simp only [hfind] at hbegin
    obtain ⟨w', hw'⟩ := hw.idles_reply hbegin
    exact .inl ⟨_, w', hw', by simp⟩
  | some h =>
    simp only [hfind] at hbegin
    obtain ⟨e, w', hw'⟩ | ⟨w', hw'⟩ := addKnown_cases hw hbegin (.refl _) (fun _ _ => rfl)
      (hw.known id h hfind).2
    · exact .inl ⟨_, w', hw', by simp⟩
    · exact .inr ⟨h, w', rfl, hw'⟩

/-- Adding an empty node at a random place is refused, or one joins. -/
theorem addRandom_cases (hw : w.Plain) :
    (∃ x w', w.Idles .addRandom x w' ∧ ∀ b, x ≠ .addedRandom b) ∨
      ∃ h b w', w.Joins .addRandom (.addedRandom b) h .empty w' := by
  have hbegin := begin_of_hasRing hw.hasRing .addRandom
  rw [beginChecked, addRandom] at hbegin
  cases hfree : w.cluster.ring.freeId? (w.draws w.drawCount) with
  | none =>
    simp only [hfree] at hbegin
    obtain ⟨w', hw'⟩ := hw.idles_reply hbegin
    exact .inl ⟨_, w', hw', by simp⟩
  | some id =>
    let n : Node := { id := id }
    let c : Cluster := { w.cluster with fleet := (w.cluster.fleet.enlist n).2 }
    have hn : n.IsMemory := ⟨rfl, List.Pairwise.nil⟩
    have hev : w.cluster.Evolves c := .enlist w.cluster hn
    obtain ⟨hhouse, hnode⟩ := Fleet.enlisted w.cluster.fleet n
    simp only [hfree] at hbegin
    obtain ⟨e, he⟩ | ⟨hok, hfresh, hsize⟩ := w.cluster.ring.add_cases (w.cluster.fleet.enlist n).1
    · simp only [n] at he
      simp only [he] at hbegin
      obtain ⟨w', hw'⟩ := hw.idles_reply hbegin
      exact .inl ⟨_, w', hw', by simp⟩
    · simp only [n] at hok
      simp only [hok] at hbegin
      have hplain := (hw.cluster.evolve hev).join hhouse hfresh hsize
      refine .inr ⟨_, _, _, performs_of_answered hw.loops hbegin, ⟨hw.hasRing, hw.loops,
        ⟨hplain.options, hplain.enough, hplain.sound, hplain.houses, hplain.memory⟩,
        fun i x hx => ⟨(hw.known i x hx).1, hev.houses x (hw.known i x hx).2⟩⟩, rfl, hfresh,
        fun k => ?_, fun x hx k => ?_⟩
      · exact congrArg (fun n : Node => n.store.find? k) hnode
      · exact congrArg (fun n : Node => n.store.find? k)
          (Fleet.node_enlist n (hw.cluster.houses x hx))

end Scenario.World

end ReplicaRing
