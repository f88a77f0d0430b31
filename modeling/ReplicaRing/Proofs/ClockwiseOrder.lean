import Mathlib.Data.List.Infix
import ReplicaRing.Proofs.Placement

/-!
# The clockwise order

A walk around the circle meets the nodes in the order of their clockwise distance from its start,
and the nodes responsible for a position are the nearest ones in that order. This holds all around
the circle: over the wrap from the highest identity to the lowest, for a node that sits on the
position itself, and for more nodes asked for than there are.

* `OrderedMap.Sorted.mem_clockwise_iff` — the entries of a walk by counting;
* `Sound.push_accepted` — no node of a walk is refused as a repetition;
* `Sound.primary?_eq_some_iff`, `Sound.getLast?_walk` — the two ends of a walk;
* `replicaSet_eq_ok_iff` — a caller gets a placement if there is room for it;
* `placement_clockwise` — walks and placements for every membership, position and number.
-/

namespace ReplicaRing

/-! ### Walks over entries -/

namespace OrderedMap

variable {α : Type} {members : OrderedMap NodeId α} {position : UInt64} {n : Nat}

theorem clockwise_length (members : OrderedMap NodeId α) (position : UInt64) (n : Nat) :
    (members.clockwise position n).length = min n members.size := by
  rw [clockwise, List.length_take, (rotation_perm members position).length_eq, size]

theorem mem_of_mem_clockwise {e : NodeId × α} (he : e ∈ members.clockwise position n) :
    e ∈ members.entries :=
  (rotation_perm members position).mem_iff.1 (List.mem_of_mem_take he)

theorem Sorted.clockwise_ascends (h : members.Sorted) (position : UInt64) (n : Nat) :
    (members.clockwise position n).Pairwise fun a b =>
      a.1.steps position < b.1.steps position :=
  (h.rotation_ascends position).sublist (List.take_sublist n _)

theorem Sorted.clockwise_nodup (h : members.Sorted) (position : UInt64) (n : Nat) :
    ((members.clockwise position n).map Prod.fst).Nodup := by
  refine List.pairwise_map.2 ((h.clockwise_ascends position n).imp fun {a b} hab he => ?_)
  rw [he] at hab
  exact Nat.lt_irrefl _ hab

/-- An entry belongs to a walk when fewer than `n` entries are nearer. -/
theorem Sorted.mem_clockwise_iff (h : members.Sorted) {e : NodeId × α} :
    e ∈ members.clockwise position n ↔
      e ∈ members.entries ∧
        members.entries.countP (fun y => y.1.steps position < e.1.steps position) < n := by
  rw [clockwise, mem_take_iff_countP (h.rotation_ascends position),
    (rotation_perm members position).mem_iff, (rotation_perm members position).countP_eq]

end OrderedMap

/-! ### Distances -/

namespace NodeId

/-- Different identities have different distances. -/
theorem steps_inj {position : UInt64} {a b : NodeId} (h : a.steps position = b.steps position) :
    a = b := by
  have hsub : a.position - position - 1 = b.position - position - 1 := UInt64.toNat_inj.1 h
  cases a
  cases b
  exact congrArg NodeId.mk ((UInt64.sub_left_inj position).1 ((UInt64.sub_left_inj 1).1 hsub))

/-- The position itself is the farthest place of all. -/
theorem steps_self (position : UInt64) : (NodeId.mk position).steps position = 2 ^ 64 - 1 := by
  rw [steps_of_not_lt (UInt64.lt_irrefl position)]
  have hp := position.toNat_lt
  show position.toNat + 2 ^ 64 - position.toNat - 1 = 2 ^ 64 - 1
  omega

theorem steps_le (position : UInt64) (a : NodeId) : a.steps position ≤ 2 ^ 64 - 1 := by
  have hlt := (a.position - position - 1).toNat_lt
  rw [steps]
  omega

end NodeId

namespace Membership

variable {m : Membership} {position : UInt64} {n : Nat} {x : Handle}

/-! ### Placements -/

/-- A placement is a walk: every node that it meets is appended. -/
theorem Sound.placement_eq (h : m.Sound) (position : UInt64) (n : Nat) :
    (m.placement position n).members = (m.nodes.clockwise position n).map Prod.snd := by
  rw [h.placement_members, walk, OrderedMap.clockwise, List.map_take]

/-- The nodes before a node of a walk do not keep it out. -/
theorem Sound.push_accepted (h : m.Sound) {before after : List Handle}
    (hsplit : (m.nodes.clockwise position n).map Prod.snd = before ++ x :: after) :
    (Placement.ofList before).contains x.id = false := by
  have hne := h.placement_ne position n
  rw [h.placement_eq, hsplit, List.pairwise_append] at hne
  obtain ⟨hbefore, -, hcross⟩ := hne
  rw [Placement.contains, Placement.ofList_members hbefore, List.any_eq_false]
  intro y hy
  have hyx := hcross y hy x (List.mem_cons_self ..)
  simpa using hyx

/-- The primary is the nearest node. -/
theorem Sound.primary?_eq_some_iff (h : m.Sound) :
    (m.placement position n).primary? = some x ↔
      0 < n ∧ x ∈ m.handles ∧
        ∀ y ∈ m.handles, y ≠ x → x.id.steps position < y.id.steps position := by
  have hasc := h.walk_ascends position
  have hperm := walk_perm (m := m) position
  rw [Placement.primary?, h.placement_members, List.head?_take]
  cases hwalk : m.walk position with
  | nil =>
    rw [hwalk] at hperm
    have hnone : x ∉ m.handles := fun hx => List.not_mem_nil (hperm.mem_iff.2 hx)
    simp [hnone]
  | cons a rest =>
    rw [hwalk] at hasc hperm
    rw [List.pairwise_cons] at hasc
    constructor
    · intro hhead
      split at hhead
      · exact nomatch hhead
      · next hn =>
        obtain rfl : a = x := Option.some.inj hhead
        refine ⟨Nat.pos_of_ne_zero hn, hperm.mem_iff.1 (List.mem_cons_self ..), ?_⟩
        intro y hy hne
        rcases List.mem_cons.1 (hperm.mem_iff.2 hy) with rfl | hy
        · exact absurd rfl hne
        · exact hasc.1 y hy
    · rintro ⟨hn, hx, hnearest⟩
      rw [if_neg (Nat.pos_iff_ne_zero.1 hn)]
      rcases List.mem_cons.1 (hperm.mem_iff.2 hx) with rfl | hrest
      · rfl
      · -- the head of the walk would have to be farther than a node behind it
        have hne : a ≠ x := by
          rintro rfl
          exact Nat.lt_irrefl _ (hasc.1 a hrest)
        have hfar := hnearest a (hperm.mem_iff.1 (List.mem_cons_self ..)) hne
        have hnear := hasc.1 x hrest
        omega

/-- A node on the position is the farthest one. -/
theorem Sound.steps_lt_of_on_position (h : m.Sound) (hx : x ∈ m.handles)
    (hon : x.id.position = position) {y : Handle} (hy : y ∈ m.handles) (hne : y ≠ x) :
    y.id.steps position < x.id.steps position := by
  have hself : x.id.steps position = 2 ^ 64 - 1 := by
    subst hon
    exact NodeId.steps_self x.id.position
  have hle := NodeId.steps_le position y.id
  have hneq : y.id.steps position ≠ x.id.steps position := fun he =>
    hne (h.eq_of_id hy hx (NodeId.steps_inj he))
  omega

/-- A caller gets a placement exactly if there is room for it. -/
theorem replicaSet_eq_ok_iff (m : Membership) {p : Placement} :
    m.replicaSet position n = .ok p ↔ n ≤ Placement.capacity ∧ p = m.placement position n := by
  rw [replicaSet]
  split
  · next hroom => exact ⟨fun h => ⟨hroom, (Except.ok.inj h).symm⟩, fun h => congrArg _ h.2.symm⟩
  · next hroom => exact ⟨nofun, fun h => absurd h.1 hroom⟩

/-- A walk around the whole circle ends with the farthest node. -/
theorem Sound.getLast?_walk (h : m.Sound) (hx : x ∈ m.handles)
    (hlast : ∀ y ∈ m.handles, y ≠ x → y.id.steps position < x.id.steps position) :
    (m.walk position).getLast? = some x := by
  have hperm := walk_perm (m := m) position
  obtain ⟨before, after, hwalk⟩ := List.append_of_mem (hperm.mem_iff.2 hx)
  have hasc := h.walk_ascends position
  rw [hwalk, List.pairwise_append, List.pairwise_cons] at hasc
  -- whoever comes behind the farthest node would be farther still
  have hnone : after = [] := by
    refine List.eq_nil_iff_forall_not_mem.2 fun y hy => ?_
    have hfarther := hasc.2.1.1 y hy
    have hmem : y ∈ m.handles := hperm.mem_iff.1 (by rw [hwalk]; simp [hy])
    have hne : y ≠ x := by
      rintro rfl
      exact Nat.lt_irrefl _ hfarther
    exact Nat.lt_asymm hfarther (hlast y hmem hne)
  rw [hwalk, hnone, List.getLast?_concat]

/-- **The clockwise order.** Take any nodes by their identities, any position and any number `n`.
The walk yields `n` entries, or all if there are fewer, in the order of their clockwise distance and
none twice; an entry is yielded exactly when fewer than `n` entries are nearer. The placement lists
the nodes of the walk, and refuses none of them. Its primary is the nearest node, and a node on the
position itself comes last of all. A caller gets the placement for every number that a list has room
for, and none for any other one. -/
theorem placement_clockwise (h : m.Sound) (position : UInt64) (n : Nat) :
    ((m.nodes.clockwise position n).length = min n m.size ∧
      (∀ e ∈ m.nodes.clockwise position n, e ∈ m.nodes.entries) ∧
      ((m.nodes.clockwise position n).map Prod.fst).Nodup ∧
      ((m.nodes.clockwise position n).Pairwise fun a b =>
        a.1.steps position < b.1.steps position) ∧
      ∀ e ∈ m.nodes.entries, e ∈ m.nodes.clockwise position n ↔
        m.nodes.entries.countP (fun y => y.1.steps position < e.1.steps position) < n) ∧
    (m.placement position n).members = (m.nodes.clockwise position n).map Prod.snd ∧
    (∀ before x after, (m.nodes.clockwise position n).map Prod.snd = before ++ x :: after →
      (Placement.ofList before).contains x.id = false) ∧
    (∀ x, (m.placement position n).primary? = some x ↔
      0 < n ∧ x ∈ m.handles ∧
        ∀ y ∈ m.handles, y ≠ x → x.id.steps position < y.id.steps position) ∧
    (∀ x ∈ m.handles, x.id.position = position →
      (∀ y ∈ m.handles, y ≠ x → y.id.steps position < x.id.steps position) ∧
      (m.size ≤ n → (m.placement position n).members.getLast? = some x) ∧
      (n < m.size → x ∉ (m.placement position n).members)) ∧
    ∀ p, m.replicaSet position n = .ok p ↔ n ≤ Placement.capacity ∧ p = m.placement position n := by
  refine ⟨⟨m.nodes.clockwise_length position n, fun e => OrderedMap.mem_of_mem_clockwise,
    h.sorted.clockwise_nodup position n, h.sorted.clockwise_ascends position n, fun e he => ?_⟩,
    h.placement_eq position n, fun before x after => h.push_accepted,
    fun x => h.primary?_eq_some_iff, fun x hx hon => ?_, fun p => m.replicaSet_eq_ok_iff⟩
  · rw [h.sorted.mem_clockwise_iff, and_iff_right he]
  · have hfarthest : ∀ y ∈ m.handles, y ≠ x → y.id.steps position < x.id.steps position :=
      fun y => h.steps_lt_of_on_position hx hon
    have hlength : (m.walk position).length = m.size := by
      rw [(walk_perm position).length_eq, size_eq]
    have hlast := h.getLast?_walk hx hfarthest
    refine ⟨hfarthest, fun hn => ?_, fun hn hmem => ?_⟩
    · rw [h.placement_members, List.take_of_length_le (by omega), hlast]
    · -- all others come first, and they are at least `n`
      have hbefore := ((mem_placement_iff h).1 hmem).2
      have hall : m.before position x + 1 = m.size := by
        rw [size_eq, ← List.length_erase_add_one hx, h.handles_nodup.erase_eq_filter, before,
          List.countP_eq_length_filter]
        congr 2
        refine List.filter_congr fun y hy => ?_
        rw [Bool.eq_iff_iff, decide_eq_true_iff, bne_iff_ne]
        refine ⟨?_, hfarthest y hy⟩
        rintro hlt rfl
        exact Nat.lt_irrefl _ hlt
      omega

/-- Three nodes: at both ends of the circle and on a position between them. -/
def endsAndMiddle : Membership where
  nodes := ⟨[(.lowest, ⟨.lowest, 0⟩), (⟨5⟩, ⟨⟨5⟩, 1⟩), (.highest, ⟨.highest, 2⟩)]⟩

theorem endsAndMiddle_sound : endsAndMiddle.Sound where
  sorted := by unfold OrderedMap.Sorted; decide
  named := by decide

/-- From the position of the middle node, the walk goes over the highest place to the lowest one and
meets the middle node last. -/
theorem placement_clockwise_endsAndMiddle :
    endsAndMiddle.Sound ∧
    (endsAndMiddle.placement 5 2).members = [⟨.highest, 2⟩, ⟨.lowest, 0⟩] ∧
    (endsAndMiddle.placement 5 2).primary? = some ⟨.highest, 2⟩ ∧
    ⟨⟨5⟩, 1⟩ ∉ (endsAndMiddle.placement 5 2).members ∧
    (endsAndMiddle.placement 5 9).members.getLast? = some ⟨⟨5⟩, 1⟩ ∧
    endsAndMiddle.replicaSet 5 9 = .ok (endsAndMiddle.placement 5 9) := by
  obtain ⟨-, hmembers, -, hprimary, hmiddle, -⟩ := placement_clockwise endsAndMiddle_sound 5 2
  obtain ⟨-, -, -, -, hmiddle', hroom⟩ := placement_clockwise endsAndMiddle_sound 5 9
  have hmem : ⟨⟨5⟩, 1⟩ ∈ endsAndMiddle.handles := by decide
  have hnearest := (hprimary ⟨.highest, 2⟩).2 ⟨by decide, by decide, by decide⟩
  refine ⟨endsAndMiddle_sound, hmembers, hnearest, ?_, ?_, ?_⟩
  · exact (hmiddle _ hmem rfl).2.2 (by decide)
  · exact (hmiddle' _ hmem rfl).2.1 (by decide)
  · exact (hroom _).2 ⟨by decide, rfl⟩

/-- **No room.** A walk from any position yields no more than three of these nodes, whatever the
number asked for, and yet a caller who asks for too many gets none. -/
theorem placement_overflows :
    (∀ position n, (endsAndMiddle.nodes.clockwise position n).length ≤ 3) ∧
    (endsAndMiddle.nodes.clockwise 5 18446744073709551615).map Prod.snd =
      [⟨.highest, 2⟩, ⟨.lowest, 0⟩, ⟨⟨5⟩, 1⟩] ∧
    endsAndMiddle.replicaSet 5 18446744073709551615 = .error .capacity := by
  refine ⟨fun position n => ?_, by decide, rfl⟩
  rw [OrderedMap.clockwise_length]
  exact Nat.min_le_right n 3

end Membership

end ReplicaRing
