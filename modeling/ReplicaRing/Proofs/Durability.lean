import Mathlib.Data.Finset.Max
import ReplicaRing.Proofs.PlainRuns

/-!
# Durability under churn

A value that was put stays readable as long as, since the put or the last complete sweep, fewer
nodes have been added and fewer have been dropped than a key has replicas. Dropped nodes take copies
with them, and added nodes push copies out of the placement from the front.

* `Admits` — the operations that leave a key alone, and bring no other value of it;
* `Durable` — enough copies are left, and few nodes have come between them and their key;
* `Durable.read` — such a value is read;
* `Durable.step` — every admitted operation keeps that;
* `put_survives_churn` — all reads of all runs.
-/

namespace ReplicaRing

/-! ### Nodes in front of a copy -/

namespace Membership

variable {m : Membership}

/-- How many nodes outside a set a walk meets before a given node. -/
def ahead (m : Membership) (position : UInt64) (S : Finset Handle) (a : Handle) : Nat :=
  m.handles.countP fun x => decide (x ∉ S ∧ x.id.steps position < a.id.steps position)

/-- Nobody outside a placement comes before one of its members. -/
theorem ahead_placement (h : m.Sound) (position : UInt64) (n : Nat) {a : Handle}
    (ha : a ∈ (m.placement position n).members) :
    m.ahead position (m.placement position n).members.toFinset a = 0 := by
  rw [ahead, List.countP_eq_zero]
  intro x hx
  rw [decide_eq_true_eq, List.mem_toFinset]
  rintro ⟨hout, hlt⟩
  refine hout ((mem_placement_iff h).2 ⟨hx, ?_⟩)
  have hle : m.before position x ≤ m.before position a := by
    refine List.countP_mono_left fun y _ hy => ?_
    rw [decide_eq_true_eq] at hy ⊢
    omega
  exact Nat.lt_of_le_of_lt hle ((mem_placement_iff h).1 ha).2

/-- The first node of a set that a walk meets is in the placement, unless too many others come
before it. -/
theorem exists_mem_placement (h : m.Sound) {position : UInt64} {n : Nat} {S : Finset Handle}
    (hS : S.Nonempty) (hmem : ∀ a ∈ S, a ∈ m.handles) (hahead : ∀ a ∈ S, m.ahead position S a < n) :
    ∃ a ∈ S, a ∈ (m.placement position n).members := by
  obtain ⟨a, ha, hmin⟩ := Finset.exists_min_image S (fun x => x.id.steps position) hS
  refine ⟨a, ha, (mem_placement_iff h).2 ⟨hmem a ha, ?_⟩⟩
  have hle : m.before position a ≤ m.ahead position S a := by
    refine List.countP_mono_left fun x _ hx => ?_
    rw [decide_eq_true_eq] at hx ⊢
    refine ⟨fun hxS => ?_, hx⟩
    have := hmin x hxS
    omega
  exact Nat.lt_of_le_of_lt hle (hahead a ha)

end Membership

namespace Scenario

/-- An operation that leaves a key alone, and that brings no other value of it to the ring. -/
def Admits (key value : String) (w : World) : Op → Prop
  | .add n => n.IsMemory ∧ (n.store.find? key = none ∨ n.store.find? key = some value)
  | .addAgain id => ∀ h, w.registry.find? id = some h →
    w.cluster.fleet.held h key = none ∨ w.cluster.fleet.held h key = some value
  | .put k _ _ => k ≠ key
  | .delete k _ => k ≠ key
  | .get _ _ | .repair _ | .addRandom | .drop _ | .dropRandom => True
  | _ => False

/-- Enough copies of a value are left, and few nodes have come between them and their key. -/
structure Durable (key value : String) (w : World) (c : Churn) : Prop where
  plain : w.Plain
  agree : ∀ h ∈ w.cluster.ring.membership.handles,
    w.cluster.fleet.held h key = none ∨ w.cluster.fleet.held h key = some value
  copies : ∃ S : Finset Handle,
    (∀ h ∈ S, h ∈ w.cluster.ring.membership.handles ∧ w.cluster.fleet.held h key = some value) ∧
    w.cluster.ring.options.replicaCount ≤ S.card + c.drops ∧
    ∀ h ∈ S, w.cluster.ring.membership.ahead (w.cluster.ring.position key) S h ≤ c.adds

namespace Durable

open World

variable {key value : String} {w w' : World} {c : Churn}

/-- Among nodes that include the replicas, the value is found first. -/
theorem findSome?_eq (h : Durable key value w c)
    (hadds : c.adds < w.cluster.ring.options.replicaCount)
    (hdrops : c.drops < w.cluster.ring.options.replicaCount) {hs : List Handle}
    (hsub : ∀ x ∈ hs, x ∈ w.cluster.ring.membership.handles)
    (hplaced : ∀ x ∈ (w.cluster.ring.placement key).members, x ∈ hs) :
    hs.findSome? (fun x => w.cluster.fleet.held x key) = some value := by
  obtain ⟨S, hS, hcard, hahead⟩ := h.copies
  have hpos : 0 < S.card := by omega
  obtain ⟨a, ha, hin⟩ := Membership.exists_mem_placement h.plain.cluster.sound
    (Finset.card_pos.1 hpos) (fun a ha => (hS a ha).1)
    fun a ha => Nat.lt_of_le_of_lt (hahead a ha) hadds
  cases hfound : hs.findSome? (fun x => w.cluster.fleet.held x key) with
  | some v =>
    obtain ⟨b, hb, hv⟩ := List.exists_of_findSome?_eq_some hfound
    rcases h.agree b (hsub b hb) with hnone | hsome
    · exact absurd (hv.symm.trans hnone) (Option.some_ne_none v)
    · exact hv.symm.trans hsome
  | none =>
    have hnone := List.findSome?_eq_none_iff.1 hfound a (hplaced a hin)
    exact absurd ((hS a ha).2.symm.trans hnone) (Option.some_ne_none value)

/-- **A durable value is read.** -/
theorem read (h : Durable key value w c) (hadds : c.adds < w.cluster.ring.options.replicaCount)
    (hdrops : c.drops < w.cluster.ring.options.replicaCount) (timeout : Option Duration) :
    w.answerTo (.get key timeout) =
      orBreaks w.cluster.ring.options timeout (.value (some value)) := by
  have hfound : ((w.cluster.ring.placement key).members.findSome? fun a =>
      w.cluster.fleet.held a key) = some value :=
    h.findSome?_eq hadds hdrops (fun _ hx => h.plain.cluster.sound.placement_subset hx)
      fun _ hx => hx
  obtain ⟨hfits, w', ha⟩ | ⟨hfits, w', ha⟩ := get_cases h.plain key timeout
  · rw [orBreaks_of_fits hfits, ← hfound]
    exact ha.performs.result
  · rw [orBreaks_of_not hfits]
    exact ha.performs.result

/-- An operation that changes nothing under the key. -/
theorem acts (h : Durable key value w c) {op : Op} {x : Answer}
    {effect : Handle → String → Option String → Option String} (ha : w.Acts op x effect w')
    (hkeeps : ∀ a old, effect a key old = old) : Durable key value w' c where
  plain := ha.plain
  agree a hmem := by
    rw [ha.ring] at hmem
    rw [ha.data a hmem, hkeeps]
    exact h.agree a hmem
  copies := by
    obtain ⟨S, hS, hcard, hahead⟩ := h.copies
    rw [ha.ring]
    refine ⟨S, fun a hmem => ⟨(hS a hmem).1, ?_⟩, hcard, hahead⟩
    rw [ha.data a (hS a hmem).1, hkeeps]
    exact (hS a hmem).2

/-- Where all replicas hold a value and nobody another one, the churn starts anew. -/
theorem of_replicas (hw : w.Plain)
    (hagree : ∀ h ∈ w.cluster.ring.membership.handles,
      w.cluster.fleet.held h key = none ∨ w.cluster.fleet.held h key = some value)
    (hheld : ∀ h ∈ (w.cluster.ring.placement key).members,
      w.cluster.fleet.held h key = some value) : Durable key value w {} where
  plain := hw
  agree := hagree
  copies := by
    refine ⟨(w.cluster.ring.placement key).members.toFinset, fun a ha => ?_, ?_, fun a ha => ?_⟩
    · rw [List.mem_toFinset] at ha
      exact ⟨hw.cluster.sound.placement_subset ha, hheld a ha⟩
    · rw [hw.cluster.placement_card]
      exact Nat.le_refl _
    · exact Nat.le_of_eq (Membership.ahead_placement hw.cluster.sound _ _ (List.mem_toFinset.1 ha))

/-- A sweep gives the value to all replicas. -/
theorem repair (h : Durable key value w c)
    (hadds : c.adds < w.cluster.ring.options.replicaCount)
    (hdrops : c.drops < w.cluster.ring.options.replicaCount) {op : Op} {x : Answer}
    (ha : w.Acts op x (fun a k old => old.or (if a ∈ (w.cluster.ring.placement k).members then
      w.cluster.ring.membership.handles.findSome? fun b => w.cluster.fleet.held b k
      else none)) w') : Durable key value w' {} := by
  have hfound := h.findSome?_eq hadds hdrops (fun _ hx => hx)
    fun _ hx => h.plain.cluster.sound.placement_subset hx
  refine of_replicas ha.plain (fun a hmem => ?_) fun a hmem => ?_
  · rw [ha.ring] at hmem
    rw [ha.data a hmem, hfound]
    rcases h.agree a hmem with hnone | hsome
    · rw [hnone, Option.none_or]
      split
      · exact .inr rfl
      · exact .inl rfl
    · exact .inr (by rw [hsome, Option.some_or])
  · rw [ha.ring] at hmem
    have hmem' := h.plain.cluster.sound.placement_subset hmem
    rw [ha.data a hmem', hfound, if_pos hmem]
    rcases h.agree a hmem' with hnone | hsome
    · rw [hnone, Option.none_or]
    · rw [hsome, Option.some_or]

/-- A node that leaves takes at most one copy with it, and comes before no copy any more. -/
theorem leave (h : Durable key value w c) {op : Op} {x : Answer} {id : NodeId}
    (hl : w.Leaves op x id w') : Durable key value w' { c with drops := c.drops + 1 } where
  plain := hl.plain
  agree a hmem := by
    rw [hl.mem_handles h.plain] at hmem
    rw [hl.held]
    exact h.agree a hmem.1
  copies := by
    obtain ⟨S, hS, hcard, hahead⟩ := h.copies
    refine ⟨S.filter (·.id ≠ id), fun a hmem => ?_, ?_, fun a hmem => ?_⟩
    · rw [Finset.mem_filter] at hmem
      rw [hl.mem_handles h.plain, hl.held]
      exact ⟨⟨(hS a hmem.1).1, hmem.2⟩, (hS a hmem.1).2⟩
    · have hle := Leaves.card_le h.plain (fun a ha => (hS a ha).1) id
      rw [hl.options]
      show _ ≤ _ + (c.drops + 1)
      omega
    · refine Nat.le_trans ?_ (hahead a (Finset.mem_filter.1 hmem).1)
      rw [hl.position, Membership.ahead, Membership.ahead, hl.handles_eq h.plain,
        List.countP_filter]
      refine List.countP_mono_left fun y _ hy => ?_
      simp only [Bool.and_eq_true, decide_eq_true_eq, Finset.mem_filter, not_and, not_not] at hy ⊢
      exact ⟨fun hyS => hy.2 (hy.1.1 hyS), hy.1.2⟩

/-- A node that joins comes before a copy at most once. -/
theorem join (h : Durable key value w c) {op : Op} {x : Answer} {a : Handle} {s : Store}
    (hj : w.Joins op x a s w') (hs : s.find? key = none ∨ s.find? key = some value) :
    Durable key value w' { c with adds := c.adds + 1 } where
  plain := hj.plain
  agree b hmem := by
    rcases List.mem_cons.1 (hj.handles_perm.mem_iff.1 hmem) with rfl | hmem
    · rw [hj.brings]
      exact hs
    · rw [hj.data b hmem]
      exact h.agree b hmem
  copies := by
    obtain ⟨S, hS, hcard, hahead⟩ := h.copies
    refine ⟨S, fun b hb => ⟨?_, ?_⟩, ?_, fun b hb => ?_⟩
    · exact hj.handles_perm.mem_iff.2 (List.mem_cons_of_mem _ (hS b hb).1)
    · rw [hj.data b (hS b hb).1]
      exact (hS b hb).2
    · rw [hj.options]
      exact hcard
    · have hle := hahead b hb
      rw [Membership.ahead] at hle
      rw [hj.position, Membership.ahead, hj.handles_perm.countP_eq, List.countP_cons]
      show _ ≤ c.adds + 1
      split <;> omega

/-- What one step is to keep: the copies, and the options of the ring. -/
def Steps (key value : String) (w : World) (c : Churn) (op : Op) (r : Result) (w' : World) : Prop :=
  Durable key value w' (c.count op r) ∧ w'.cluster.ring.options = w.cluster.ring.options

/-- A change of another key. -/
theorem change (h : Durable key value w c) (change : Change) {k : String}
    (timeout : Option Duration) (hk : k ≠ key) :
    Durable key value (w.performStep (.single (changeOp k timeout change))).2 c ∧
      (w.performStep (.single (changeOp k timeout change))).2.cluster.ring.options =
        w.cluster.ring.options := by
  obtain ⟨-, w', ha⟩ | ⟨-, w', ha⟩ := change_cases h.plain change k timeout
  · obtain ⟨-, rfl⟩ := ha.performs
    refine ⟨h.acts ha fun a old => ?_, congrArg Ring.options ha.ring⟩
    rw [change.effect_of_ne hk.symm, ite_self]
  · obtain ⟨-, rfl⟩ := ha.performs
    exact ⟨h.acts ha fun _ _ => rfl, congrArg Ring.options ha.ring⟩

/-- **One step.** Every admitted operation keeps enough copies. -/
theorem step (h : Durable key value w c) (hadds : c.adds < w.cluster.ring.options.replicaCount)
    (hdrops : c.drops < w.cluster.ring.options.replicaCount) {op : Op}
    (hop : Admits key value w op) :
    Steps key value w c op (w.answerTo op) (w.performStep (.single op)).2 := by
  cases op with
  | put k v timeout => exact h.change (.put v) timeout hop
  | delete k timeout => exact h.change .delete timeout hop
  | get k timeout =>
    obtain ⟨-, w', ha⟩ | ⟨-, w', ha⟩ := get_cases h.plain k timeout
    · exact ha.performs.elim ⟨h.acts ha fun _ _ => rfl, congrArg Ring.options ha.ring⟩
    · exact ha.performs.elim ⟨h.acts ha fun _ _ => rfl, congrArg Ring.options ha.ring⟩
  | repair cancelAfter =>
    obtain ⟨r, told, w', hcancel, ha⟩ | ⟨r, told, w', -, hcancel, ha⟩ :=
      acts_repair h.plain cancelAfter
    · refine ha.performs.elim ⟨?_, congrArg Ring.options ha.ring⟩
      rw [Churn.count, hcancel]
      exact h.repair hadds hdrops ha
    · refine ha.performs.elim ⟨?_, congrArg Ring.options ha.ring⟩
      rw [Churn.count, hcancel]
      exact h.acts ha fun _ _ => rfl
  | add n =>
    obtain ⟨e, w', ha⟩ | ⟨a, w', -, hj⟩ := add_cases h.plain hop.1
    · exact ha.performs.elim ⟨h.acts ha fun _ _ => rfl, congrArg Ring.options ha.ring⟩
    · exact hj.performs.elim ⟨h.join hj hop.2, hj.options⟩
  | addAgain id =>
    obtain ⟨x, w', ha, hx⟩ | ⟨a, w', hfind, hj⟩ := addAgain_cases h.plain id
    · refine ha.performs.elim ⟨?_, congrArg Ring.options ha.ring⟩
      have hcount : c.count (.addAgain id) (.one x) = c := by
        cases x <;> first | rfl | exact absurd rfl hx
      rw [hcount]
      exact h.acts ha fun _ _ => rfl
    · exact hj.performs.elim ⟨h.join hj (hop a hfind), hj.options⟩
  | addRandom =>
    obtain ⟨x, w', ha, hx⟩ | ⟨a, b, w', hj⟩ := addRandom_cases h.plain
    · refine ha.performs.elim ⟨?_, congrArg Ring.options ha.ring⟩
      have hcount : c.count .addRandom (.one x) = c := by
        cases x <;> first | rfl | exact absurd rfl (hx _)
      rw [hcount]
      exact h.acts ha fun _ _ => rfl
    · exact hj.performs.elim ⟨h.join hj (.inl rfl), hj.options⟩
  | drop id =>
    obtain ⟨e, w', ha⟩ | ⟨w', hl⟩ := drop_cases h.plain id
    · exact ha.performs.elim ⟨h.acts ha fun _ _ => rfl, congrArg Ring.options ha.ring⟩
    · exact hl.performs.elim ⟨h.leave hl, hl.options⟩
  | dropRandom =>
    obtain ⟨x, w', ha, hx⟩ | ⟨id, w', hl⟩ := dropRandom_cases h.plain
    · refine ha.performs.elim ⟨?_, congrArg Ring.options ha.ring⟩
      have hcount : c.count .dropRandom (.one x) = c := by
        cases x <;> first | rfl | exact absurd rfl hx
      rw [hcount]
      exact h.acts ha fun _ _ => rfl
    · exact hl.performs.elim ⟨h.leave hl, hl.options⟩
  | _ => exact hop.elim

end Durable

/-- What the members hold after a put that has been acknowledged. -/
theorem held_after_put {w : World} (hw : w.Plain) {key value : String}
    {timeout : Option Duration} {o : WriteOutcome}
    (hok : w.answerTo (.put key value timeout) = .one (.written o)) :
    (w.performStep (.single (.put key value timeout))).2.Plain ∧
    (w.performStep (.single (.put key value timeout))).2.cluster.ring = w.cluster.ring ∧
    ∀ h ∈ w.cluster.ring.membership.handles,
      (w.performStep (.single (.put key value timeout))).2.cluster.fleet.held h key =
        if h ∈ (w.cluster.ring.placement key).members then some value
        else w.cluster.fleet.held h key := by
  obtain ⟨-, w', ha⟩ | ⟨-, w', ha⟩ := World.change_cases hw (.put value) key timeout
  · have hworld : (w.performStep (.single (.put key value timeout))).2 = w' := ha.performs.world
    rw [hworld]
    refine ⟨ha.plain, ha.ring, fun h hh => (ha.data h hh key).trans ?_⟩
    simp [Change.request, Request.effect]
  · have hbroken : w.answerTo (.put key value timeout) = .one (.overflow .deadline) :=
      ha.performs.result
    rw [hbroken] at hok
    exact absurd hok (by simp)

/-- **A value survives churn.** All nodes are without faults; a value is put, after whatever else
has happened, and no member has another value of its key. Then every read of the key finds the
value, at every point of every run of admitted operations in which, since the last complete sweep,
fewer nodes have been added and fewer dropped than the key has replicas. A read breaks off if the
clock cannot tell its deadline, and only then. -/
theorem put_survives_churn {s : Scenario} {plan : RingPlan} {w w' : World}
    (hnodes : ∀ n ∈ s.nodes, n.IsMemory) (hplan : s.ring = some plan)
    (hw : s.initialWorld = .ok w) {past : List Op} (hpast : ∀ op ∈ past, op.OnMemory)
    {key value : String} {timeout : Option Duration}
    (hput : w' = w.after (past ++ [.put key value timeout])) {o : WriteOutcome}
    (hok : (w.after past).answerTo (.put key value timeout) = .one (.written o))
    (hothers : ∀ h ∈ w'.cluster.ring.membership.handles,
      w'.cluster.fleet.held h key = none ∨ w'.cluster.fleet.held h key = some value)
    {ops : List Op}
    (hops : ∀ pre op, pre ++ [op] <+: ops → Admits key value (w'.after pre) op)
    (hchurn : ∀ pre, pre <+: ops → (w'.churn pre).adds < plan.options.replicaCount ∧
      (w'.churn pre).drops < plan.options.replicaCount) :
    ∀ pre, pre <+: ops → ∀ t, (w'.after pre).answerTo (.get key t) =
      orBreaks plan.options t (.value (some value)) := by
  obtain ⟨hplain, hoptions, -, -⟩ := initialWorld_plain hnodes hplan hw
  obtain ⟨hbefore, hsame⟩ := hplain.after hpast
  obtain ⟨hafter, hring, hheld⟩ := held_after_put hbefore hok
  rw [World.after_concat] at hput
  rw [← hput] at hafter hring hheld
  have hstart : Durable key value w' {} := .of_replicas hafter hothers fun h hh => by
    rw [hring] at hh
    rw [hheld h (hbefore.cluster.sound.placement_subset hh), if_pos hh]
  have hstart' : w'.cluster.ring.options = plan.options := by
    rw [hring, hsame, hoptions]
  have hrun : ∀ pre, pre <+: ops → Durable key value (w'.after pre) (w'.churn pre) ∧
      (w'.after pre).cluster.ring.options = plan.options := by
    refine World.run_induction (P := fun pre v => Durable key value v (w'.churn pre) ∧
      v.cluster.ring.options = plan.options) ⟨hstart, hstart'⟩ ?_
    rintro pre op hpre ⟨hdurable, heq⟩
    obtain ⟨hadds, hdrops⟩ := hchurn pre (World.prefix_of_concat hpre).1
    rw [← heq] at hadds hdrops
    obtain ⟨hnext, hkept⟩ := hdurable.step hadds hdrops (hops pre op hpre)
    rw [World.churn_concat]
    exact ⟨hnext, hkept.trans heq⟩
  intro pre hpre t
  obtain ⟨hdurable, heq⟩ := hrun pre hpre
  obtain ⟨hadds, hdrops⟩ := hchurn pre hpre
  rw [← heq] at hadds hdrops
  rw [← heq]
  exact hdurable.read hadds hdrops t

/-- A value survives a dropped node and a new one in front of its copies. -/
theorem put_survives_churn_emptyTrio : ∃ w, emptyTrio.initialWorld = .ok w ∧
    ((w.after [.put "k" "v" none]).after [.drop ⟨10⟩, .add { id := ⟨5⟩ }, .repair none]).answerTo
      (.get "k" none) = .one (.value (some "v")) := by
  obtain ⟨w, hw⟩ : ∃ w, emptyTrio.initialWorld = .ok w := ⟨_, rfl⟩
  let ops : List Op := [.drop ⟨10⟩, .add { id := ⟨5⟩ }, .repair none]
  have hnodes : ∀ n ∈ emptyTrio.nodes, n.IsMemory := by
    intro n hn
    obtain ⟨hfaults, hstore⟩ := emptyTrio_nodes n hn
    exact ⟨hfaults, by rw [hstore]; exact List.Pairwise.nil⟩
  obtain ⟨hplain, hoptions, -, hstores⟩ := initialWorld_plain hnodes rfl hw
  have hok : w.answerTo (.put "k" "v" none) =
      .one (.written ⟨(w.cluster.ring.placement "k").ids, []⟩) := by
    have hfits : (w.cluster.ring.options.limit none).fits = true := by
      rw [hoptions]
      rfl
    obtain ⟨w', ha⟩ := World.acts_write hplain (.put "v") "k" hfits
    exact ha.performs.result
  have hothers : ∀ h ∈ (w.after [.put "k" "v" none]).cluster.ring.membership.handles,
      (w.after [.put "k" "v" none]).cluster.fleet.held h "k" = none ∨
      (w.after [.put "k" "v" none]).cluster.fleet.held h "k" = some "v" := by
    intro h hh
    obtain ⟨-, hring, hheld⟩ := held_after_put hplain hok
    have hh' : h ∈ w.cluster.ring.membership.handles := hring ▸ hh
    have hempty : w.cluster.fleet.held h "k" = none := by
      have hstore : (w.cluster.fleet.node h).store = .empty :=
        (hstores _ (hplain.cluster.houses h hh').node_mem).elim
          (fun hn => (emptyTrio_nodes _ hn).2) id
      rw [Fleet.held, hstore]
      rfl
    rw [show w.after [.put "k" "v" none] = (w.performStep (.single (.put "k" "v" none))).2 from rfl,
      hheld h hh', hempty]
    split
    · exact .inr rfl
    · exact .inl rfl
  have hops : ∀ pre op, pre ++ [op] <+: ops →
      Admits "k" "v" ((w.after [.put "k" "v" none]).after pre) op := by
    intro pre op hpre
    have hop := (World.prefix_of_concat hpre).2
    simp only [ops, List.mem_cons, List.not_mem_nil, or_false] at hop
    rcases hop with rfl | rfl | rfl
    · trivial
    · exact ⟨⟨rfl, List.Pairwise.nil⟩, .inl rfl⟩
    · trivial
  have hchurn : ∀ pre, pre <+: ops → ((w.after [.put "k" "v" none]).churn pre).adds < 2 ∧
      ((w.after [.put "k" "v" none]).churn pre).drops < 2 := fun pre hpre =>
    ⟨Nat.lt_of_le_of_lt (World.churn_adds_le hpre) (by decide),
      Nat.lt_of_le_of_lt (World.churn_drops_le hpre) (by decide)⟩
  have hpast : ∀ op ∈ ([] : List Op), op.OnMemory := fun op h => absurd h List.not_mem_nil
  exact ⟨w, hw, put_survives_churn hnodes rfl hw hpast rfl hok hothers hops hchurn ops
    (List.prefix_refl ops) none⟩

end Scenario

end ReplicaRing
