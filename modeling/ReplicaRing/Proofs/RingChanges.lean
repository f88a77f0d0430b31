import Mathlib.Logic.Function.Basic
import ReplicaRing.Proofs.PlainStart
import ReplicaRing.Proofs.Turns

/-!
# Changes of a ring

A ring that could be built stays in order, whoever adds and drops nodes and whatever else goes on.

* `Ring.Proper` — a ring in order, and `proper_of_create` — every ring that could be built is;
* `Proper.add_cases`, `Proper.drop_cases` — the exact results of the two changes;
* `World.Alters`, `begin_alters` — what a call that changes the membership does;
* `World.change?` — the call that succeeds in a turn, if it is one that changes the membership;
* `Fair.go_changes`, `Fair.follow_ring_proper` — a turn changes the ring just by such a call, so the
  ring stays in order and its version counts them.
-/

namespace ReplicaRing

/-! ### Changes of a ring -/

namespace Ring

/-- A ring in order: its nodes ascend by identity and are entered under their own, its options are
valid, and it has enough nodes for the replicas of a key. -/
structure Proper (r : Ring) : Prop where
  sound : r.membership.Sound
  valid : r.options.Valid
  enough : r.options.replicaCount ≤ r.membership.size

/-- A ring after one change, which tells what is found under every identity. -/
structure Becomes (r r' : Ring) (found : NodeId → Option Handle) : Prop where
  hasher : r'.hasher = r.hasher
  options : r'.options = r.options
  version : r'.membership.version = r.membership.version + 1
  found : r'.membership.find? = found

variable {r r' : Ring} {h : Handle} {id : NodeId}

theorem size_insert (hfresh : r.membership.find? h.id = none) :
    (r.membership.nodes.insert h.id h).size = r.membership.size + 1 := by
  have hperm := OrderedMap.entries_insert_perm hfresh h
  rw [Membership.size, OrderedMap.size, OrderedMap.size, hperm.length_eq, List.length_cons]

theorem size_erase (hr : r.membership.Sound) (hfind : r.membership.find? id = some h) :
    (r.membership.nodes.erase id).size + 1 = r.membership.size := by
  obtain ⟨hmem, hid⟩ := Membership.mem_of_find? hr hfind
  have hsplit : r.membership.handles.filter (·.id ≠ id) = r.membership.handles.erase h := by
    rw [hr.handles_nodup.erase_eq_filter]
    refine List.filter_congr fun x hx => ?_
    have hiff : x.id = id ↔ x = h :=
      ⟨fun he => hr.eq_of_id hx hmem (he.trans hid.symm), fun he => he ▸ hid⟩
    rw [Bool.eq_iff_iff, decide_eq_true_iff, bne_iff_ne, Ne, hiff]
  have hsize : (r.membership.nodes.erase id).size = (r.membership.handles.erase h).length := by
    rw [← hsplit, ← Membership.handles_erase hr id 0, ← Membership.size_eq]
    rfl
  rw [hsize, Membership.size_eq, List.length_erase_add_one hmem]

theorem becomes_insert (r : Ring) (h : Handle) :
    r.Becomes (r.withNodes (r.membership.nodes.insert h.id h))
      (Function.update r.membership.find? h.id (some h)) where
  hasher := rfl
  options := rfl
  version := rfl
  found := by
    funext id
    rw [Function.update_apply]
    exact OrderedMap.find?_insert ..

theorem becomes_erase (r : Ring) (id : NodeId) :
    r.Becomes (r.withNodes (r.membership.nodes.erase id))
      (Function.update r.membership.find? id none) where
  hasher := rfl
  options := rfl
  version := rfl
  found := by
    funext id'
    rw [Function.update_apply]
    exact OrderedMap.find?_erase ..

/-- **Adding a node.** It succeeds just if no node has its identity. -/
theorem Proper.add_cases (hr : r.Proper) (h : Handle) :
    r.membership.contains h.id = true ∧ r.add h = .error (.duplicateNode h.id) ∨
      r.membership.contains h.id = false ∧ ∃ r', r.add h = .ok r' ∧
        r.Becomes r' (Function.update r.membership.find? h.id (some h)) := by
  rw [add]
  cases hcontains : r.membership.contains h.id with
  | true => exact .inl ⟨rfl, rfl⟩
  | false =>
    have hfresh : r.membership.find? h.id = none := by
      rwa [Membership.contains, OrderedMap.contains, Option.isSome_eq_false_iff,
        Option.isNone_iff_eq_none] at hcontains
    have hsize : ¬ (r.membership.nodes.insert h.id h).size < r.options.replicaCount := by
      rw [size_insert hfresh]
      have := hr.enough
      omega
    refine .inr ⟨rfl, _, ?_, r.becomes_insert h⟩
    rw [publish, if_neg hsize]
    rfl

/-- **Dropping a node.** It fails if no node has the identity, or else if the ring has just as many
nodes as a key has replicas. -/
theorem Proper.drop_cases (hr : r.Proper) (id : NodeId) :
    r.membership.find? id = none ∧ r.drop id = .error (.unknownNode id) ∨
    (∃ h, r.membership.find? id = some h ∧ r.membership.size = r.options.replicaCount ∧
      r.drop id = .error (.ringTooSmall (r.membership.size - 1) r.options.replicaCount)) ∨
    ∃ h r', r.membership.find? id = some h ∧ r.membership.size ≠ r.options.replicaCount ∧
      r.drop id = .ok (h, r') ∧ r.Becomes r' (Function.update r.membership.find? id none) := by
  rw [drop]
  cases hfind : r.membership.find? id with
  | none => exact .inl ⟨rfl, rfl⟩
  | some h =>
    have hsize := size_erase hr.sound hfind
    have henough := hr.enough
    refine .inr ?_
    by_cases htight : r.membership.size = r.options.replicaCount
    · refine .inl ⟨h, rfl, htight, ?_⟩
      rw [publish, if_pos (by omega)]
      have hless : (r.membership.nodes.erase id).size = r.membership.size - 1 := by omega
      rw [hless]
      rfl
    · refine .inr ⟨h, _, rfl, htight, ?_, r.becomes_erase id⟩
      rw [publish, if_neg (by omega)]
      rfl

/-- **One change.** A ring in order stays so. -/
theorem Proper.changes (hr : r.Proper) (h : r.Changes r') :
    r'.Proper ∧ r'.hasher = r.hasher ∧ r'.options = r.options ∧
      r'.membership.version = r.membership.version + 1 := by
  rcases h with ⟨h, hadd⟩ | ⟨id, h, hdrop⟩
  · obtain ⟨e, he⟩ | ⟨hok, hfresh, hsize⟩ := Ring.add_cases r h
    · exact nomatch he.symm.trans hadd
    · obtain rfl := Except.ok.inj (hok.symm.trans hadd)
      exact ⟨⟨hr.sound.insert hfresh _, hr.valid, hsize⟩, rfl, rfl, rfl⟩
  · obtain ⟨e, he⟩ | ⟨h', hok, hfind, hsize⟩ := Ring.drop_cases r id
    · exact nomatch he.symm.trans hdrop
    · obtain ⟨rfl, rfl⟩ := Prod.mk.inj (Except.ok.inj (hok.symm.trans hdrop))
      exact ⟨⟨hr.sound.erase id _, hr.valid, hsize⟩, rfl, rfl, rfl⟩

/-- Every key has as many replicas as the options say, and they are different nodes of the ring. -/
theorem Proper.placement (hr : r.Proper) (key : String) :
    (r.placement key).size = r.options.replicaCount ∧ (r.placement key).ids.Nodup ∧
      ∀ m ∈ (r.placement key).members, r.membership.find? m.id = some m := by
  refine ⟨hr.sound.placement_length _ hr.enough,
    List.pairwise_map.2 (hr.sound.placement_ne _ _), fun m hm => ?_⟩
  exact hr.sound.find?_of_mem (hr.sound.placement_subset hm)

/-- A ring that could be built is in order, and it has not been changed yet. -/
theorem proper_of_create {hasher : KeyHasher} {options : RingOptions} {handles : List Handle}
    (h : create hasher options handles = .ok r) :
    r.Proper ∧ r.hasher = hasher ∧ r.options = options ∧ r.membership.version = 0 := by
  obtain ⟨hhasher, hoptions, hvalid, henough, hsound, -⟩ := create_ok h
  exact ⟨⟨hsound, hoptions ▸ hvalid, hoptions ▸ henough⟩, hhasher, hoptions, create_version h⟩

end Ring

/-! ### Calls -/

/-- No request at all: whatever a node answers, it is candid about these. -/
abbrev Operation.never : Operation → Prop := fun _ => False

theorem Faults.candid_never (faults : Faults) : faults.Candid Operation.never := by
  cases faults with
  | none => exact trivial
  | injected i => exact trivial
  | scripted rules phantoms => exact ⟨fun _ _ hon => hon.elim, fun hon => hon.elim⟩

namespace Scenario

/-- A call that changes the membership if it succeeds. -/
def Op.isChange : Op → Bool
  | .add _ => true
  | .addAgain _ => true
  | .drop _ => true
  | .addRandom => true
  | .dropRandom => true
  | _ => false

theorem Op.fixed_of_isChange {op : Op} (h : op.isChange = false) : op.Fixed := by
  cases op <;> first | exact trivial | exact nomatch h

/-- The answer of a call that has succeeded. -/
def Activity.success? : Activity → Option Answer
  | answered _ (.ringError _) => none
  | answered _ (.rejected _) => none
  | answered _ x => some x
  | _ => none

theorem Activity.candid_never (a : Activity) : a.Candid Operation.never := by
  cases a with
  | later t op =>
    cases op with
    | add node => exact Faults.candid_never _
    | script id rules phantoms => exact Faults.candid_never (.scripted rules phantoms)
    | _ => exact trivial
  | _ => exact trivial

namespace World

variable {w v : World} {t : Instant} {x : Turn} {i : Nat} {turns : List (Instant × Turn)}

/-- The answer of the call that succeeds in a turn, if it is one that changes the membership. -/
def change? (v : World) : Turn → Option Answer
  | .activity i =>
    match v.activities[i]? with
    | some (.later _ op) => if op.isChange then (v.begin op).1.success? else none
    | _ => none
  | .loop _ => none

/-- A call that changes the membership, or fails and leaves the ring as it was. -/
def ChangesIfSuccessful (w : World) (p : Activity × World) : Prop :=
  (p.1.success? = none → p.2.cluster.ring = w.cluster.ring) ∧
    (p.1.success? ≠ none → w.cluster.ring.Changes p.2.cluster.ring)

/-- A call that changes the membership is answered at once. It may add a node, and whatever is not
about the membership stays as it was. -/
structure Alters (w : World) (p : Activity × World) : Prop where
  answered : ∃ t x, p.1 = .answered t x
  changes : w.ChangesIfSuccessful p
  activities : p.2.activities = w.activities
  loops : p.2.loops = w.loops
  hasRing : p.2.hasRing = w.hasRing
  kept : p.2.kept = w.kept
  now : p.2.cluster.now = w.cluster.now
  env : p.2.cluster.env = w.cluster.env
  metrics : p.2.cluster.metrics = w.cluster.metrics
  options : p.2.cluster.ring.options = w.cluster.ring.options
  fleet : p.2.cluster.fleet = w.cluster.fleet ∨
    ∃ n, p.2.cluster.fleet = (w.cluster.fleet.enlist n).2

theorem alters_reply (w : World) {x : Answer} (hx : (Activity.now w.cluster x).success? = none) :
    w.Alters (w.reply x) where
  answered := ⟨_, x, rfl⟩
  changes := ⟨fun _ => rfl, fun h => absurd hx h⟩
  activities := rfl
  loops := rfl
  hasRing := rfl
  kept := rfl
  now := rfl
  env := rfl
  metrics := rfl
  options := rfl
  fleet := .inl rfl

/-- A node joins the ring, perhaps one that has just been added to the fleet. -/
theorem alters_addKnown (w : World) {f : Fleet}
    (hf : f = w.cluster.fleet ∨ ∃ n, f = (w.cluster.fleet.enlist n).2) (h : Handle) :
    w.Alters (addKnown { w with cluster := { w.cluster with fleet := f } } h) := by
  rw [addKnown]
  obtain ⟨e, he⟩ | ⟨hok, -, -⟩ := w.cluster.ring.add_cases h
  · simp only [he]
    exact { w.alters_reply (x := .ringError e) rfl with fleet := hf }
  · simp only [hok]
    exact ⟨⟨_, _, rfl⟩, ⟨fun hnone => absurd hnone (Option.some_ne_none _), fun _ => .inl ⟨h, hok⟩⟩,
      rfl, rfl, rfl, rfl, rfl, rfl, rfl, rfl, hf⟩

theorem alters_addRandom (w : World) : w.Alters w.addRandom := by
  rw [addRandom]
  cases w.cluster.ring.freeId? (w.draws w.drawCount) with
  | none => exact w.alters_reply rfl
  | some id =>
    obtain ⟨e, he⟩ | ⟨hok, -, -⟩ := w.cluster.ring.add_cases (w.cluster.fleet.enlist { id := id }).1
    · simp only [he]
      exact w.alters_reply rfl
    · simp only [hok]
      exact ⟨⟨_, _, rfl⟩, ⟨fun hnone => absurd hnone (Option.some_ne_none _),
        fun _ => .inl ⟨_, hok⟩⟩, rfl, rfl, rfl, rfl, rfl, rfl, rfl, rfl, .inr ⟨_, rfl⟩⟩

theorem alters_dropNode (w : World) (id : NodeId) {x : NodeId → Answer}
    (hx : ∀ c id, (Activity.now c (x id)).success? ≠ none) : w.Alters (w.dropNode id x) := by
  rw [dropNode]
  obtain ⟨e, he⟩ | ⟨h, hok, -, -⟩ := w.cluster.ring.drop_cases id
  · rw [he]
    exact w.alters_reply rfl
  · rw [hok]
    exact ⟨⟨_, _, rfl⟩, ⟨fun hnone => absurd hnone (hx _ _), fun _ => .inr ⟨id, h, hok⟩⟩,
      rfl, rfl, rfl, rfl, rfl, rfl, rfl, rfl, .inl rfl⟩

/-- **Calls** that change the membership do so just if they succeed, and do nothing else. -/
theorem begin_alters (w : World) {op : Op} (hop : op.isChange = true) : w.Alters (w.begin op) := by
  rw [begin]
  split
  · cases op with
    | add node => exact w.alters_addKnown (.inr ⟨node, rfl⟩) _
    | addAgain id =>
      rw [beginChecked, withNode]
      cases w.registry.find? id with
      | none => exact w.alters_reply rfl
      | some h => exact w.alters_addKnown (.inl rfl) h
    | drop id => exact w.alters_dropNode id fun _ _ => Option.some_ne_none _
    | addRandom => exact w.alters_addRandom
    | dropRandom =>
      rw [beginChecked]
      cases w.randoms.find? w.cluster.ring.membership.contains with
      | none => exact w.alters_reply rfl
      | some id => exact w.alters_dropNode id fun _ _ => Option.some_ne_none _
    | _ => cases hop
  · exact w.alters_reply rfl

/-- **One turn.** The ring changes just if a call that changes the membership succeeds. -/
theorem Fair.go_changes (hv : v.Fair Operation.never) (x : Turn) :
    (v.change? x = none → (v.go x).cluster.ring = v.cluster.ring) ∧
      (v.change? x ≠ none → v.cluster.ring.Changes (v.go x).cluster.ring) := by
  have hturned := hv.turned (x := x) fun _ a _ _ => a.candid_never
  cases x with
  | loop i => exact ⟨fun _ => hturned.ring_eq trivial, fun h => absurd rfl h⟩
  | activity i =>
    have hfixed : (∀ a, v.activities[i]? = some a → a.Fixed) → v.change? (.activity i) = none →
        (v.change? (.activity i) = none → (v.go (.activity i)).cluster.ring = v.cluster.ring) ∧
        (v.change? (.activity i) ≠ none →
          v.cluster.ring.Changes (v.go (.activity i)).cluster.ring) :=
      fun hspares hnone => ⟨fun _ => hturned.ring_eq hspares, fun h => absurd hnone h⟩
    cases hi : v.activities[i]? with
    | none => exact hfixed (fun a ha => nomatch hi.symm.trans ha) (by rw [change?, hi])
    | some a =>
      cases a with
      | later t op =>
        cases hop : op.isChange with
        | false =>
          refine hfixed (fun a ha => ?_)
            (by simp only [change?, hi, hop, Bool.false_eq_true, if_false])
          obtain rfl := Option.some.inj (hi.symm.trans ha)
          exact Op.fixed_of_isChange hop
        | true =>
          have hchange : v.change? (.activity i) = (v.begin op).1.success? := by
            simp only [change?, hi, hop, if_true]
          rw [hchange, go_activity_some hi]
          exact (v.begin_alters hop).changes
      | _ =>
        refine hfixed (fun a ha => ?_) (by simp only [change?, hi])
        obtain rfl := Option.some.inj (hi.symm.trans ha)
        exact trivial

/-! ### Runs -/

/-- What each turn keeps is kept by every run, whatever is called and whatever the nodes answer. -/
theorem Fair.follow_any (hw : w.Fair Operation.never) {turns : List (Instant × Turn)}
    {Q : List (Instant × Turn) → Prop} (hstart : Q [])
    (hturn : ∀ past t x v, past ++ [(t, x)] <+: turns → v = (w.follow past).advanceTo t → Q past →
      v.Fair Operation.never → v.Turned Operation.never x (v.go x) → Q (past ++ [(t, x)])) :
    Q turns := by
  have hlasts : Lasts fun _ => True := fun _ _ _ _ => trivial
  have hcalls : w.Calls turns fun _ => True := fun _ _ _ _ => trivial
  refine hw.follow_turned hlasts (fun a _ => a.candid_never) hcalls hstart ?_
  exact fun past t x v hinit hv hq hfair _ hturned => hturn past t x v hinit hv hq hfair hturned

/-- **Runs.** The ring stays in order, and its version counts the calls that have changed it. -/
theorem Fair.follow_ring_proper (hw : w.Fair Operation.never) (hr : w.cluster.ring.Proper)
    (turns : List (Instant × Turn)) :
    (w.follow turns).Fair Operation.never ∧ (w.follow turns).cluster.ring.Proper ∧
      (w.follow turns).cluster.ring.hasher = w.cluster.ring.hasher ∧
      (w.follow turns).cluster.ring.options = w.cluster.ring.options ∧
      (w.follow turns).cluster.ring.membership.version =
        w.cluster.ring.membership.version + (w.trace change? turns).length := by
  refine hw.follow_any
    (Q := fun past => (w.follow past).Fair Operation.never ∧ (w.follow past).cluster.ring.Proper ∧
      (w.follow past).cluster.ring.hasher = w.cluster.ring.hasher ∧
      (w.follow past).cluster.ring.options = w.cluster.ring.options ∧
      (w.follow past).cluster.ring.membership.version =
        w.cluster.ring.membership.version + (w.trace change? past).length)
    ⟨hw, hr, rfl, rfl, rfl⟩ ?_
  rintro past t x v - rfl ⟨-, hproper, hhasher, hoptions, hversion⟩ hfair hturned
  obtain ⟨hsame, hchanges⟩ := hfair.go_changes x
  rw [follow_concat, trace_concat, List.length_append]
  cases hx : ((w.follow past).advanceTo t).change? x with
  | none =>
    rw [hsame hx]
    exact ⟨hturned.fair, hproper, hhasher, hoptions, hversion⟩
  | some answer =>
    obtain ⟨hproper', hhasher', hoptions', hversion'⟩ := hproper.changes
      (hchanges (by rw [hx]; exact Option.some_ne_none answer))
    refine ⟨hturned.fair, hproper', hhasher'.trans hhasher, hoptions'.trans hoptions, ?_⟩
    exact hversion'.trans (congrArg (· + 1) hversion)

end World

end Scenario

end ReplicaRing
