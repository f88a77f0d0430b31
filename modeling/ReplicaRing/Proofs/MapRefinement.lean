import ReplicaRing.Proofs.PlainRuns

/-!
# A shrinking ring refines one map

As long as nodes only leave, and fewer than a key has replicas between two sweeps, a ring answers
like one plain map.

* `replay` — the plain map that serves the same requests, but for those that break off;
* `Mirrors` — the data of a ring agree with a map, and enough copies are left;
* `Mirrors.step` — every operation keeps that;
* `shrinking_ring_refines_map` — all answers of all runs.
-/

namespace ReplicaRing.Scenario

/-- The request that an operation stands for on a single map, if it is about data and does not break
off. -/
def Op.request? (o : RingOptions) : Op → Option Request
  | .put key value timeout => if (o.limit timeout).fits then some (.set key value) else none
  | .delete key timeout => if (o.limit timeout).fits then some (.delete key) else none
  | .clear => some .clear
  | _ => none

/-- A map after an operation. -/
def Op.replayOn (o : RingOptions) (op : Op) (m : Store) : Store :=
  (op.request? o).elim m fun r => (Store.serve r m).2

/-- The map that serves the requests of operations. -/
def replay (o : RingOptions) (ops : List Op) : Store :=
  ops.foldl (fun m op => op.replayOn o m) .empty

theorem replay_concat (o : RingOptions) (ops : List Op) (op : Op) :
    replay o (ops ++ [op]) = op.replayOn o (replay o ops) := by
  rw [replay, List.foldl_append]
  rfl

section

variable {o : RingOptions} {change : Change} {key : String} {timeout : Option Duration} {m : Store}

theorem replayOn_of_fits (h : (o.limit timeout).fits = true) :
    (World.changeOp key timeout change).replayOn o m = (Store.serve (change.request key) m).2 := by
  cases change <;> simp [World.changeOp, Op.replayOn, Op.request?, Change.request, h]

theorem replayOn_of_not (h : (o.limit timeout).fits = false) :
    (World.changeOp key timeout change).replayOn o m = m := by
  cases change <;> simp [World.changeOp, Op.replayOn, Op.request?, h]

end

/-- The operations of a ring that only shrinks. -/
def Op.Shrinks : Op → Prop
  | .put _ _ _ | .get _ _ | .delete _ _ | .clear | .repair _ | .drop _ => True
  | _ => False

/-- An answer is the one that a map gives, every write reaches all replicas, and a sweep is complete
unless it is told to stop. An operation breaks off if the clock cannot tell its deadline, and only
then. -/
def Answers (o : RingOptions) (w : World) (m : Store) : Op → Result → Prop
  | .get key timeout, x => x = orBreaks o timeout (.value (m.find? key))
  | .put key _ timeout, x | .delete key timeout, x =>
    x = orBreaks o timeout (.written ⟨(w.cluster.ring.placement key).ids, []⟩)
  | .clear, x => x = .one .done
  | .repair cancelAfter, x => ∃ r told, x = .one (.report r told) ∧
    (cancelAfter = none → r.cancelled = false)
  | .drop id, x => x = .one (.dropped id) ∨ ∃ e, x = .one (.ringError e)
  | _, _ => True

/-- The data of a ring agree with a map: whoever holds a key is a replica and holds the value of
the map, and of every key of the map there are as many copies as replicas, but for those that have
been dropped. -/
structure Mirrors (w : World) (m : Store) (drops : Nat) : Prop where
  plain : w.Plain
  agree : ∀ h ∈ w.cluster.ring.membership.handles, ∀ k v, w.cluster.fleet.held h k = some v →
    m.find? k = some v ∧ h ∈ (w.cluster.ring.placement k).members
  copies : ∀ k, m.find? k ≠ none → ∃ S : Finset Handle,
    (∀ h ∈ S, h ∈ w.cluster.ring.membership.handles ∧ w.cluster.fleet.held h k ≠ none) ∧
    w.cluster.ring.options.replicaCount ≤ S.card + drops

namespace Mirrors

open World

variable {w w' : World} {m : Store} {drops : Nat}

/-- A key of the map has a replica that holds it. -/
theorem holder (h : Mirrors w m drops) (hdrops : drops < w.cluster.ring.options.replicaCount)
    {k v : String} (hk : m.find? k = some v) :
    ∃ a ∈ w.cluster.ring.membership.handles, w.cluster.fleet.held a k = some v ∧
      a ∈ (w.cluster.ring.placement k).members := by
  obtain ⟨S, hS, hcard⟩ := h.copies k (by rw [hk]; exact Option.some_ne_none v)
  have hpos : 0 < S.card := by omega
  obtain ⟨a, ha⟩ := Finset.card_pos.1 hpos
  obtain ⟨hmem, hheld⟩ := hS a ha
  obtain ⟨x, hx⟩ := Option.ne_none_iff_exists'.1 hheld
  obtain ⟨hmx, hplaced⟩ := h.agree a hmem k x hx
  obtain rfl := Option.some.inj (hmx.symm.trans hk)
  exact ⟨a, hmem, hx, hplaced⟩

/-- The first value that members of a list hold is that of the map, if one of them holds any. -/
theorem findSome?_eq (h : Mirrors w m drops)
    (hdrops : drops < w.cluster.ring.options.replicaCount) {k : String} {hs : List Handle}
    (hsub : ∀ x ∈ hs, x ∈ w.cluster.ring.membership.handles)
    (hplaced : ∀ x ∈ (w.cluster.ring.placement k).members, x ∈ hs) :
    hs.findSome? (fun x => w.cluster.fleet.held x k) = m.find? k := by
  cases hfound : hs.findSome? (fun x => w.cluster.fleet.held x k) with
  | some v =>
    obtain ⟨a, ha, hv⟩ := List.exists_of_findSome?_eq_some hfound
    exact (h.agree a (hsub a ha) k v hv).1.symm
  | none =>
    cases hk : m.find? k with
    | none => rfl
    | some v =>
      obtain ⟨a, -, hv, ha⟩ := h.holder hdrops hk
      have hnone := List.findSome?_eq_none_iff.1 hfound a (hplaced a ha)
      exact absurd (hv.symm.trans hnone) (Option.some_ne_none v)

/-- An operation that changes no data. -/
theorem idle (h : Mirrors w m drops) {op : Op} {x : Answer} (ha : w.Idles op x w') :
    Mirrors w' m drops where
  plain := ha.plain
  agree a hmem k v hv := by
    rw [ha.ring] at hmem ⊢
    exact h.agree a hmem k v ((ha.data a hmem k).symm.trans hv)
  copies k hk := by
    obtain ⟨S, hS, hcard⟩ := h.copies k hk
    rw [ha.ring]
    refine ⟨S, fun a hmem => ⟨(hS a hmem).1, ?_⟩, hcard⟩
    rw [ha.data a (hS a hmem).1 k]
    exact (hS a hmem).2

/-- A write. -/
theorem write (h : Mirrors w m drops) {change : Change} {key : String} {op : Op} {x : Answer}
    (ha : w.Acts op x (fun a k old => if a ∈ (w.cluster.ring.placement key).members then
      (change.request key).effect k old else old) w') :
    Mirrors w' (Store.serve (change.request key) m).2 drops where
  plain := ha.plain
  agree a hmem k v hv := by
    rw [ha.ring] at hmem ⊢
    rw [ha.data a hmem k] at hv
    rw [Store.find?_serve]
    by_cases hk : k = key
    · subst hk
      split at hv
      · next hplaced =>
        refine ⟨?_, hplaced⟩
        cases change with
        | put value => simpa [Change.request, Request.effect] using hv
        | delete => simp [Change.request, Request.effect] at hv
      · next hplaced => exact absurd (h.agree a hmem k v hv).2 hplaced
    · rw [change.effect_of_ne hk, ite_self] at hv
      rw [change.effect_of_ne hk]
      exact h.agree a hmem k v hv
  copies k hk := by
    rw [Store.find?_serve] at hk
    rw [ha.ring]
    by_cases hkey : k = key
    · subst hkey
      refine ⟨(w.cluster.ring.placement k).members.toFinset, fun a hmem => ?_, ?_⟩
      · rw [List.mem_toFinset] at hmem
        have hmem' := h.plain.cluster.sound.placement_subset hmem
        refine ⟨hmem', ?_⟩
        rw [ha.data a hmem' k, if_pos hmem]
        cases change with
        | put value => simp [Change.request, Request.effect]
        | delete => simp [Change.request, Request.effect] at hk
      · rw [h.plain.cluster.placement_card]
        omega
    · rw [change.effect_of_ne hkey] at hk
      obtain ⟨S, hS, hcard⟩ := h.copies k hk
      refine ⟨S, fun a hmem => ⟨(hS a hmem).1, ?_⟩, hcard⟩
      rw [ha.data a (hS a hmem).1 k, change.effect_of_ne hkey, ite_self]
      exact (hS a hmem).2

/-- A wipe. -/
theorem clear {op : Op} {x : Answer}
    (ha : w.Acts op x (fun _ _ _ => none) w') : Mirrors w' .empty drops where
  plain := ha.plain
  agree a hmem k v hv := by
    rw [ha.ring] at hmem
    rw [ha.data a hmem k] at hv
    exact absurd hv.symm (Option.some_ne_none v)
  copies k hk := absurd rfl hk

/-- A sweep restores all copies, so it does not matter any more what has been dropped. -/
theorem repair (h : Mirrors w m drops) (hdrops : drops < w.cluster.ring.options.replicaCount)
    {op : Op} {x : Answer}
    (ha : w.Acts op x (fun a k old => old.or (if a ∈ (w.cluster.ring.placement k).members then
      w.cluster.ring.membership.handles.findSome? fun b => w.cluster.fleet.held b k
      else none)) w') : Mirrors w' m 0 where
  plain := ha.plain
  agree a hmem k v hv := by
    rw [ha.ring] at hmem ⊢
    rw [ha.data a hmem k, h.findSome?_eq hdrops (fun _ hx => hx)
      fun _ hx => h.plain.cluster.sound.placement_subset hx] at hv
    cases hold : w.cluster.fleet.held a k with
    | some old =>
      rw [hold, Option.some_or] at hv
      obtain rfl := Option.some.inj hv
      exact h.agree a hmem k old hold
    | none =>
      rw [hold, Option.none_or] at hv
      split at hv
      · next hplaced => exact ⟨hv, hplaced⟩
      · exact absurd hv.symm (Option.some_ne_none v)
  copies k hk := by
    rw [ha.ring]
    refine ⟨(w.cluster.ring.placement k).members.toFinset, fun a hmem => ?_, ?_⟩
    · rw [List.mem_toFinset] at hmem
      have hmem' := h.plain.cluster.sound.placement_subset hmem
      refine ⟨hmem', ?_⟩
      rw [ha.data a hmem' k, if_pos hmem, h.findSome?_eq hdrops (fun _ hx => hx)
        fun _ hx => h.plain.cluster.sound.placement_subset hx]
      cases w.cluster.fleet.held a k with
      | some old => exact Option.some_ne_none old
      | none => exact hk
    · rw [h.plain.cluster.placement_card]
      omega

/-- A node that leaves takes at most one copy of every key with it. -/
theorem leave (h : Mirrors w m drops) {op : Op} {x : Answer} {id : NodeId}
    (hl : w.Leaves op x id w') : Mirrors w' m (drops + 1) where
  plain := hl.plain
  agree a hmem k v hv := by
    rw [hl.mem_handles h.plain] at hmem
    rw [hl.held] at hv
    obtain ⟨hm, hplaced⟩ := h.agree a hmem.1 k v hv
    exact ⟨hm, hl.mem_placement h.plain hplaced hmem.2⟩
  copies k hk := by
    obtain ⟨S, hS, hcard⟩ := h.copies k hk
    refine ⟨S.filter (·.id ≠ id), fun a hmem => ?_, ?_⟩
    · rw [Finset.mem_filter] at hmem
      rw [hl.mem_handles h.plain, hl.held]
      exact ⟨⟨(hS a hmem.1).1, hmem.2⟩, (hS a hmem.1).2⟩
    · have hle := Leaves.card_le h.plain (fun a ha => (hS a ha).1) id
      rw [hl.options]
      omega

/-- A change is made by all replicas and by the map, or it breaks off and neither makes it. -/
theorem change (h : Mirrors w m drops) (change : Change) (key : String)
    (timeout : Option Duration) :
    Mirrors (w.performStep (.single (changeOp key timeout change))).2
        ((changeOp key timeout change).replayOn w.cluster.ring.options m) drops ∧
      w.answerTo (changeOp key timeout change) = orBreaks w.cluster.ring.options timeout
        (.written ⟨(w.cluster.ring.placement key).ids, []⟩) ∧
      (w.performStep (.single (changeOp key timeout change))).2.cluster.ring.options =
        w.cluster.ring.options := by
  obtain ⟨hfits, w', ha⟩ | ⟨hfits, w', ha⟩ := change_cases h.plain change key timeout
  · obtain ⟨hresult, rfl⟩ := ha.performs
    rw [replayOn_of_fits hfits, orBreaks_of_fits hfits]
    exact ⟨h.write ha, hresult, congrArg Ring.options ha.ring⟩
  · obtain ⟨hresult, rfl⟩ := ha.performs
    rw [replayOn_of_not hfits, orBreaks_of_not hfits]
    exact ⟨h.idle ha, hresult, congrArg Ring.options ha.ring⟩

/-- What one step is to keep: the agreement with the map, the answers of the map, and the options
of the ring. -/
def Steps (w : World) (m : Store) (c : Churn) (op : Op) (r : Result) (w' : World) : Prop :=
  Mirrors w' (op.replayOn w.cluster.ring.options m) (c.count op r).drops ∧
    Answers w.cluster.ring.options w m op r ∧ w'.cluster.ring.options = w.cluster.ring.options

/-- **One step.** Every operation of a shrinking ring keeps the data in agreement with the map, and
is answered as the map answers. -/
theorem step {c : Churn} (h : Mirrors w m c.drops)
    (hdrops : c.drops < w.cluster.ring.options.replicaCount) {op : Op} (hop : op.Shrinks) :
    Steps w m c op (w.answerTo op) (w.performStep (.single op)).2 := by
  cases op with
  | put key value timeout => exact h.change (.put value) key timeout
  | delete key timeout => exact h.change .delete key timeout
  | get key timeout =>
    obtain ⟨hfits, w', ha⟩ | ⟨hfits, w', ha⟩ := get_cases h.plain key timeout
    · have hfound : ((w.cluster.ring.placement key).members.findSome? fun a =>
          w.cluster.fleet.held a key) = m.find? key :=
        h.findSome?_eq hdrops (fun _ hx => h.plain.cluster.sound.placement_subset hx)
          fun _ hx => hx
      rw [hfound] at ha
      exact ha.performs.elim
        ⟨h.idle ha, (orBreaks_of_fits hfits).symm, congrArg Ring.options ha.ring⟩
    · exact ha.performs.elim
        ⟨h.idle ha, (orBreaks_of_not hfits).symm, congrArg Ring.options ha.ring⟩
  | clear =>
    obtain ⟨w', ha⟩ := acts_clear h.plain
    exact ha.performs.elim ⟨clear ha, rfl, congrArg Ring.options ha.ring⟩
  | repair cancelAfter =>
    obtain ⟨r, told, w', hcancel, ha⟩ | ⟨r, told, w', hne, hcancel, ha⟩ :=
      acts_repair h.plain cancelAfter
    · refine ha.performs.elim ⟨?_, ⟨r, told, rfl, fun _ => hcancel⟩, congrArg Ring.options ha.ring⟩
      rw [Churn.count, hcancel]
      exact h.repair hdrops ha
    · refine ha.performs.elim ⟨?_, ⟨r, told, rfl, fun he => absurd he hne⟩,
        congrArg Ring.options ha.ring⟩
      rw [Churn.count, hcancel]
      exact h.idle ha
  | drop id =>
    obtain ⟨e, w', ha⟩ | ⟨w', hl⟩ := drop_cases h.plain id
    · exact ha.performs.elim ⟨h.idle ha, .inr ⟨e, rfl⟩, congrArg Ring.options ha.ring⟩
    · exact hl.performs.elim ⟨h.leave hl, .inl rfl, hl.options⟩
  | _ => exact hop.elim

end Mirrors

end ReplicaRing.Scenario
