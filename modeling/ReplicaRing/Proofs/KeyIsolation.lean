import ReplicaRing.Proofs.ClientEnds
import ReplicaRing.Proofs.KeyEvents
import ReplicaRing.Proofs.PlainRuns
import ReplicaRing.Proofs.SweepResult

/-!
# Keys do not interfere

A run over nodes that are up or down is compared with what remains of it if only one key is of
interest: other keys are taken from all stores, and their gets, puts and deletes are left out. What
is answered about the key, and what every node holds under it, stays the same, whatever the hasher
makes of the keys and whatever fails.

* `Cluster.steady_of_switches` — nodes that are up or down always answer or always fail;
* `KeyImage.begin_kept`, `KeyImage.begin_left_out` — how operations start in both worlds, or in one;
* `KeyImage.ends_kept` — every operation comes to its end;
* `KeyImage.perform_kept`, `KeyImage.perform_left_out` — **operations** and what remains of them;
* `keys_apart` — **the law over every run**.
-/

namespace ReplicaRing

variable {k : String}

/-! ### Sweeps over switches -/

namespace Cluster

variable {c : Cluster}

/-- The members that are switched off. -/
def downIds (c : Cluster) : Finset NodeId :=
  ((c.ring.membership.handles.filter fun h => (c.fleet.node h).isDown).map (·.id)).toFinset

theorem mem_downIds (hsound : c.ring.membership.Sound) {h : Handle}
    (hh : h ∈ c.ring.membership.handles) :
    h.id ∈ c.downIds ↔ (c.fleet.node h).isDown = true := by
  rw [downIds, List.mem_toFinset, List.mem_map]
  constructor
  · rintro ⟨x, hx, hid⟩
    obtain ⟨hmem, hdown⟩ := List.mem_filter.1 hx
    obtain rfl := hsound.eq_of_id hmem hh hid
    exact hdown
  · intro hdown
    exact ⟨h, List.mem_filter.2 ⟨hh, hdown⟩, rfl⟩

/-- Nodes that are up always answer, and nodes that are down always fail. -/
theorem steady_of_switches (hsound : c.ring.membership.Sound)
    (hhouses : ∀ h ∈ c.ring.membership.handles, c.fleet.Houses h) (hc : c.fleet.Switches) :
    c.Steady c.downIds where
  sound := hsound
  houses := hhouses
  sorted h _ := (hc.node h).sorted
  answering h hh hup := by
    rw [mem_downIds hsound hh] at hup
    have hfaults := (hc.node h).faults
    cases hf : (c.fleet.node h).faults with
    | none => exact Node.answering_of_none hf
    | injected i =>
      rw [hf] at hfaults
      obtain ⟨hlatency, hjitter, hodds⟩ := hfaults
      have hon : i.down = false := by
        rw [Node.isDown, hf] at hup
        exact Bool.eq_false_iff.2 hup
      refine Node.answering_of_injected hf hon hodds ?_ ?_
      · rw [hlatency, hjitter]
        exact Nat.zero_le _
      · rw [hlatency, hjitter]
        exact Nat.zero_le _
    | scripted rules phantoms =>
      rw [hf] at hfaults
      exact hfaults.elim
  failing h hh hdown := Node.failing_of_isDown ((mem_downIds hsound hh).1 hdown)

end Cluster

namespace Scenario.World

variable {w w' : World} {op op' : Op}

/-! ### Starts -/

/-- A change of membership or of a switch leaves a world and its image. -/
theorem KeyImage.begin_instant (h : w.KeyImage k w') (hop : op.OnSwitches)
    (hinstant : op.isInstant = true) (hk : op.only k = some op') :
    ∃ t x v v', w.begin op = (.answered t x, v) ∧ w'.begin op' = (.answered t x, v') ∧
      v.KeyImage k v' := by
  have hfresh : w.Fresh :=
    ⟨fun a ha => absurd (h.activities ▸ ha) (Array.not_mem_empty a), h.alike.loops⟩
  have hfair : w.Fair Operation.never := hfresh.fair h.linked fun n _ => n.faults.candid_never
  have hbegins := begin_begins hfair (Activity.candid_never (.later w.cluster.now op))
  obtain ⟨t, x, hfirst, hsecond, halike⟩ := h.alike.begin_instant hop hinstant hk
  exact ⟨t, x, (w.begin op).2, (w'.begin op').2, Prod.ext hfirst rfl, Prod.ext hsecond rfl, halike,
    hbegins.activities.trans h.activities, hbegins.linked⟩

/-- A sweep is its own like at its start. -/
theorem start_mirrors (m : Membership) (now : Instant) :
    SweepRun.Mirrors k now ⟨.start m, none⟩ ⟨.start m, none⟩ := .of_sweep ⟨rfl, rfl⟩

/-- A sweep that is not told to stop at once is not told to stop before the clock goes on. -/
theorem not_told_now (c : Cluster) {cancelAfter : Option Duration}
    (hafter : ∀ d, cancelAfter = some d → 0 < d.nanos) :
    cancelledBy (cancelAfter.map c.after) c.now = false := by
  cases cancelAfter with
  | none => rfl
  | some d => exact decide_eq_false (Nat.not_le.2 (c.env.timer.lt_after (hafter d rfl)))

/-- **The start of an operation** that remains. -/
theorem KeyImage.begin_kept (h : w.KeyImage k w') (hop : op.OnSwitches)
    (hk : op.only k = some op') : Mirrored k op.isSweep (w.begin op) (w'.begin op') := by
  obtain ⟨hinstant, hclient⟩ | ⟨r, hr, hclient⟩ | ⟨cancelAfter, rfl⟩ := hop.cases
  · obtain ⟨t, x, v, v', hfirst, hsecond, himage⟩ := h.begin_instant hop hinstant hk
    rw [hfirst, hsecond, hclient]
    exact ⟨.same trivial, himage⟩
  · obtain ⟨rfl, hconcerns⟩ := Op.only_of_asks hr hk
    obtain ⟨p, p', hfirst, hsecond, hagrees⟩ := begin_agrees
      (Fleet.lockstep_keyImage k w.cluster.fleet) h.alike.inStep h.alike.hasRing h.alike.hasRing' hr
      hconcerns
    rw [hfirst, hsecond, hclient]
    exact h.mirrored hagrees
  · obtain rfl := Option.some.inj hk
    have htells : w'.cluster.after = w.cluster.after := by
      funext d
      rw [Cluster.after, Cluster.after, h.alike.env, h.alike.now]
    rw [begin_sweep h.alike.hasRing, begin_sweep h.alike.hasRing', h.alike.ring, htells]
    exact ⟨.sweep (start_mirrors _ _) (not_told_now _ hop), h⟩

/-- **The start of an operation** that is left out. -/
theorem KeyImage.begin_left_out (h : w.KeyImage k w') (hk : op.only k = none) :
    AvoidsKey k (w.begin op) w' := by
  obtain ⟨r, hr, helsewhere⟩ := Op.asks_of_left_out hk
  obtain ⟨p, _, hfirst, -, hagrees⟩ := begin_agrees (Fleet.lockstep_keepsColumn k w.cluster.fleet)
    h.alike.inStep_self h.alike.hasRing h.alike.hasRing hr helsewhere
  rw [hfirst]
  exact h.avoidsKey hagrees

/-! ### Ends -/

/-- **Operations of clients come to their end**, whatever the nodes do. -/
theorem ends_of_asks (hring : w.hasRing = true) (hl : w.loops = #[]) {r : Request}
    (hr : op.asks? = some r) : Ends (w.begin op) := by
  have hwrite : ∀ change key timeout, Ends (w.beginWrite change key timeout) := by
    intro change key timeout
    rw [beginWrite]
    split
    · exact ends_ofWrite hl _ _ _
    · exact ends_answered ..
  rw [begin_of_hasRing hring]
  cases op with
  | put key value timeout => exact hwrite ..
  | delete key timeout => exact hwrite ..
  | get key timeout =>
    rw [beginChecked, beginRead]
    split
    · exact ends_ofRead hl _ _ _ _ fun hne => askHead_ne_none hne _ _
    · exact ends_answered ..
  | clear => exact ends_ofWipe hl _ _ fun hne => askHead_ne_none hne _ _
  | _ => exact absurd hr.symm (Option.some_ne_none r)

/-- Time stands still while a sweep goes on. -/
theorem still_of_reaches {f₀ : Fleet} {r₀ : Ring} {env : Env} {now : Instant}
    {p q : SweepRun × Cluster} (h : SweepRun.Reaches p q)
    (hp : ∃ run' c', p.1.Mirrors k now run' ∧
      Cluster.InStep (Fleet.KeyImage k f₀) r₀ env now p.2 c') :
    ∃ run' c', q.1.Mirrors k now run' ∧ Cluster.InStep (Fleet.KeyImage k f₀) r₀ env now q.2 c' := by
  induction h with
  | refl => exact hp
  | @tail p q _ hstep ih =>
    obtain ⟨run', c', hmirrors, hc⟩ := ih
    obtain ⟨-, rfl⟩ := hstep
    have hstill : max p.2.now (p.1.wake p.2.now) = p.2.now :=
      Nat.max_eq_left (hc.now ▸ sweep_wake_le hmirrors.due)
    have htick : SweepRun.tick p = p.1.step false p.2 := by
      rw [SweepRun.tick, hstill]
    rw [htick]
    obtain ⟨hstays, -, hc'⟩ | ⟨hgoes, hc'⟩ := hmirrors.step hc
    · exact ⟨run', c', hstays, hc'⟩
    · exact ⟨_, _, hgoes, hc'⟩

/-- **Sweeps come to their end** over nodes that are up or down. -/
theorem KeyImage.ends_repair (h : w.KeyImage k w') {cancelAfter : Option Duration}
    (hafter : ∀ d, cancelAfter = some d → 0 < d.nanos) : Ends (w.begin (.repair cancelAfter)) := by
  have hsteady := Cluster.steady_of_switches h.linked.sound h.linked.houses h.alike.left
  have hgo : ∀ p,
      SweepRun.Reaches (⟨.start w.cluster.ring.membership, none⟩, w.cluster) p →
      cancelledBy (cancelAfter.map w.cluster.after) (max p.2.now (p.1.wake p.2.now)) =
        false := by
    intro p hp
    obtain ⟨_, _, hmirrors, hc⟩ := still_of_reaches hp
      ⟨_, _, start_mirrors (k := k) w.cluster.ring.membership w.cluster.now, h.alike.inStep⟩
    have hstill : max p.2.now (p.1.wake p.2.now) = w.cluster.now := by
      rw [hc.now]
      exact Nat.max_eq_left (sweep_wake_le hmirrors.due)
    rw [hstill]
    exact not_told_now _ hafter
  obtain ⟨c', r, hreach, -⟩ :=
    reaches_repair h.alike.hasRing h.alike.loops hsteady cancelAfter hgo
  exact ⟨_, _, _, hreach⟩

/-- **Every operation that remains comes to its end.** -/
theorem KeyImage.ends_kept (h : w.KeyImage k w') (hop : op.OnSwitches) (hk : op.only k = some op') :
    Ends (w.begin op) := by
  obtain ⟨hinstant, -⟩ | ⟨r, hr, -⟩ | ⟨cancelAfter, rfl⟩ := hop.cases
  · obtain ⟨t, x, v, -, hfirst, -⟩ := h.begin_instant hop hinstant hk
    rw [hfirst]
    exact ends_answered t x v
  · exact ends_of_asks h.alike.hasRing h.alike.loops hr
  · exact h.ends_repair hop

/-! ### Operations -/

/-- **An operation that remains** is performed in both worlds, with the same answer if it is no
sweep, and leaves a world and its image. Whatever occurs in one of them on the way has its like in
the other one. -/
theorem KeyImage.perform_kept (h : w.KeyImage k w') (hop : op.OnSwitches)
    (hk : op.only k = some op') :
    (∃ x x' v v', w.Performs op x v ∧ w'.Performs op' x' v' ∧ v.KeyImage k v' ∧
      (op.isSweep = false → x' = x)) ∧
      (∀ u, w.Meets op u → ∃ u', w'.Meets op' u' ∧ u.Alike k u') ∧
      ∀ u', w'.Meets op' u' → ∃ u, w.Meets op u ∧ u.Alike k u' := by
  have hstart := h.begin_kept hop hk
  have hsimulates := mirrors_next k op.isSweep
  obtain ⟨t, x, v, hreach⟩ := h.ends_kept hop hk
  refine ⟨?_, fun u hu => ?_, fun u' hu' => ?_⟩
  · obtain ⟨q, hreach', hend⟩ := hreach.simulate hsimulates hstart
    obtain ⟨x', v', rfl, himage, hsame⟩ := hend.answered
    exact ⟨x, x', v.settled, v'.settled, performs_of_reaches h.alike.loops hreach,
      performs_of_reaches h.alike.loops' hreach', himage.settled, hsame⟩
  · obtain rfl | ⟨a, hmeets⟩ := hu.cases
    · exact ⟨w', ⟨_, .refl⟩, h.alike⟩
    · obtain ⟨⟨a', u'⟩, hmeets', -, himage⟩ := hmeets.simulate hsimulates hstart
      exact ⟨u', meets_of_begin h.alike.loops' hmeets', himage.alike⟩
  · obtain rfl | ⟨a', hmeets'⟩ := hu'.cases
    · exact ⟨w, ⟨_, .refl⟩, h.alike⟩
    · have hend : ∀ q r, Mirrored k op.isSweep (.answered t x, v) q → ¬ Next q r := by
        intro q r hq
        obtain ⟨x', v', rfl, -⟩ := hq.answered
        exact not_next_answered t x' v' r
      obtain ⟨⟨a, u⟩, hmeets, -, himage⟩ :=
        hreach.simulate_back hsimulates hend hstart hmeets'
      exact ⟨u, meets_of_begin h.alike.loops hmeets, himage.alike⟩

/-- **An operation that is left out** leaves the image an image of the world, at all points on the
way as well. -/
theorem KeyImage.perform_left_out (h : w.KeyImage k w') (hk : op.only k = none) :
    (∃ x v, w.Performs op x v ∧ v.KeyImage k w') ∧ ∀ u, w.Meets op u → u.Alike k w' := by
  have hstart := h.begin_left_out hk
  constructor
  · obtain ⟨r, hr, -⟩ := Op.asks_of_left_out hk
    obtain ⟨t, x, v, hreach⟩ := ends_of_asks h.alike.hasRing h.alike.loops hr
    have himage : v.KeyImage k w' := (hstart.reaches hreach).2
    exact ⟨x, v.settled, performs_of_reaches h.alike.loops hreach, himage.settled_left⟩
  · intro u hu
    obtain rfl | ⟨a, hreach⟩ := hu.cases
    · exact h.alike
    · exact (hstart.reaches hreach).2.alike

/-! ### Runs -/

theorem KeyImage.step_kept (h : w.KeyImage k w') (hop : op.OnSwitches) (hk : op.only k = some op') :
    KeyImage k (w.performStep (.single op)).2 (w'.performStep (.single op')).2 := by
  obtain ⟨⟨x, x', v, v', hperforms, hperforms', himage, -⟩, -⟩ := h.perform_kept hop hk
  rw [hperforms.world, hperforms'.world]
  exact himage

theorem KeyImage.step_left_out (h : w.KeyImage k w') (hk : op.only k = none) :
    KeyImage k (w.performStep (.single op)).2 w' := by
  obtain ⟨⟨x, v, hperforms, himage⟩, -⟩ := h.perform_left_out hk
  rw [hperforms.world]
  exact himage

/-- A run, and what remains of it, leave a world and its image. -/
theorem KeyImage.after (h : w.KeyImage k w') {ops : List Op} (hops : ∀ op ∈ ops, op.OnSwitches) :
    ∀ past, past <+: ops → (w.after past).KeyImage k (w'.after (past.filterMap (Op.only k))) := by
  refine run_induction
    (P := fun past v => v.KeyImage k (w'.after (past.filterMap (Op.only k)))) h ?_
  intro past op hpre himage
  have hop := hops op (prefix_of_concat hpre).2
  rw [List.filterMap_append]
  cases hk : op.only k with
  | none =>
    rw [List.filterMap_cons_none hk, List.filterMap_nil, List.append_nil]
    exact himage.step_left_out hk
  | some op' =>
    rw [List.filterMap_cons_some hk, List.filterMap_nil, after_concat]
    exact himage.step_kept hop hk

/-- Seen through a key, an operation in one world is what remains of it in another one. If nothing
remains, the worlds look alike all along. Otherwise both operations are answered, alike if they are
no sweeps, and whatever occurs in one world in the course of the operation has its like in the other
one. -/
def LooksAlike (k : String) (w : World) (op : Op) (w' : World) : Prop :=
  match op.only k with
  | none => ∀ u, w.Meets op u → u.Alike k w'
  | some op' =>
    (∃ x x', w.answerTo op = .one x ∧ w'.answerTo op' = .one x' ∧
      (op.isSweep = false → x' = x)) ∧
    (∀ u, w.Meets op u → ∃ u', w'.Meets op' u' ∧ u.Alike k u') ∧
    ∀ u', w'.Meets op' u' → ∃ u, w.Meets op u ∧ u.Alike k u'

theorem KeyImage.looksAlike (h : w.KeyImage k w') (hop : op.OnSwitches) : w.LooksAlike k op w' := by
  unfold LooksAlike
  split
  · next hk => exact (h.perform_left_out hk).2
  · next op' hk =>
    obtain ⟨⟨x, x', v, v', hperforms, hperforms', -, hsame⟩, hforth, hback⟩ :=
      h.perform_kept hop hk
    exact ⟨⟨x, x', hperforms.result, hperforms'.result, hsame⟩, hforth, hback⟩

/-- **Keys do not interfere.** Nodes are up or down, and operations are performed one after the
other: gets, puts, deletes, clears, sweeps, changes of the membership, and switches of nodes. If the
gets, puts and deletes of all keys but one are left out, and all entries under the other keys are
taken from the stores, then every operation that remains is still answered alike, except for the
counts of sweeps, and every node holds the same under this key: before and after each operation, and
at every point on the way. The hasher may give all keys one position. -/
theorem keys_apart {w : World} (hw : w.Switched) (k : String) {ops : List Op}
    (hops : ∀ op ∈ ops, op.OnSwitches) :
    (∀ past, past <+: ops →
      (w.after past).Alike k ((w.only k).after (past.filterMap (Op.only k)))) ∧
    ∀ past op, past ++ [op] <+: ops →
      (w.after past).LooksAlike k op ((w.only k).after (past.filterMap (Op.only k))) := by
  have himage := (hw.keyImage k).after hops
  constructor
  · intro past hpast
    exact (himage past hpast).alike
  · intro past op hpre
    obtain ⟨hpast, hop⟩ := prefix_of_concat hpre
    exact (himage past hpast).looksAlike (hops op hop)

/-! ### Two keys at one position -/

/-- Three nodes, of which the second one can be switched off. Two keys share a position, and the
first node holds an entry under each of them. -/
def sharingTrio : World where
  cluster :=
    { fleet := ⟨#[
        { id := ⟨10⟩, store := ⟨[("j", "u"), ("k", "v")]⟩ },
        { id := ⟨20⟩, faults := .injected {} }, { id := ⟨30⟩ }]⟩
      ring := ⟨fun _ => 5, { replicaCount := 2, writeQuorum := 2, opTimeout := ⟨1000⟩ },
        ⟨⟨[(⟨10⟩, ⟨⟨10⟩, 0⟩), (⟨20⟩, ⟨⟨20⟩, 1⟩), (⟨30⟩, ⟨⟨30⟩, 2⟩)]⟩, 0⟩⟩ }
  registry := ⟨[(⟨10⟩, ⟨⟨10⟩, 0⟩), (⟨20⟩, ⟨⟨20⟩, 1⟩), (⟨30⟩, ⟨⟨30⟩, 2⟩)]⟩

theorem sharingTrio_switched : sharingTrio.Switched where
  hasRing := rfl
  loops := rfl
  activities := rfl
  linked := .of_registry ⟨by unfold OrderedMap.Sorted; decide, by decide⟩ (by decide) rfl
  switches := by
    have hnodes : sharingTrio.cluster.fleet.nodes = #[
        { id := ⟨10⟩, store := ⟨[("j", "u"), ("k", "v")]⟩ },
        { id := ⟨20⟩, faults := .injected {} }, { id := ⟨30⟩ }] := rfl
    have hboth : OrderedMap.Sorted (⟨[("j", "u"), ("k", "v")]⟩ : Store) := by
      unfold OrderedMap.Sorted
      decide
    intro n hn
    rw [hnodes] at hn
    simp only [List.mem_toArray, List.mem_cons, List.not_mem_nil, or_false] at hn
    obtain rfl | rfl | rfl := hn
    · exact ⟨trivial, hboth⟩
    · exact ⟨⟨rfl, rfl, rfl⟩, List.Pairwise.nil⟩
    · exact ⟨trivial, List.Pairwise.nil⟩

/-- Both keys are written while a replica is down. A sweep follows, a node that holds one of the
keys joins, and another one leaves. -/
def sharingRun : List Op :=
  [.fail ⟨20⟩, .put "k" "w" none, .put "j" "t" none, .recover ⟨20⟩, .delete "j" none, .repair none,
    .add { id := ⟨40⟩, store := ⟨[("j", "s")]⟩ }, .drop ⟨10⟩]

/-- What remains of it for the second key. -/
def sharingRunOnly : List Op :=
  [.fail ⟨20⟩, .put "k" "w" none, .recover ⟨20⟩, .repair none, .add { id := ⟨40⟩ }, .drop ⟨10⟩]

/-- A get of the second key is answered as if there were no first one. -/
theorem keys_apart_sharingTrio :
    sharingTrio.Switched ∧ (∀ op ∈ sharingRun ++ [.get "k" none], op.OnSwitches) ∧
      (sharingTrio.after sharingRun).Alike "k" ((sharingTrio.only "k").after sharingRunOnly) ∧
      ∃ x, (sharingTrio.after sharingRun).answerTo (.get "k" none) = .one x ∧
        ((sharingTrio.only "k").after sharingRunOnly).answerTo (.get "k" none) = .one x := by
  have hops : ∀ op ∈ sharingRun ++ [.get "k" none], op.OnSwitches := by
    intro op hop
    simp only [sharingRun, List.cons_append, List.nil_append, List.mem_cons, List.not_mem_nil,
      or_false] at hop
    have hstore : OrderedMap.Sorted (⟨[("j", "s")]⟩ : Store) := List.pairwise_singleton _ _
    rcases hop with rfl | rfl | rfl | rfl | rfl | rfl | rfl | rfl | rfl
    case inr.inr.inr.inr.inr.inl => exact fun d hd => absurd hd.symm (Option.some_ne_none d)
    case inr.inr.inr.inr.inr.inr.inl => exact ⟨trivial, hstore⟩
    all_goals exact trivial
  have honly : sharingRun.filterMap (Op.only "k") = sharingRunOnly := rfl
  obtain ⟨hworlds, hlooks⟩ := keys_apart sharingTrio_switched "k" hops
  have halike := hworlds sharingRun (List.prefix_append _ _)
  obtain ⟨⟨x, x', hx, hx', hsame⟩, -⟩ := hlooks sharingRun (.get "k" none) List.prefix_rfl
  rw [honly] at halike hx'
  rw [hsame rfl] at hx'
  exact ⟨sharingTrio_switched, hops, halike, x, hx, hx'⟩

end Scenario.World

end ReplicaRing
