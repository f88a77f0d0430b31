import ReplicaRing.Proofs.SoloRun
import ReplicaRing.Proofs.SweepSteps

/-!
# Client operations on plain nodes

Nodes without faults answer at once, so a client operation that runs alone takes no time and its
nodes answer in the order in which they are asked.

* `Fleet.serveAll` — one request to several nodes, one after the other;
* `drain_write`, `drain_read`, `drain_wipe` — how writes, reads and wipes come to their end.
-/

namespace ReplicaRing

/-! ### Nodes that answer at once -/

namespace Fleet

variable {f : Fleet} {h : Handle}

theorem launch_memory (hf : f.Memory) (hh : f.Houses h) (env : Env) (now : Instant)
    (r : Request) : f.launch env now h r = (⟨h, now, .forward⟩, f) := by
  have hbegin : f.begin env h r = (.immediate, f) := by
    rw [begin, (hf.node h).begin_eq]
    exact congrArg (Prod.mk _) (replace_node hh)
  rw [launch, hbegin]
  simp [Fate.immediate]

/-- A read changes nothing. -/
theorem conclude_get (hh : f.Houses h) (key : String) :
    f.conclude h (.get key) .forward = (.ok (f.held h key), f, []) :=
  congrArg (fun f' => (_, f', _)) (replace_node hh)

/-- One request to several nodes, one after the other. -/
def serveAll (r : Request) (hs : List Handle) (f : Fleet) : Fleet :=
  hs.foldl (fun f h => (f.conclude h r .forward).2.1) f

end Fleet

/-- A request that is served by several nodes changes the data of these nodes. The induction is on
the nodes; none of them is served twice. -/
theorem Cluster.Steady.serveAll {down : Finset NodeId} {c c' : Cluster} (hc : c.Steady down)
    (r : Request) (hs : List Handle) (hsub : ∀ x ∈ hs, x ∈ c.ring.membership.handles)
    (hnodup : hs.Nodup) (hring : c'.ring = c.ring) (henv : c'.env = c.env)
    (hfleet : c'.fleet = c.fleet.serveAll r hs) :
    c.Evolves c' ∧ ∀ x ∈ c.ring.membership.handles, ∀ k, c'.fleet.held x k =
      if x ∈ hs then r.effect k (c.fleet.held x k) else c.fleet.held x k := by
  induction hs generalizing c with
  | nil =>
    refine ⟨.of_eq hring henv hfleet, fun x _ k => ?_⟩
    rw [hfleet, if_neg (List.not_mem_nil)]
    rfl
  | cons h hs ih =>
    rw [List.nodup_cons] at hnodup
    have hh := hsub h (List.mem_cons_self ..)
    obtain ⟨hst, hev⟩ := hc.serve hh r rfl
    obtain ⟨hev', hheld⟩ := ih hst (fun x hx => hsub x (List.mem_cons_of_mem _ hx)) hnodup.2
      hring henv hfleet
    refine ⟨hev.trans hev', fun x hx k => ?_⟩
    have hone := Fleet.held_conclude_forward r (hc.houses h hh) (hc.houses x hx) k
    rw [hheld x hx k, hone]
    by_cases hxh : x = h
    · subst hxh
      simp [hnodup.1]
    · simp [hxh]

namespace Scenario.World

variable {w : World}

/-! ### Writes -/

/-- Members that all answer now have applied a write in their order. -/
def acked (r : Write) (ahead : List Handle) : Write :=
  { r with
    flights := []
    outcome := { r.outcome with acked := r.outcome.acked ++ ahead.map (·.id) } }

/-- **A write comes to its end.** The induction is on the members that have not answered yet. -/
theorem drain_write (ahead : List Handle) (hne : ahead ≠ []) (hl : w.loops = #[]) {r : Write}
    (hf : r.flights = ahead.map fun h => ⟨h, w.cluster.now, .forward⟩)
    (hd : w.cluster.now ≤ r.deadline) :
    ∃ c : Cluster, c.ring = w.cluster.ring ∧ c.env = w.cluster.env ∧
      c.fleet = w.cluster.fleet.serveAll (r.change.request r.key) ahead ∧
      (w.alone (.write r true)).drain =
        (alone { w with cluster := (Activity.ofWrite c (acked r ahead) true).2 }
          (Activity.ofWrite c (acked r ahead) true).1).drain := by
  induction ahead generalizing w r with
  | nil => exact absurd rfl hne
  | cons h ahead ih =>
    let r' : Write :=
      { r with
        flights := ahead.map fun h => ⟨h, w.cluster.now, .forward⟩
        outcome := { r.outcome with acked := r.outcome.acked ++ [h.id] } }
    let p := w.cluster.fleet.conclude h (r.change.request r.key) .forward
    let c₁ : Cluster := Cluster.report { w.cluster with fleet := p.2.1 } p.2.2
    have hwake : r.wake = w.cluster.now := by
      rw [Write.wake, hf]
      exact Nat.min_eq_left hd
    have hrun : r.step w.cluster.fleet = (r', p.2.1, p.2.2) := by
      rw [Write.step, hf]
      exact if_pos hd
    have hstep : w.stepActivity (.write r true) = w.started (Activity.ofWrite c₁ r' true) := by
      rw [stepActivity, hrun]
    rw [drain_alone (a := .write r true) hl (congrArg some hwake), advanceTo_now, hstep]
    cases ahead with
    | nil => exact ⟨c₁, rfl, rfl, rfl, rfl⟩
    | cons h' ahead =>
      obtain ⟨c, hring, henv, hfleet, hdrain⟩ := ih (w := { w with cluster := c₁ }) (r := r')
        (List.cons_ne_nil _ _) hl rfl hd
      refine ⟨c, hring, henv, hfleet, hdrain.trans ?_⟩
      have hacked : acked r' (h' :: ahead) = acked r (h :: h' :: ahead) := by
        simp [acked, r']
      rw [hacked]

theorem launchAll_memory {f : Fleet} (hf : f.Memory) (env : Env) (now : Instant) (r : Request)
    (hs : List Handle) (hh : ∀ x ∈ hs, f.Houses x) :
    Write.launchAll env now r hs f = (hs.map fun h => ⟨h, now, .forward⟩, f) := by
  induction hs with
  | nil => rfl
  | cons h hs ih =>
    rw [Write.launchAll, Fleet.launch_memory hf (hh h (List.mem_cons_self ..))]
    simp only [ih fun x hx => hh x (List.mem_cons_of_mem _ hx), List.map_cons]

/-- The requests of a write to nodes without faults are all due at once. -/
theorem start_memory {f : Fleet} (hf : f.Memory) (env : Env) (now : Instant)
    (timeout : Duration) (change : Change) (key : String) (p : Placement)
    (hh : ∀ x ∈ p.members, f.Houses x) :
    Write.start env now timeout change key p f =
      ({ change := change
         key := key
         started := now
         deadline := now + timeout.ticks
         flights := p.members.map fun h => ⟨h, now, .forward⟩
         outcome := { members := p.ids } }, f) := by
  rw [Write.start, launchAll_memory hf env now _ _ hh]
  have hsorted : (p.members.map fun h => (⟨h, now, .forward⟩ : Flight)).mergeSort
      (fun a b => a.due ≤ b.due) = p.members.map fun h => ⟨h, now, .forward⟩ := by
    refine List.mergeSort_of_pairwise (List.pairwise_map.2 ?_)
    exact List.pairwise_of_forall fun _ _ => by simp
  simp only [hsorted]

/-! ### Reads -/

/-- What a read of nodes without faults has found after it has asked some of them. -/
structure Found (o : ReadOutcome) (value : Option String) (asked : Nat) : Prop where
  hit : o.hit.map Prod.snd = value
  timedOut : o.timedOut = false
  answered : value = none → o.answered = asked

theorem Found.settle {o : ReadOutcome} {value : Option String} {asked : Nat}
    (h : Found o value asked) {options : RingOptions} (hq : options.readQuorum ≤ asked)
    (key : String) (t : Duration) : o.settle options key t = .ok value := by
  obtain ⟨hhit, htimed, hanswered⟩ := h
  rw [ReadOutcome.settle]
  cases ho : o.hit with
  | some p =>
    rw [ho] at hhit
    exact congrArg Except.ok hhit
  | none =>
    rw [ho] at hhit
    subst hhit
    have hnot : ¬ o.answered < options.readQuorum := by
      rw [hanswered rfl]
      omega
    simp only [htimed, Bool.false_eq_true, if_false, if_neg hnot]
    rfl

theorem receive_get {c : Cluster} {h : Handle} (hh : c.fleet.Houses h) {t d : Instant}
    (hd : t ≤ d) (key : String) :
    c.receive ⟨⟨h, t, .forward⟩, some d⟩ (.get key) =
      (some (.ok (c.fleet.held h key)), c.report []) := by
  have harr : Inquiry.arrives ⟨⟨h, t, .forward⟩, some d⟩ = true := decide_eq_true hd
  rw [Cluster.receive, if_pos harr, Fleet.conclude_get hh]
  rfl

theorem askHead_memory {c : Cluster} (hf : c.fleet.Memory) (hs : List Handle)
    (hh : ∀ x ∈ hs, c.fleet.Houses x) (r : Request) (expires : Option Instant) :
    c.askHead hs r expires = (hs.head?.map fun h => ⟨⟨h, c.now, .forward⟩, expires⟩, c) := by
  cases hs with
  | nil => rfl
  | cons h hs =>
    rw [Cluster.askHead, Cluster.ask, Fleet.launch_memory hf (hh h (List.mem_cons_self ..))]
    rfl

/-- A read that has asked everybody it asks is answered with what it has found. -/
theorem ofRead_found {c : Cluster} {r : ReadRun} {v : Option String} {n : Nat}
    (hdone : r.read.ahead = []) (hfound : Found r.read.outcome v n)
    (hq : c.ring.options.readQuorum ≤ n) (primary : Option NodeId) :
    ∃ c', c'.ring = c.ring ∧ c'.env = c.env ∧ c'.fleet = c.fleet ∧
      Activity.ofRead c r primary true = (.answered c'.now (.value v), c') := by
  have hdone' : r.read.isDone = true := by rw [Read.isDone, hdone]; rfl
  let c' := (c.report (r.read.outcome.events r.read.key primary)).endOp .get
    r.read.outcome.misses r.started
  have hsettle : r.read.outcome.settle c'.ring.options r.read.key (.ofMillis (c'.now - r.started)) =
      .ok v := hfound.settle hq _ _
  refine ⟨c', rfl, rfl, rfl, ?_⟩
  rw [Activity.ofRead, if_pos hdone', if_pos rfl]
  simp only [c'] at hsettle ⊢
  rw [hsettle]
  rfl

/-- **A read comes to its end.** The induction is on the members that have not been asked yet. -/
theorem drain_read (ahead : List Handle) (hne : ahead ≠ []) (hl : w.loops = #[])
    (hm : w.cluster.fleet.Memory) (hh : ∀ x ∈ ahead, w.cluster.fleet.Houses x) {r : ReadRun}
    {n : Nat} (hahead : r.read.ahead = ahead)
    (hinquiry : r.inquiry =
      ahead.head?.map fun h => ⟨⟨h, w.cluster.now, .forward⟩, some r.deadline⟩)
    (hd : w.cluster.now ≤ r.deadline) (hfound : Found r.read.outcome none n)
    (hq : w.cluster.ring.options.readQuorum ≤ n + ahead.length) (primary : Option NodeId) :
    ∃ (c : Cluster) (t : Instant), c.ring = w.cluster.ring ∧ c.env = w.cluster.env ∧
      c.fleet = w.cluster.fleet ∧
      (w.alone (.read r primary true)).drain = (alone { w with cluster := c }
        (.answered t (.value (ahead.findSome? fun h => w.cluster.fleet.held h r.read.key)))) := by
  induction ahead generalizing w r n with
  | nil => exact absurd rfl hne
  | cons h ahead ih =>
    have hwake : (Activity.read r primary true).wake? w.cluster.now #[] =
        some w.cluster.now := by
      rw [Activity.wake?, hinquiry]
      exact congrArg some (Nat.min_eq_left hd)
    have hrecv := receive_get (hh h (List.mem_cons_self ..)) hd r.read.key
    have hstep : w.stepActivity (.read r primary true) =
        w.started (Activity.ofRead (r.step w.cluster).2 (r.step w.cluster).1 primary true) := rfl
    rw [drain_alone hl hwake, advanceTo_now, hstep, List.findSome?_cons]
    cases hv : w.cluster.fleet.held h r.read.key with
    | some v =>
      rw [hv] at hrecv
      have hrun : r.step w.cluster = ({ r with
          read := r.read.answered h (.ok (some v))
          inquiry := none }, w.cluster.report []) := by
        rw [ReadRun.step, hinquiry]
        simp only [List.head?_cons, Option.map_some, hrecv]
        rfl
      rw [hrun]
      obtain ⟨c, hring, henv, hfleet, hread⟩ := ofRead_found (c := w.cluster.report [])
        (r := { r with read := r.read.answered h (.ok (some v)), inquiry := none })
        (v := some v) rfl ⟨rfl, hfound.timedOut, by simp⟩ hq primary
      rw [hread]
      exact ⟨c, c.now, hring, henv, hfleet, drain_answered _ _ _⟩
    | none =>
      rw [hv] at hrecv
      let r' : ReadRun := { r with
        read := r.read.answered h (.ok none)
        inquiry := ahead.head?.map fun h => ⟨⟨h, w.cluster.now, .forward⟩, some r.deadline⟩ }
      have hahead' : r'.read.ahead = ahead := congrArg List.tail hahead
      have hask : (w.cluster.report []).askHead r'.read.ahead (.get r'.read.key)
          (some r.deadline) = (r'.inquiry, w.cluster.report []) := by
        rw [askHead_memory (c := w.cluster.report []) hm _ fun x hx =>
          hh x (List.mem_cons_of_mem _ (hahead' ▸ hx)), hahead']
        rfl
      have hrun : r.step w.cluster = (r', w.cluster.report []) := by
        rw [ReadRun.step, hinquiry]
        simp only [List.head?_cons, Option.map_some, hrecv]
        exact congrArg (fun p => ({ r' with inquiry := p.1 }, p.2)) hask
      have hfound' : Found r'.read.outcome none (n + 1) :=
        ⟨hfound.hit, hfound.timedOut, fun h => congrArg (· + 1) (hfound.answered h)⟩
      rw [hrun]
      cases ahead with
      | nil =>
        obtain ⟨c, hring, henv, hfleet, hread⟩ := ofRead_found (c := w.cluster.report [])
          hahead' hfound' hq primary
        rw [hread]
        exact ⟨c, c.now, hring, henv, hfleet, drain_answered _ _ _⟩
      | cons h' ahead =>
        have hread : Activity.ofRead (w.cluster.report []) r' primary true =
            (.read r' primary true, w.cluster.report []) := by
          rw [Activity.ofRead, if_neg (by rw [Read.isDone, hahead']; exact Bool.false_ne_true)]
        rw [hread]
        exact ih (w := { w with cluster := w.cluster.report [] }) (List.cons_ne_nil _ _) hl hm
          (fun x hx => hh x (List.mem_cons_of_mem _ hx)) hahead' rfl hd hfound'
          (hq.trans (by rw [List.length_cons, List.length_cons]; omega))

/-! ### Wipes -/

/-- **A wipe comes to its end.** The induction is on the nodes that have not been cleared yet. -/
theorem drain_wipe (ahead : List Handle) (hne : ahead ≠ []) (hl : w.loops = #[])
    (hm : w.cluster.fleet.Memory) (hh : ∀ x ∈ ahead, w.cluster.fleet.Houses x) {r : WipeRun}
    (hahead : r.wipe.ahead = ahead) (herror : r.wipe.firstError = none)
    (hinquiry : r.inquiry = ahead.head?.map fun h => ⟨⟨h, w.cluster.now, .forward⟩, none⟩) :
    ∃ (c : Cluster) (t : Instant), c.ring = w.cluster.ring ∧ c.env = w.cluster.env ∧
      c.fleet = w.cluster.fleet.serveAll .clear ahead ∧
      (w.alone (.wipe r)).drain = (alone { w with cluster := c } (.answered t .done)) := by
  induction ahead generalizing w r with
  | nil => exact absurd rfl hne
  | cons h ahead ih =>
    have hhouse := hh h (List.mem_cons_self ..)
    have hwake : (Activity.wipe r).wake? w.cluster.now #[] = some w.cluster.now := by
      rw [Activity.wake?, hinquiry]
      rfl
    have hstep : w.stepActivity (.wipe r) =
        w.started (Activity.ofWipe (r.step w.cluster).2 (r.step w.cluster).1) := rfl
    let p := w.cluster.fleet.conclude h .clear .forward
    let c₁ : Cluster := (Cluster.report { w.cluster with fleet := p.2.1 } p.2.2).report []
    let r' : WipeRun :=
      ⟨(r.wipe.answered h (.ok ())).1,
        ahead.head?.map fun h => ⟨⟨h, w.cluster.now, .forward⟩, none⟩⟩
    have hahead' : r'.wipe.ahead = ahead := congrArg List.tail hahead
    have hm' : c₁.fleet.Memory := hm.conclude h .clear .forward
    have hh' : ∀ x ∈ ahead, c₁.fleet.Houses x := fun x hx =>
      Fleet.houses_conclude .clear .forward hhouse (hh x (List.mem_cons_of_mem _ hx))
    have hask : c₁.askHead r'.wipe.ahead .clear none = (r'.inquiry, c₁) := by
      rw [askHead_memory hm' _ fun x hx => hh' x (hahead' ▸ hx), hahead']
      rfl
    have hrun : r.step w.cluster = (r', c₁) := by
      rw [WipeRun.step, hinquiry]
      exact congrArg (fun p => ((⟨r'.wipe, p.1⟩ : WipeRun), p.2)) hask
    rw [drain_alone hl hwake, advanceTo_now, hstep, hrun]
    cases ahead with
    | nil =>
      have hwipe : Activity.ofWipe c₁ r' = (.answered c₁.now .done, c₁) := by
        rw [Activity.ofWipe, if_pos (by rw [Wipe.isDone, hahead']; rfl), Wipe.settle,
          show r'.wipe.firstError = none from herror]
        rfl
      rw [hwipe]
      exact ⟨c₁, c₁.now, rfl, rfl, rfl, drain_answered _ _ _⟩
    | cons h' ahead =>
      have hwipe : Activity.ofWipe c₁ r' = (.wipe r', c₁) := by
        rw [Activity.ofWipe, if_neg (by rw [Wipe.isDone, hahead']; exact Bool.false_ne_true)]
      rw [hwipe]
      exact ih (w := { w with cluster := c₁ }) (List.cons_ne_nil _ _) hl hm' hh' hahead' herror rfl

end Scenario.World

end ReplicaRing
