import Mathlib.Logic.Relation
import Mathlib.Data.Finset.Card
import ReplicaRing.Cluster
import ReplicaRing.Proofs.Fleet
import ReplicaRing.Proofs.Placement

/-!
# The steps of a sweep

A sweep that runs alone alternates between boundaries, questions and answers. Where every node
either always answers or always fails, each question has a foreseeable answer.

* `SweepRun.tick` — the clock goes on to the next event, which then happens;
* `SweepRun.Reaches` — some number of such events of an unfinished sweep;
* `Cluster.Steady` — every node of the ring answers always, or is in a given set and fails always;
* `Inquiry.Sure`, `Steady.asks` — what becomes of a question is decided when it is asked;
* `Steady.hears_ok`, `Steady.hears_error` — the answer of a node that answers or fails;
* `Steady.exchange_ok`, `Steady.exchange_error` — a question and its answer.
-/

namespace ReplicaRing

/-! ### Events of a sweep that runs alone -/

namespace SweepRun

/-- The clock goes on to the next event of a sweep, which then happens. -/
def tick (p : SweepRun × Cluster) : SweepRun × Cluster :=
  p.1.step false { p.2 with now := max p.2.now (p.1.wake p.2.now) }

/-- A sweep gets from one state to another before it has finished. -/
def Reaches : SweepRun × Cluster → SweepRun × Cluster → Prop :=
  Relation.ReflTransGen fun p q => p.1.sweep.isFinished = false ∧ tick p = q

theorem Reaches.tick {p q : SweepRun × Cluster} (h : p.1.sweep.isFinished = false)
    (hq : SweepRun.tick p = q) : Reaches p q := .single ⟨h, hq⟩

variable {s : Sweep} {c : Cluster}

theorem tick_boundary (hs : ∀ w, s.stage ≠ .waiting w) :
    tick (⟨s, none⟩, c) =
      (⟨(s.proceed c.ring false).1, none⟩, c.report (s.proceed c.ring false).2) := by
  simp only [tick, step, wake, Nat.max_self]

theorem tick_ask {w : Sweep.Waiting} (hs : s.stage = .waiting w) :
    tick (⟨s, none⟩, c) =
      (⟨s, some ⟨(c.fleet.launch c.env c.now w.target w.request).1,
        some (c.after c.ring.options.opTimeout)⟩⟩,
       { c with fleet := (c.fleet.launch c.env c.now w.target w.request).2 }) := by
  simp only [tick, step, wake, Nat.max_self, hs, Cluster.ask]

theorem tick_answer {w : Sweep.Waiting} {q : Inquiry} {a : Option w.request.Answer} {c' : Cluster}
    (hs : s.stage = .waiting w)
    (h : Cluster.receive { c with now := max c.now q.wake } q w.request = (a, c')) :
    tick (⟨s, some q⟩, c) =
      (⟨(s.resume w (a.getD (.error (.timeout w.target.id)))).1, none⟩,
       c'.report (s.resume w (a.getD (.error (.timeout w.target.id)))).2) := by
  simp only [tick, step, wake, hs, h]

end SweepRun

/-! ### Inquiries whose outcome is decided -/

namespace Inquiry

/-- What becomes of an inquiry is decided: a node of a set leaves it without an answer, and any
other one carries it out in time. -/
structure Sure (down : Finset NodeId) (h : Handle) (q : Inquiry) : Prop where
  target : q.flight.target = h
  answered : h.id ∉ down → q.arrives = true ∧ q.flight.verdict = .forward
  failed : h.id ∈ down → q.arrives = false ∨ ∃ e, q.flight.verdict = .refuse e

end Inquiry

/-! ### Answers on arrival -/

namespace Cluster

variable {c : Cluster} {q : Inquiry}

/-- A reply arrives as it is, but for the order of a listing. -/
theorem arrange_ok {s : Store} (r : Request) {reply : r.Reply} (h : s.Replies r reply) :
    ∃ reply', (c.arrange r (.ok reply)).1 = .ok reply' ∧ s.Replies r reply' := by
  cases r with
  | keys => exact ⟨_, rfl, (c.listing.perm c.listed reply).trans h⟩
  | set key value => exact ⟨reply, rfl, h⟩
  | get key => exact ⟨reply, rfl, h⟩
  | delete key => exact ⟨reply, rfl, h⟩
  | clear => exact ⟨reply, rfl, h⟩

theorem arrange_error (r : Request) (e : NodeError) : c.arrange r (.error e) = (.error e, c) := by
  cases r <;> rfl

/-- Arranging an answer at most counts a listing. -/
theorem arrange_snd (r : Request) (a : r.Answer) :
    ∃ listed, (c.arrange r a).2 = { c with listed := listed } := by
  unfold arrange
  split
  · exact ⟨_, rfl⟩
  · exact ⟨c.listed, rfl⟩

/-- An answer that arrives has been given by the node and is then arranged. -/
theorem receive_of_arrives (h : q.arrives = true) (r : Request) :
    c.receive q r =
      let d := { c with fleet := (c.fleet.conclude q.flight.target r q.flight.verdict).2.1 }
      let a := (c.fleet.conclude q.flight.target r q.flight.verdict).1
      (some (d.arrange r a).1,
        (d.arrange r a).2.report (c.fleet.conclude q.flight.target r q.flight.verdict).2.2) := by
  rw [receive, if_pos h]

theorem receive_of_not_arrives (h : q.arrives = false) (r : Request) :
    c.receive q r = (none, c) := by
  rw [receive, if_neg (by rw [h]; decide)]

/-! ### What a request leaves alone -/

/-- What the events of a sweep leave alone: the ring, and all nodes that are not on it. -/
structure Evolves (c c' : Cluster) : Prop where
  ring : c'.ring = c.ring
  env : c'.env = c.env
  houses : ∀ h, c.fleet.Houses h → c'.fleet.Houses h
  others : ∀ h, c.fleet.Houses h → h ∉ c.ring.membership.handles →
    c'.fleet.node h = c.fleet.node h
  memory : c.fleet.Memory → c'.fleet.Memory

theorem Evolves.refl (c : Cluster) : c.Evolves c :=
  ⟨rfl, rfl, fun _ h => h, fun _ _ _ => rfl, id⟩

theorem Evolves.trans {c c' c'' : Cluster} (h : c.Evolves c') (h' : c'.Evolves c'') :
    c.Evolves c'' where
  ring := h'.ring.trans h.ring
  env := h'.env.trans h.env
  houses x hx := h'.houses x (h.houses x hx)
  others x hx hm := by
    rw [h'.others x (h.houses x hx) (by rwa [h.ring]), h.others x hx hm]
  memory hm := h'.memory (h.memory hm)

/-- A new clock, log or count changes neither ring nor nodes. -/
theorem Evolves.of_eq {c c' : Cluster} (hr : c'.ring = c.ring) (hl : c'.env = c.env)
    (hf : c'.fleet = c.fleet) : c.Evolves c' :=
  ⟨hr, hl, fun _ h => hf ▸ h, fun _ _ _ => by rw [hf], fun h => hf ▸ h⟩

/-- Every node of the ring always answers, unless it is in a set of nodes that always fail. -/
structure Steady (down : Finset NodeId) (c : Cluster) : Prop where
  sound : c.ring.membership.Sound
  houses : ∀ h ∈ c.ring.membership.handles, c.fleet.Houses h
  sorted : ∀ h ∈ c.ring.membership.handles, (c.fleet.node h).store.Sorted
  answering : ∀ h ∈ c.ring.membership.handles, h.id ∉ down →
    (c.fleet.node h).Answering c.env (c.env.timer.wait c.ring.options.opTimeout)
  failing : ∀ h ∈ c.ring.membership.handles, h.id ∈ down →
    (c.fleet.node h).Failing c.env (c.env.timer.wait c.ring.options.opTimeout)

variable {down : Finset NodeId}

theorem Steady.of_eq {c' : Cluster} (hc : c.Steady down) (hr : c'.ring = c.ring)
    (hl : c'.env = c.env) (hf : c'.fleet = c.fleet) : c'.Steady down := by
  obtain ⟨h₁, h₂, h₃, h₄, h₅⟩ := hc
  constructor <;> rw [hr] <;> simpa only [hl, hf]

/-- A steady cluster stays so when a node is replaced by one that answers as much. -/
theorem Steady.replace (hc : c.Steady down) {h : Handle} (hh : h ∈ c.ring.membership.handles)
    {n : Node} (hid : n.id = h.id) (hsorted : n.store.Sorted)
    (ha : h.id ∉ down → n.Answering c.env (c.env.timer.wait c.ring.options.opTimeout))
    (hf : h.id ∈ down → n.Failing c.env (c.env.timer.wait c.ring.options.opTimeout)) :
    Steady down { c with fleet := c.fleet.replace h n } where
  sound := hc.sound
  houses x hx := Fleet.houses_replace hid (hc.houses h hh) (hc.houses x hx)
  sorted x hx := by
    rw [Fleet.node_replace n (hc.houses h hh) (hc.houses x hx)]
    split
    · exact hsorted
    · exact hc.sorted x hx
  answering x hx hd := by
    rw [Fleet.node_replace n (hc.houses h hh) (hc.houses x hx)]
    split
    · next he => exact ha (he ▸ hd)
    · exact hc.answering x hx hd
  failing x hx hd := by
    rw [Fleet.node_replace n (hc.houses h hh) (hc.houses x hx)]
    split
    · next he => exact hf (he ▸ hd)
    · exact hc.failing x hx hd

theorem Steady.evolves_replace (hc : c.Steady down) {h : Handle}
    (hh : h ∈ c.ring.membership.handles) {n : Node} (hid : n.id = h.id)
    (hn : c.fleet.Memory → n.IsMemory) :
    c.Evolves { c with fleet := c.fleet.replace h n } where
  ring := rfl
  env := rfl
  houses x hx := Fleet.houses_replace hid (hc.houses h hh) hx
  others x hx hm := by
    have hne : x ≠ h := fun he => hm (he ▸ hh)
    rw [Fleet.node_replace n (hc.houses h hh) hx, if_neg hne]
  memory hm := hm.replace (hn hm)

/-! ### Questions and answers -/

/-- Asking a node keeps a cluster steady and changes no data. -/
theorem Steady.ask (hc : c.Steady down) {h : Handle} (hh : h ∈ c.ring.membership.handles)
    (r : Request) {c' : Cluster}
    (hc' : c' = { c with fleet := (c.fleet.launch c.env c.now h r).2 }) :
    c'.Steady down ∧ c.Evolves c' ∧
      ∀ x ∈ c.ring.membership.handles, (c'.fleet.node x).store = (c.fleet.node x).store := by
  subst hc'
  have hid : ((c.fleet.node h).begin c.env r).2.id = h.id := by
    rw [Node.begin_id, (hc.houses h hh).node_id]
  refine ⟨?_, ?_, fun x hx => ?_⟩
  · rw [Fleet.launch_snd]
    refine hc.replace hh hid ?_ (fun hd => ?_) (fun hd => ?_)
    · rw [Node.begin_store]
      exact hc.sorted h hh
    · exact (hc.answering h hh hd).begin r
    · exact (hc.failing h hh hd).begin r
  · rw [Fleet.launch_snd]
    refine hc.evolves_replace hh hid fun hm => ?_
    rw [(hm.node h).begin_eq]
    exact hm.node h
  · exact Fleet.store_launch c.env c.now r (hc.houses h hh) (hc.houses x hx)

/-- A request that reaches its node keeps a cluster steady. -/
theorem Steady.serve (hc : c.Steady down) {h : Handle} (hh : h ∈ c.ring.membership.handles)
    (r : Request) {c' : Cluster}
    (hc' : c' = { c with fleet := (c.fleet.conclude h r .forward).2.1 }) :
    c'.Steady down ∧ c.Evolves c' := by
  subst hc'
  have hid : (c.fleet.node h).id = h.id := (hc.houses h hh).node_id
  rw [Fleet.conclude_snd]
  constructor
  · refine hc.replace hh hid ?_ (fun hd => ?_) (fun hd => ?_)
    · exact Store.sorted_serve r (hc.sorted h hh)
    · exact (hc.answering h hh hd).withStore _
    · exact (hc.failing h hh hd).withStore _
  · exact hc.evolves_replace hh hid fun hm => (hm.node h).serve r

/-- The inquiry of a sweep. -/
def inquiry (c : Cluster) (h : Handle) (r : Request) : Inquiry :=
  ⟨(c.fleet.launch c.env c.now h r).1, some (c.after c.ring.options.opTimeout)⟩

theorem inquiry_arrives (c : Cluster) (h : Handle) (r : Request) :
    (c.inquiry h r).arrives =
      decide (((c.fleet.node h).fateAfter c.env [] r).wait c.env.timer ≤
        c.env.timer.wait c.ring.options.opTimeout) := by
  have hdue : (c.inquiry h r).flight.due =
      c.now + ((c.fleet.node h).fateAfter c.env [] r).wait c.env.timer := rfl
  have hexp : (c.inquiry h r).expires = some (c.after c.ring.options.opTimeout) := rfl
  rw [Inquiry.arrives, hexp, hdue]
  simp [Cluster.after, Timer.after]

theorem Steady.inquiry_sure (hc : c.Steady down) {h : Handle}
    (hh : h ∈ c.ring.membership.handles) (r : Request) : (c.inquiry h r).Sure down h where
  target := rfl
  answered hd := by
    rw [inquiry_arrives]
    exact ⟨decide_eq_true ((hc.answering h hh hd).inTime [] r), (hc.answering h hh hd).forward [] r⟩
  failed hd := by
    rw [inquiry_arrives]
    obtain ⟨e, he⟩ | hlate := hc.failing h hh hd [] r
    · exact .inr ⟨e, he⟩
    · exact .inl (decide_eq_false (Nat.not_le.2 hlate))

/-- The inquiry of a sweep that its node carries out in time. -/
theorem receive_forward {h : Handle} {r : Request} (harr : q.arrives = true)
    (hv : q.flight.verdict = .forward) (ht : q.flight.target = h)
    (hp : (c.fleet.node h).phantoms = []) :
    ∃ reply c', c.receive q r = (some (.ok reply), c') ∧
      (c.fleet.node h).store.Replies r reply ∧ c'.ring = c.ring ∧ c'.env = c.env ∧
      c'.fleet = (c.fleet.conclude h r .forward).2.1 := by
  rw [receive_of_arrives harr, hv, ht, Fleet.conclude_forward_fst, hp]
  obtain ⟨reply, hreply, hrep⟩ := arrange_ok
    (c := { c with fleet := (c.fleet.conclude h r .forward).2.1 }) r
    (Store.replies_serve r (c.fleet.node h).store)
  obtain ⟨listed, hlisted⟩ := arrange_snd
    (c := { c with fleet := (c.fleet.conclude h r .forward).2.1 }) r
    (.ok (withPhantoms [] r (Store.serve r (c.fleet.node h).store).1))
  refine ⟨reply, _, Prod.ext (congrArg some hreply) rfl, hrep, ?_, ?_, ?_⟩ <;>
    simp only [report, hlisted]

/-- The inquiry of a sweep that its node refuses. -/
theorem receive_refuse {h : Handle} {r : Request} {e : NodeError} (harr : q.arrives = true)
    (hv : q.flight.verdict = .refuse e) (ht : q.flight.target = h) :
    c.receive q r =
      (some (.error e),
        { c with fleet := (c.fleet.conclude h r (.refuse e)).2.1 }.report []) := by
  rw [receive_of_arrives harr, hv, ht]
  exact congrArg₂ Prod.mk (congrArg (some ·.1) (arrange_error r e))
    (congrArg (report · []) (congrArg Prod.snd (arrange_error r e)))

/-- A question of a sweep. It changes no data, and what becomes of it is decided. -/
theorem Steady.asks (hc : c.Steady down) {s : Sweep} {w : Sweep.Waiting}
    (hs : s.stage = .waiting w) (ht : w.target ∈ c.ring.membership.handles) :
    ∃ q c', SweepRun.tick (⟨s, none⟩, c) = (⟨s, some q⟩, c') ∧ q.Sure down w.target ∧
      c'.Steady down ∧ c.Evolves c' ∧
      ∀ h ∈ c.ring.membership.handles, (c'.fleet.node h).store = (c.fleet.node h).store := by
  obtain ⟨hst, hev, hsame⟩ := hc.ask ht w.request rfl
  exact ⟨c.inquiry w.target w.request, _, SweepRun.tick_ask hs, hc.inquiry_sure ht w.request, hst,
    hev, hsame⟩

/-- **A node that answers.** A question of a sweep is answered from the store, and the data change
as the question says. -/
theorem Steady.hears_ok (hc : c.Steady down) {s : Sweep} {w : Sweep.Waiting}
    (hs : s.stage = .waiting w) (ht : w.target ∈ c.ring.membership.handles)
    (hd : w.target.id ∉ down) (hq : q.Sure down w.target) :
    ∃ reply c', SweepRun.tick (⟨s, some q⟩, c) = (⟨(s.resume w (.ok reply)).1, none⟩, c') ∧
      c'.Steady down ∧ c.Evolves c' ∧ (c.fleet.node w.target).store.Replies w.request reply ∧
      ∀ h ∈ c.ring.membership.handles, ∀ k, c'.fleet.held h k =
        if h = w.target then w.request.effect k (c.fleet.held h k) else c.fleet.held h k := by
  obtain ⟨harr, hverd⟩ := hq.answered hd
  let c₁ : Cluster := { c with now := max c.now q.wake }
  have hst : c₁.Steady down := hc.of_eq rfl rfl rfl
  have hev₁ : c.Evolves c₁ := .of_eq rfl rfl rfl
  obtain ⟨reply, c₂, hrecv, hrep, hring, henv, hfleet⟩ := receive_forward (c := c₁)
    (r := w.request) harr hverd hq.target (hc.answering _ ht hd).plain
  obtain ⟨hst₂, hev₂⟩ := hst.serve ht w.request rfl
  refine ⟨reply, _, SweepRun.tick_answer hs hrecv, hst₂.of_eq hring henv hfleet,
    hev₁.trans (hev₂.trans (.of_eq hring henv hfleet)), hrep, fun h hh k => ?_⟩
  have hconcl := Fleet.held_conclude_forward w.request (hc.houses _ ht) (hc.houses h hh) k
  have hfleet' : c₂.fleet = (c.fleet.conclude w.target w.request .forward).2.1 := hfleet
  rw [← hfleet'] at hconcl
  refine hconcl.trans ?_
  split
  · next he => rw [he]
  · rfl

/-- **A node that fails.** A question of a sweep ends in an error, and no data change. -/
theorem Steady.hears_error (hc : c.Steady down) {s : Sweep} {w : Sweep.Waiting}
    (hs : s.stage = .waiting w) (ht : w.target ∈ c.ring.membership.handles)
    (hd : w.target.id ∈ down) (hq : q.Sure down w.target) :
    ∃ e c', SweepRun.tick (⟨s, some q⟩, c) = (⟨(s.resume w (.error e)).1, none⟩, c') ∧
      c'.Steady down ∧ c.Evolves c' ∧
      ∀ h ∈ c.ring.membership.handles, ∀ k, c'.fleet.held h k = c.fleet.held h k := by
  let c₁ : Cluster := { c with now := max c.now q.wake }
  have hlate : q.arrives = false → ∃ e c',
      SweepRun.tick (⟨s, some q⟩, c) = (⟨(s.resume w (.error e)).1, none⟩, c') ∧
      c'.Steady down ∧ c.Evolves c' ∧
      ∀ h ∈ c.ring.membership.handles, ∀ k, c'.fleet.held h k = c.fleet.held h k := fun harr =>
    ⟨_, _, SweepRun.tick_answer hs (receive_of_not_arrives (c := c₁) harr w.request),
      hc.of_eq rfl rfl rfl, .of_eq rfl rfl rfl, fun _ _ _ => rfl⟩
  cases harr : q.arrives with
  | false => exact hlate harr
  | true =>
    obtain hnot | ⟨e, hverd⟩ := hq.failed hd
    · exact hlate hnot
    · have hsame := Fleet.conclude_refuse (hc.houses _ ht) w.request e
      refine ⟨e, _, SweepRun.tick_answer hs (receive_refuse (c := c₁) harr hverd hq.target),
        hc.of_eq rfl rfl hsame, .of_eq rfl rfl hsame, fun h _ k => ?_⟩
      exact congrArg (Fleet.held · h k) hsame

/-- Question and answer of a node that answers. -/
theorem Steady.exchange_ok (hc : c.Steady down) {s : Sweep} {w : Sweep.Waiting}
    (hs : s.stage = .waiting w) (ht : w.target ∈ c.ring.membership.handles)
    (hd : w.target.id ∉ down) :
    ∃ reply c', SweepRun.Reaches (⟨s, none⟩, c) (⟨(s.resume w (.ok reply)).1, none⟩, c') ∧
      c'.Steady down ∧ c.Evolves c' ∧ (c.fleet.node w.target).store.Replies w.request reply ∧
      ∀ h ∈ c.ring.membership.handles, ∀ k, c'.fleet.held h k =
        if h = w.target then w.request.effect k (c.fleet.held h k) else c.fleet.held h k := by
  have hunf : s.isFinished = false := by simp [Sweep.isFinished, hs]
  obtain ⟨q, c₁, hask, hq, hst, hev, hsame⟩ := hc.asks hs ht
  have hheld : ∀ x ∈ c.ring.membership.handles, ∀ k, c₁.fleet.held x k = c.fleet.held x k :=
    fun x hx k => by rw [Fleet.held, hsame x hx, Fleet.held]
  obtain ⟨reply, c', hhear, hst', hev', hrep, hheld'⟩ :=
    hst.hears_ok hs (hev.ring ▸ ht) hd hq
  have hfirst := SweepRun.Reaches.tick (p := (⟨s, none⟩, c)) hunf hask
  refine ⟨reply, c', hfirst.trans (SweepRun.Reaches.tick hunf hhear), hst', hev.trans hev',
    hsame _ ht ▸ hrep, fun h hh k => ?_⟩
  rw [hheld' h (hev.ring ▸ hh) k, hheld h hh k]

/-- Question and answer of a node that fails. -/
theorem Steady.exchange_error (hc : c.Steady down) {s : Sweep} {w : Sweep.Waiting}
    (hs : s.stage = .waiting w) (ht : w.target ∈ c.ring.membership.handles)
    (hd : w.target.id ∈ down) :
    ∃ e c', SweepRun.Reaches (⟨s, none⟩, c) (⟨(s.resume w (.error e)).1, none⟩, c') ∧
      c'.Steady down ∧ c.Evolves c' ∧
      ∀ h ∈ c.ring.membership.handles, ∀ k, c'.fleet.held h k = c.fleet.held h k := by
  have hunf : s.isFinished = false := by simp [Sweep.isFinished, hs]
  obtain ⟨q, c₁, hask, hq, hst, hev, hsame⟩ := hc.asks hs ht
  obtain ⟨e, c', hhear, hst', hev', hheld'⟩ := hst.hears_error hs (hev.ring ▸ ht) hd hq
  have hfirst := SweepRun.Reaches.tick (p := (⟨s, none⟩, c)) hunf hask
  refine ⟨e, c', hfirst.trans (SweepRun.Reaches.tick hunf hhear), hst', hev.trans hev',
    fun h hh k => ?_⟩
  rw [hheld' h (hev.ring ▸ hh) k, Fleet.held, hsame h hh, Fleet.held]

end Cluster

end ReplicaRing
