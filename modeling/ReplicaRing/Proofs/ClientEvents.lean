import ReplicaRing.Proofs.Exchanges
import ReplicaRing.Proofs.RaceEvents

/-!
# Events of client operations among faults

What the next event of a write, a read or a wipe does, whatever the nodes answer. The three lemmas
say all there is, so that nothing behind them has to look into the operations again.

* `Write.Goes`, `Write.goes` — an answer of a replica, or the deadline;
* `ReadRun.Goes`, `ReadRun.goes` — an answer and the next question, or the deadline;
* `WipeRun.Goes`, `WipeRun.goes` — an answer and the next question.
-/

namespace ReplicaRing

variable {on : Operation → Prop} {f f' : Fleet} {c : Cluster}

/-! ### Writes -/

namespace Write

/-- The request of a write. -/
def request (run : Write) : Request := run.change.request run.key

/-- The next event of a write. -/
inductive Goes (on : Operation → Prop) (f f' : Fleet) (run : Write) : Write → Prop
  | rests (done : run.flights = []) (still : f' = f) : Goes on f f' run run
  | hears (q : Flight) (flights : List Flight) (answer : run.request.Answer)
      (first : run.flights = q :: flights) (intime : q.due ≤ run.deadline)
      (ends : f.Ends on f' q.target run.request (some answer)) :
      Goes on f f' run
        { run with flights := flights, outcome := run.outcome.record q.target.id answer }
  | expires (still : f' = f) : Goes on f f' run { run with flights := [] }

/-- **The next event of a write.** -/
theorem goes (hf : f.Candid on) {run : Write} (hrun : ∀ q ∈ run.flights, q.Fair on f run.request) :
    run.Goes on f (run.step f).2.1 (run.step f).1 := by
  cases hq : run.flights with
  | nil =>
    have hstep : run.step f = (run, f, []) := by rw [step, hq]
    rw [hstep]
    exact .rests hq rfl
  | cons q flights =>
    by_cases hdue : q.due ≤ run.deadline
    · have hends := f.conclude_ends hf (hrun q (hq ▸ List.mem_cons_self ..))
      have hstep : run.step f =
          ({ run with
             flights := flights
             outcome := run.outcome.record q.target.id
               (f.conclude q.target run.request q.verdict).1 },
            (f.conclude q.target run.request q.verdict).2) := by
        simp only [step, hq, hdue, if_true, request]
      rw [hstep]
      exact .hears q flights _ hq hdue hends
    · have hstep : run.step f = ({ run with flights := [] }, f, []) := step_late hq hdue f
      rw [hstep]
      exact .expires rfl

variable {run run' : Write}

theorem Goes.serving (h : run.Goes on f f' run') :
    ∃ served, f.ServesAtMost on f' served ∧ ∀ x r, served = some (x, r) → r = run.request := by
  have hnone : ∀ (x : Handle) (r : Request), none = some (x, r) → r = run.request :=
    fun x r he => absurd he.symm (Option.some_ne_none _)
  cases h with
  | rests done still => exact ⟨none, still ▸ .refl _, hnone⟩
  | hears q flights answer first intime ends =>
    obtain ⟨served, hserving, hserved⟩ := ends.serving
    exact ⟨served, hserving, fun x r he => (hserved x r he).2⟩
  | expires still => exact ⟨none, still ▸ .refl _, hnone⟩

theorem Goes.change_eq (h : run.Goes on f f' run') : run'.change = run.change := by
  cases h <;> rfl

theorem Goes.key_eq (h : run.Goes on f f' run') : run'.key = run.key := by
  cases h <;> rfl

theorem Goes.request_eq (h : run.Goes on f f' run') : run'.request = run.request := by
  rw [request, h.change_eq, h.key_eq, request]

/-- The requests that a write still waits for are among those before. -/
theorem Goes.flights_subset (h : run.Goes on f f' run') : ∀ q ∈ run'.flights, q ∈ run.flights := by
  cases h with
  | rests done still => exact fun q hq => hq
  | hears q flights answer first intime ends =>
    exact fun q hq => first ▸ List.mem_cons_of_mem _ hq
  | expires still => exact fun q hq => absurd hq List.not_mem_nil

end Write

/-! ### Reads -/

namespace ReadRun

/-- What a read makes of an answer, or of none before the deadline. -/
def hear (run : ReadRun) (member : Handle) (answer? : Option (Request.get run.read.key).Answer) :
    Read :=
  match answer? with
  | some answer => run.read.answered member answer
  | none => run.read.expired

/-- The next event of a read that waits for a node. -/
theorem step_read {run : ReadRun} {q : Inquiry} (hq : run.inquiry = some q) (c : Cluster) :
    (run.step c).1.read = run.hear q.flight.target (c.receive q (.get run.read.key)).1 := by
  simp only [step, hq]
  rfl

theorem hear_key (run : ReadRun) (member : Handle)
    (answer? : Option (Request.get run.read.key).Answer) :
    (run.hear member answer?).key = run.read.key := by
  cases answer? with
  | none => rfl
  | some answer =>
    cases answer with
    | error e => rfl
    | ok found => cases found <;> rfl

/-- Only nodes that were still to be asked are still to be asked. -/
theorem hear_ahead (run : ReadRun) (member : Handle)
    (answer? : Option (Request.get run.read.key).Answer) :
    ∀ x ∈ (run.hear member answer?).ahead, x ∈ run.read.ahead := by
  cases answer? with
  | none => exact fun x hx => absurd hx List.not_mem_nil
  | some answer =>
    cases answer with
    | error e => exact fun x hx => List.mem_of_mem_tail hx
    | ok found =>
      cases found with
      | none => exact fun x hx => List.mem_of_mem_tail hx
      | some value => exact fun x hx => absurd hx List.not_mem_nil

/-- The next event of a read. -/
inductive Goes (on : Operation → Prop) (f f' : Fleet) (run : ReadRun) : ReadRun → Prop
  | rests (idle : run.inquiry = none) (still : f' = f) : Goes on f f' run run
  | hears (q : Inquiry) (answer? : Option (Request.get run.read.key).Answer)
      (q? : Option Inquiry) (asked : run.inquiry = some q)
      (ends : f.Ends on f' q.flight.target (.get run.read.key) answer?)
      (asks : Cluster.AsksHead on f' (run.hear q.flight.target answer?).ahead
        (.get run.read.key) q?) :
      Goes on f f' run { run with read := run.hear q.flight.target answer?, inquiry := q? }

/-- **The next event of a read.** -/
theorem goes (hf : c.fleet.Candid on) {run : ReadRun}
    (hrun : Cluster.AsksHead on c.fleet run.read.ahead (.get run.read.key) run.inquiry) :
    run.Goes on c.fleet (run.step c).2.fleet (run.step c).1 ∧ (run.step c).2.ring = c.ring := by
  cases hq : run.inquiry with
  | none =>
    have hstep : run.step c = (run, c) := by rw [step, hq]
    rw [hstep]
    exact ⟨.rests hq rfl, rfl⟩
  | some q =>
    obtain ⟨hends, hring⟩ := Cluster.receive_ends hf (hrun.fair q hq)
    let answer? := (c.receive q (.get run.read.key)).1
    let c₁ := (c.receive q (.get run.read.key)).2
    obtain ⟨served, hserving, -⟩ := hends.serving
    have hahead : ∀ x ∈ (run.hear q.flight.target answer?).ahead, c₁.fleet.Houses x :=
      fun x hx => hserving.houses x (hrun.houses x (hear_ahead _ _ _ x hx))
    obtain ⟨hasks, hserving', hring'⟩ := Cluster.askHead_servesAtMost (hserving.candid hf) hahead
      (.get (run.hear q.flight.target answer?).key) (some run.deadline)
    have hstep : run.step c =
        ({ run with
           read := run.hear q.flight.target answer?
           inquiry := (c₁.askHead (run.hear q.flight.target answer?).ahead
             (.get (run.hear q.flight.target answer?).key) (some run.deadline)).1 },
          (c₁.askHead (run.hear q.flight.target answer?).ahead
            (.get (run.hear q.flight.target answer?).key) (some run.deadline)).2) := by
      simp only [step, hq]
      rfl
    rw [hstep]
    refine ⟨.hears q answer? _ hq (hends.trans_still hserving') ?_, hring'.trans hring⟩
    rw [hear_key] at hasks ⊢
    exact hasks

variable {run run' : ReadRun}

theorem Goes.serving (h : run.Goes on f f' run') :
    ∃ served, f.ServesAtMost on f' served ∧
      ∀ x r, served = some (x, r) → r = .get run.read.key := by
  cases h with
  | rests idle still =>
    exact ⟨none, still ▸ .refl _, fun x r he => absurd he.symm (Option.some_ne_none _)⟩
  | hears q answer? q? asked ends asks =>
    obtain ⟨served, hserving, hserved⟩ := ends.serving
    exact ⟨served, hserving, fun x r he => (hserved x r he).2⟩

theorem Goes.key_eq (h : run.Goes on f f' run') : run'.read.key = run.read.key := by
  cases h with
  | rests idle still => rfl
  | hears q answer? q? asked ends asks => exact hear_key run _ answer?

theorem Goes.asksHead (h : run.Goes on f f' run')
    (hrun : Cluster.AsksHead on f run.read.ahead (.get run.read.key) run.inquiry) :
    Cluster.AsksHead on f' run'.read.ahead (.get run'.read.key) run'.inquiry := by
  rw [h.key_eq]
  cases h with
  | rests idle still => exact still ▸ hrun
  | hears q answer? q? asked ends asks => exact asks

end ReadRun

/-! ### Wipes -/

namespace WipeRun

/-- The next event of a wipe. -/
inductive Goes (on : Operation → Prop) (f f' : Fleet) (run : WipeRun) : WipeRun → Prop
  | rests (idle : run.inquiry = none) (still : f' = f) : Goes on f f' run run
  | hears (q : Inquiry) (wipe : Wipe) (q? : Option Inquiry) (asked : run.inquiry = some q)
      (serving : ∃ served, f.ServesAtMost on f' served ∧ ∀ x r, served = some (x, r) → r = .clear)
      (asks : Cluster.AsksHead on f' wipe.ahead .clear q?) : Goes on f f' run ⟨wipe, q?⟩

/-- **The next event of a wipe.** -/
theorem goes (hf : c.fleet.Candid on) {run : WipeRun}
    (hrun : Cluster.AsksHead on c.fleet run.wipe.ahead .clear run.inquiry) :
    run.Goes on c.fleet (run.step c).2.fleet (run.step c).1 ∧ (run.step c).2.ring = c.ring := by
  cases hq : run.inquiry with
  | none =>
    have hstep : run.step c = (run, c) := by rw [step, hq]
    rw [hstep]
    exact ⟨.rests hq rfl, rfl⟩
  | some q =>
    obtain ⟨hends, hring⟩ := Cluster.receive_ends hf (hrun.fair q hq)
    let c₁ := (c.receive q .clear).2
    let p := run.wipe.answered q.flight.target
      ((c.receive q .clear).1.getD (.error (.timeout q.flight.target.id)))
    obtain ⟨served, hserving, hserved⟩ := hends.serving
    have hsub : ∀ x ∈ p.1.ahead, x ∈ run.wipe.ahead := by
      simp only [p]
      generalize (c.receive q .clear).1.getD _ = answer
      cases answer <;> exact fun x hx => List.mem_of_mem_tail hx
    have hahead : ∀ x ∈ p.1.ahead, (c₁.report p.2).fleet.Houses x := fun x hx =>
      hserving.houses x (hrun.houses x (hsub x hx))
    obtain ⟨hasks, hserving', hring'⟩ :=
      Cluster.askHead_servesAtMost (c := c₁.report p.2) (hserving.candid hf) hahead .clear none
    have hstep : run.step c =
        (⟨p.1, ((c₁.report p.2).askHead p.1.ahead .clear none).1⟩,
          ((c₁.report p.2).askHead p.1.ahead .clear none).2) := by
      simp only [step, hq, p, c₁]
    rw [hstep]
    exact ⟨.hears q p.1 _ hq
        ⟨served, hserving.trans_still hserving', fun x r he => (hserved x r he).2⟩
      hasks, hring'.trans hring⟩

variable {run run' : WipeRun}

theorem Goes.serving (h : run.Goes on f f' run') :
    ∃ served, f.ServesAtMost on f' served ∧ ∀ x r, served = some (x, r) → r = .clear := by
  cases h with
  | rests idle still =>
    exact ⟨none, still ▸ .refl _, fun x r he => absurd he.symm (Option.some_ne_none _)⟩
  | hears q wipe q? asked serving asks => exact serving

theorem Goes.asksHead (h : run.Goes on f f' run')
    (hrun : Cluster.AsksHead on f run.wipe.ahead .clear run.inquiry) :
    Cluster.AsksHead on f' run'.wipe.ahead .clear run'.inquiry := by
  cases h with
  | rests idle still => exact still ▸ hrun
  | hears q wipe q? asked serving asks => exact asks

end WipeRun

end ReplicaRing
