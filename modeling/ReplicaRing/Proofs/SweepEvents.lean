import ReplicaRing.Proofs.Exchanges
import ReplicaRing.Proofs.RaceEvents

/-!
# Events of a sweep among faults

What the next event of a sweep does, whatever the nodes answer and whoever else is at work.

* `Sweep.handles` — the nodes that a sweep refers to; it takes up new ones only from the ring;
* `Sweep.Proceeds`, `proceed_proceeds` — what a sweep does at a boundary;
* `SweepRun.Fair` — a sweep whose nodes exist and whose request, if it waits for one, is fair;
* `SweepRun.Goes` — the three kinds of events: a question, an answer and a boundary;
* `SweepRun.Fair.goes` — there are no others;
* `SweepRun.failing?` — the node whose answer is a failure.
-/

namespace ReplicaRing

/-! ### The nodes of a sweep -/

/-- The nodes that a stage refers to. -/
def Sweep.Stage.handles : Sweep.Stage → List Handle
  | .betweenNodes => []
  | .betweenKeys source _ => [source]
  | .waiting (.listing source) => [source]
  | .waiting (.checking job member) => member :: job.source :: job.ahead
  | .waiting (.fetching job member) => member :: job.source :: job.ahead
  | .waiting (.copying job member _) => member :: job.source :: job.ahead
  | .finished => []

/-- The nodes that a sweep refers to. -/
def Sweep.handles (s : Sweep) : List Handle := s.sources ++ s.stage.handles

namespace Sweep

variable {r : Ring} {s : Sweep} {w : Waiting} {h : Handle}

theorem Waiting.target_mem_handles (w : Waiting) : w.target ∈ (Stage.waiting w).handles := by
  cases w with
  | listing source => exact List.mem_singleton_self _
  | checking job member => exact List.mem_cons_self ..
  | fetching job member => exact List.mem_cons_of_mem _ (List.mem_cons_self ..)
  | copying job member value => exact List.mem_cons_self ..

/-- A replica that has been found to lack a key is one that the sweep refers to. -/
theorem Stage.mem_handles_of_lacks {stage : Stage} {k : String} (hl : stage.lacks? k = some h) :
    h ∈ stage.handles := by
  cases stage with
  | waiting w =>
    cases w with
    | fetching job member =>
      rw [Stage.lacks?] at hl
      split at hl
      · obtain rfl := Option.some.inj hl
        exact List.mem_cons_self ..
      · exact nomatch hl
    | copying job member value =>
      rw [Stage.lacks?] at hl
      split at hl
      · obtain rfl := Option.some.inj hl
        exact List.mem_cons_self ..
      · exact nomatch hl
    | _ => exact nomatch hl
  | _ => exact nomatch hl

theorem mem_handles_next {job : KeyRepair} (hh : h ∈ job.next.handles) :
    h ∈ job.source :: job.ahead := by
  rcases job.next_cases with hn | ⟨x, rest, hsub, hn⟩
  · rw [hn] at hh
    obtain rfl := List.mem_singleton.1 hh
    exact List.mem_cons_self ..
  · rw [hn] at hh
    rcases List.mem_cons.1 hh with rfl | hh
    · exact List.mem_cons_of_mem _ (hsub _ (List.mem_cons_self ..))
    · rcases List.mem_cons.1 hh with rfl | hh
      · exact List.mem_cons_self ..
      · exact List.mem_cons_of_mem _ (hsub _ (List.mem_cons_of_mem _ hh))

/-- What a sweep does at a boundary. -/
inductive Proceeds (r : Ring) (cancelled : Bool) (s : Sweep) : Sweep → Prop
  | rests (finished : s.stage = .finished) : Proceeds r cancelled s s
  | ends (between : s.stage = .betweenNodes) (last : s.sources = []) :
      Proceeds r cancelled s { s with stage := .finished }
  | cancels (told : cancelled = true) (between : ∀ w, s.stage ≠ .waiting w) :
      Proceeds r cancelled s s.cancel
  | visits (source : Handle) (rest : List Handle) (between : s.stage = .betweenNodes)
      (next : s.sources = source :: rest) (member : r.membership.contains source.id = true) :
      Proceeds r cancelled s { s with sources := rest, stage := .waiting (.listing source) }
  | skips (source : Handle) (rest : List Handle) (between : s.stage = .betweenNodes)
      (next : s.sources = source :: rest) (gone : r.membership.contains source.id = false) :
      Proceeds r cancelled s { s with sources := rest }
  | leaves (source : Handle) (between : s.stage = .betweenKeys source []) :
      Proceeds r cancelled s { s with stage := .betweenNodes }
  | repairs (source : Handle) (key : String) (keys : List String)
      (between : s.stage = .betweenKeys source (key :: keys)) :
      Proceeds r cancelled s (s.repair r source key keys).1

/-- **Boundaries.** There are no other ways to pass one. -/
theorem proceed_proceeds (r : Ring) (cancelled : Bool) (hw : ∀ w, s.stage ≠ .waiting w) :
    s.Proceeds r cancelled (s.proceed r cancelled).1 := by
  cases hst : s.stage with
  | betweenNodes =>
    cases hsrc : s.sources with
    | nil =>
      simp only [Sweep.proceed, hst, hsrc]
      exact hsrc ▸ .ends hst hsrc
    | cons source rest =>
      cases cancelled with
      | true =>
        simp only [Sweep.proceed, hst, hsrc, if_true]
        exact .cancels rfl hw
      | false =>
        simp only [Sweep.proceed, hst, hsrc, Bool.false_eq_true, if_false, visit]
        split
        · next hmem => exact .visits source rest hst hsrc hmem
        · next hmem => exact hst ▸ .skips source rest hst hsrc (Bool.eq_false_iff.2 hmem)
  | betweenKeys source keys =>
    cases keys with
    | nil =>
      simp only [Sweep.proceed, hst]
      exact .leaves source hst
    | cons key keys =>
      cases cancelled with
      | true =>
        simp only [Sweep.proceed, hst, if_true]
        exact .cancels rfl hw
      | false =>
        simp only [Sweep.proceed, hst, Bool.false_eq_true, if_false]
        exact .repairs source key keys hst
  | waiting w => exact absurd hst (hw w)
  | finished =>
    simp only [Sweep.proceed, hst]
    exact .rests hst

theorem Proceeds.not_waiting {cancelled : Bool} {s' : Sweep} (h : s.Proceeds r cancelled s')
    (w : Waiting) : s.stage ≠ .waiting w := by
  intro hw
  cases h with
  | cancels told between => exact between w hw
  | rests between | ends between _ | visits _ _ between _ _ | skips _ _ between _ _
  | leaves _ between | repairs _ _ _ between => exact nomatch between.symm.trans hw

/-- A sweep at a boundary takes up no nodes but those of the ring. -/
theorem mem_handles_proceed (hr : r.membership.Sound) {cancelled : Bool} {s' : Sweep}
    (hs : s.Proceeds r cancelled s') (hh : h ∈ s'.handles) :
    h ∈ s.handles ∨ h ∈ r.membership.handles := by
  have hsources : h ∈ s.sources → h ∈ s.handles := fun hm => List.mem_append_left _ hm
  cases hs with
  | rests finished => exact .inl hh
  | ends between last => exact .inl (hsources (by simpa [handles, Stage.handles] using hh))
  | cancels told between =>
    exact .inl (hsources (by simpa [handles, cancel, Stage.handles] using hh))
  | visits source rest between next member =>
    rw [next] at hsources
    rcases List.mem_append.1 hh with hh | hh
    · exact .inl (hsources (List.mem_cons_of_mem _ hh))
    · obtain rfl := List.mem_singleton.1 hh
      exact .inl (hsources (List.mem_cons_self ..))
  | skips source rest between next gone =>
    rw [next] at hsources
    have hh' : h ∈ rest := by simpa [handles, between, Stage.handles] using hh
    exact .inl (hsources (List.mem_cons_of_mem _ hh'))
  | leaves source between =>
    exact .inl (hsources (by simpa [handles, Stage.handles] using hh))
  | repairs source key keys between =>
    rcases List.mem_append.1 hh with hh | hh
    · exact .inl (hsources hh)
    · rcases List.mem_cons.1 (mem_handles_next hh) with rfl | hh
      · exact .inl (by simp [handles, between, Stage.handles])
      · exact .inr (hr.placement_subset hh)

/-- Whatever a node answers, a sweep takes up no other nodes. -/
theorem mem_handles_resume (hw : s.stage = .waiting w) {answer : w.request.Answer}
    (hh : h ∈ (s.resume w answer).1.handles) : h ∈ s.handles := by
  have hsub : ∀ stage : Stage, (∀ x ∈ stage.handles, x ∈ (Stage.waiting w).handles) →
      h ∈ s.sources ++ stage.handles → h ∈ s.handles := by
    intro stage hstage hmem
    rw [handles, hw]
    rcases List.mem_append.1 hmem with hmem | hmem
    · exact List.mem_append_left _ hmem
    · exact List.mem_append_right _ (hstage h hmem)
  cases w with
  | listing source =>
    cases answer with
    | ok keys => exact hsub _ (fun _ hx => hx) hh
    | error e => exact hsub _ (fun _ hx => absurd hx List.not_mem_nil) hh
  | checking job member =>
    have hnext : ∀ x ∈ job.next.handles, x ∈ (Stage.waiting (.checking job member)).handles :=
      fun x hx => List.mem_cons_of_mem _ (mem_handles_next hx)
    cases answer with
    | ok found =>
      cases found with
      | some value => exact hsub _ hnext hh
      | none =>
        cases hv : job.value with
        | some value =>
          simp only [resume, hv] at hh
          exact hsub _ (fun _ hx => hx) hh
        | none =>
          simp only [resume, hv] at hh
          exact hsub _ (fun _ hx => hx) hh
    | error e => exact hsub _ hnext hh
  | fetching job member =>
    have hsource : ∀ x ∈ (Stage.betweenKeys job.source job.keys).handles,
        x ∈ (Stage.waiting (.fetching job member)).handles := by
      intro x hx
      obtain rfl := List.mem_singleton.1 hx
      exact List.mem_cons_of_mem _ (List.mem_cons_self ..)
    cases answer with
    | ok found =>
      cases found with
      | some value => exact hsub _ (fun _ hx => hx) hh
      | none => exact hsub _ hsource hh
    | error e => exact hsub _ hsource hh
  | copying job member value =>
    have hnext : ∀ x ∈ job.next.handles,
        x ∈ (Stage.waiting (.copying job member value)).handles :=
      fun x hx => List.mem_cons_of_mem _ (mem_handles_next hx)
    cases answer with
    | ok reply => exact hsub _ hnext hh
    | error e => exact hsub _ hnext hh

end Sweep

/-! ### Events -/

namespace SweepRun

variable {on : Operation → Prop} {c : Cluster} {run : SweepRun}

/-- The nodes of a sweep exist, and the request that it waits for is fair. -/
structure Fair (on : Operation → Prop) (f : Fleet) (run : SweepRun) : Prop where
  houses : ∀ h ∈ run.sweep.handles, f.Houses h
  asked : ∀ w q, run.sweep.stage = .waiting w → run.inquiry = some q →
    q.flight.target = w.target ∧ q.flight.verdict.Candid on w.request

theorem Fair.mono {f f' : Fleet} (h : run.Fair on f) (hh : ∀ x, f.Houses x → f'.Houses x) :
    run.Fair on f' := ⟨fun x hx => hh x (h.houses x hx), h.asked⟩

/-- The node that a sweep waits for exists. -/
theorem Fair.target {f : Fleet} (h : run.Fair on f) {w : Sweep.Waiting}
    (hw : run.sweep.stage = .waiting w) : f.Houses w.target := by
  refine h.houses _ (List.mem_append_right _ ?_)
  rw [hw]
  exact w.target_mem_handles

/-- The answer that a waiting sweep goes on with: none in time counts as a timeout. -/
def heard (w : Sweep.Waiting) (answer? : Option w.request.Answer) : w.request.Answer :=
  answer?.getD (.error (.timeout w.target.id))

/-- The next event of a sweep. -/
inductive Goes (on : Operation → Prop) (c : Cluster) (f' : Fleet) (cancelled : Bool)
    (run : SweepRun) : SweepRun → Prop
  | asks (w : Sweep.Waiting) (q : Inquiry) (waits : run.sweep.stage = .waiting w)
      (idle : run.inquiry = none) (serving : c.fleet.ServesAtMost on f' none) :
      Goes on c f' cancelled run { run with inquiry := some q }
  | hears (w : Sweep.Waiting) (q : Inquiry) (answer? : Option w.request.Answer)
      (waits : run.sweep.stage = .waiting w) (asked : run.inquiry = some q)
      (arrives : (c.receive q w.request).1 = answer?)
      (ends : c.fleet.Ends on f' w.target w.request answer?) :
      Goes on c f' cancelled run ⟨(run.sweep.resume w (heard w answer?)).1, none⟩
  | passes (s : Sweep) (proceeds : run.sweep.Proceeds c.ring cancelled s)
      (still : f' = c.fleet) : Goes on c f' cancelled run ⟨s, none⟩

/-- **The next event of a sweep.** It is a question, an answer or a boundary, and the ring stays as
it is. -/
theorem Fair.goes (hf : c.fleet.Candid on) (hr : c.ring.membership.Sound)
    (hhouses : ∀ h ∈ c.ring.membership.handles, c.fleet.Houses h) (h : run.Fair on c.fleet)
    (cancelled : Bool) :
    run.Goes on c (run.step cancelled c).2.fleet cancelled (run.step cancelled c).1 ∧
      (run.step cancelled c).1.Fair on (run.step cancelled c).2.fleet ∧
      (run.step cancelled c).2.ring = c.ring := by
  by_cases hw : ∃ w, run.sweep.stage = .waiting w
  · obtain ⟨w, hw⟩ := hw
    have htarget := h.target hw
    cases hq : run.inquiry with
    | none =>
      let expires := some (c.after c.ring.options.opTimeout)
      obtain ⟨ht, hfair, hserving, hring⟩ := Cluster.ask_servesAtMost hf htarget w.request expires
      have hstep : run.step cancelled c =
          ({ run with inquiry := some (c.ask w.target w.request expires).1 },
            (c.ask w.target w.request expires).2) := by
        simp only [step, hw, hq, expires]
      rw [hstep]
      refine ⟨.asks w _ hw hq hserving, ⟨(h.mono hserving.houses).houses, fun w' q hw' hq' => ?_⟩,
        hring⟩
      obtain rfl : w = w' := Sweep.Stage.waiting.inj (hw.symm.trans hw')
      obtain rfl := Option.some.inj hq'
      exact ⟨ht, hfair.candid⟩
    | some q =>
      obtain ⟨ht, hcandid⟩ := h.asked w q hw hq
      obtain ⟨hends, hring⟩ := Cluster.receive_ends (r := w.request) hf
        (q := q) ⟨ht ▸ htarget, hcandid⟩
      rw [ht] at hends
      have hstep : run.step cancelled c =
          (⟨(run.sweep.resume w (heard w (c.receive q w.request).1)).1, none⟩,
            (c.receive q w.request).2.report
              (run.sweep.resume w (heard w (c.receive q w.request).1)).2) := by
        simp only [step, hw, hq, heard]
      rw [hstep]
      obtain ⟨served, hserving, -⟩ := hends.serving
      refine ⟨.hears w q _ hw hq rfl hends, ⟨fun x hx => ?_, fun _ _ _ hq' =>
        absurd hq'.symm (Option.some_ne_none _)⟩, hring⟩
      exact hserving.houses x (h.houses x (Sweep.mem_handles_resume hw hx))
  · have hboundary := not_exists.1 hw
    have hstep : run.step cancelled c = (⟨(run.sweep.proceed c.ring cancelled).1, none⟩,
        c.report (run.sweep.proceed c.ring cancelled).2) := by
      rw [step]
      split
      · next w hw' => exact absurd hw' (hboundary w)
      · rfl
    rw [hstep]
    refine ⟨.passes _ (Sweep.proceed_proceeds _ _ hboundary) rfl, ⟨fun x hx => ?_, fun _ _ _ hq =>
      absurd hq.symm (Option.some_ne_none _)⟩, rfl⟩
    rcases Sweep.mem_handles_proceed hr (Sweep.proceed_proceeds _ _ hboundary) hx with hx | hx
    · exact h.houses x hx
    · exact hhouses x hx

/-- An event of a sweep serves at most one request. -/
theorem Goes.serving {f' : Fleet} {cancelled : Bool} {run' : SweepRun}
    (h : run.Goes on c f' cancelled run') : ∃ served, c.fleet.ServesAtMost on f' served := by
  cases h with
  | asks w q waits idle serving => exact ⟨none, serving⟩
  | hears w q answer? waits asked arrives ends =>
    obtain ⟨served, hserving, -⟩ := ends.serving
    exact ⟨served, hserving⟩
  | passes s proceeds still => exact ⟨none, still ▸ .refl _⟩

/-- An event of a sweep changes no value but one that it copies to a replica. -/
theorem Goes.held {f' : Fleet} {cancelled : Bool} {run' : SweepRun}
    (h : run.Goes on c f' cancelled run') {x : Handle} (hx : c.fleet.Houses x) (k : String) :
    f'.held x k = c.fleet.held x k ∨
      ∃ job v, run.sweep.stage = .waiting (.copying job x v) ∧ job.key = k ∧
        f'.held x k = some v := by
  cases h with
  | asks w q waits idle serving => exact .inl (serving.held x hx k)
  | passes s proceeds still => exact .inl (still ▸ rfl)
  | hears w q answer? waits asked arrives ends =>
    obtain ⟨served, hserving, hserved⟩ := ends.serving
    have hheld := hserving.held x hx k
    rcases served with _ | ⟨y, r⟩
    · exact .inl hheld
    · obtain ⟨rfl, rfl⟩ := hserved y r rfl
      rw [Fleet.after] at hheld
      split at hheld
      · next he =>
        cases w with
        | copying job member value =>
          by_cases hk : k = job.key
          · exact .inr ⟨job, value, by rw [waits, he]; rfl, hk.symm,
              hheld.trans (if_pos hk)⟩
          · exact .inl (hheld.trans (if_neg hk))
        | listing source => exact .inl hheld
        | checking job member => exact .inl hheld
        | fetching job member => exact .inl hheld
      · exact .inl hheld

/-- The node that has been asked, if its answer is a failure or does not come in time. -/
def blamed? (w : Sweep.Waiting) : Option w.request.Answer → Option Handle
  | some (.ok _) => none
  | some (.error _) => some w.target
  | none => some w.target

/-- The node whose answer is a failure or does not come in time, if the next event of a sweep is
one. -/
def failing? (c : Cluster) (run : SweepRun) : Option Handle :=
  match run.sweep.stage, run.inquiry with
  | .waiting w, some q => blamed? w (c.receive q w.request).1
  | _, _ => none

theorem failing?_of_hears {w : Sweep.Waiting} {q : Inquiry} {answer? : Option w.request.Answer}
    (hw : run.sweep.stage = .waiting w) (hq : run.inquiry = some q)
    (ha : (c.receive q w.request).1 = answer?) : run.failing? c = blamed? w answer? := by
  rw [failing?, hw, hq, ← ha]

theorem failing?_of_boundary (hw : ∀ w, run.sweep.stage ≠ .waiting w) :
    run.failing? c = none := by
  rw [failing?]
  split
  · next w q hst _ => exact absurd hst (hw w)
  · rfl

theorem failing?_of_idle (hq : run.inquiry = none) : run.failing? c = none := by
  rw [failing?]
  split
  · next w q _ hq' => exact absurd (hq.symm.trans hq').symm (Option.some_ne_none q)
  · rfl

end SweepRun

end ReplicaRing
