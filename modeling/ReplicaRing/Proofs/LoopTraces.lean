import ReplicaRing.Proofs.LoopEvents

/-!
# Traces of repair loops

A repair loop runs one sweep after the other, and while it takes up nothing new it soon falls
quiet. The nodes may answer anything, and the ring may change.

* `Event.underway?`, `Event.sweepTrace` — the sweep under way after a trace, and what is seen of it;
* `Event.Admitted`, `Event.Sequential` — what may be seen next of a loop, and traces of such events;
* `SweepRun.Noted`, `LoopRun.Stands` — what a loop has noted of its sweep, and where it stands;
* `Stands.goes` — one event: a loop stands where its trace has led it;
* `Event.Quiets`, `Sequential.quiets` — what is still seen when nothing new is taken up.
-/

namespace ReplicaRing

namespace RepairLoop.Event

/-! ### Traces of a loop -/

/-- An event between two sweeps: one starts, or the loop stops. -/
def isBetween : Event → Bool
  | starts => true
  | stops => true
  | _ => false

/-- The sweep under way after one more event, as the list of what has been seen of it. -/
def follows (body? : Option (List Event)) : Event → Option (List Event)
  | starts => some []
  | ends _ => none
  | stops => none
  | e => body?.map (· ++ [e])

/-- The sweep under way after a trace, as the list of what has been seen of it. -/
def underway? (trace : List Event) : Option (List Event) := trace.foldl follows none

/-- What has been seen of a sweep itself. -/
def sweepTrace (body : List Event) : List Sweep.Event := body.filterMap ofSweep?

theorem underway?_concat (trace : List Event) (e : Event) :
    underway? (trace ++ [e]) = follows (underway? trace) e :=
  List.foldl_concat ..

theorem sweepTrace_append (body body' : List Event) :
    sweepTrace (body ++ body') = sweepTrace body ++ sweepTrace body' :=
  List.filterMap_append ..

/-- An event may be seen after a trace, if a key has `n` replicas. -/
structure Admitted (n : Nat) (before : List Event) (e : Event) : Prop where
  /-- Sweeps start, and the loop stops, only while no sweep is under way; all else is part of the
  sweep under way. -/
  apart : underway? before = none ↔ e.isBetween = true
  /-- The sweep under way takes the course of a single sweep, and the key under repair costs at most
  two requests for each replica and one more. -/
  course : ∀ body, underway? (before ++ [e]) = some body →
    ∃ m run, SweepRun.Course m (sweepTrace body) run ∧
      (Sweep.Event.recent (sweepTrace body)).countP Sweep.Event.asksKey ≤ 2 * n + 1
  /-- A sweep returns at its end, and its report tells whether it has seen the signal. -/
  returns : ∀ r, e = ends r → ∃ body m run, underway? before = some body ∧
    SweepRun.Course m (sweepTrace body) run ∧ run.sweep.isFinished = true ∧
    run.sweep.report = r ∧ (r.cancelled = true ↔ sees ∈ body)
  /-- The keys of a node are asked for as soon as the sweep has taken it up. -/
  listing : ∀ source target, e = does (.sends source target .keys) →
    ∃ earlier, before = earlier ++ [lists source]
  /-- All other requests are for the key under repair. -/
  keys : ∀ source target request, e = does (.sends source target request) → request ≠ .keys →
    ∃ body key, underway? before = some body ∧
      Sweep.Event.Repairing (sweepTrace body) source key ∧
      (request = .get key ∨ ∃ value, request = .set key value)

/-- The traces of a loop that runs one sweep after the other. -/
def Sequential (n : Nat) (trace : List Event) : Prop :=
  ∀ before e, before ++ [e] <+: trace → Admitted n before e

theorem sequential_nil (n : Nat) : Sequential n [] := by
  intro before e h
  have hlen := h.length_le
  rw [List.length_append, List.length_singleton, List.length_nil] at hlen
  omega

theorem Sequential.append {n : Nat} {trace : List Event} (h : Sequential n trace)
    {seen : Option Event} (hseen : ∀ e, seen = some e → Admitted n trace e) :
    Sequential n (trace ++ seen.toList) := by
  cases seen with
  | none => exact (List.append_nil trace).symm ▸ h
  | some e =>
    intro before e' hp
    rcases List.prefix_concat_iff.1 hp with heq | hp
    · obtain ⟨rfl, he⟩ := List.append_inj' heq rfl
      exact hseen e' (congrArg some (List.singleton_inj.1 he).symm)
    · exact h before e' hp

end RepairLoop.Event

/-! ### Where a loop stands in its trace -/

open RepairLoop (Event)

/-- The sweep under way has taken its course, and the loop has noted what it has seen. -/
structure SweepRun.Noted (n : Nat) (trace body : List Event) (run : SweepRun) : Prop where
  course : ∃ m, Course m (Event.sweepTrace body) run
  busy : run.Busy n (Event.sweepTrace body)
  told : run.sweep.report.cancelled = true ↔ .sees ∈ body
  listing : ∀ source, run.sweep.stage = .waiting (.listing source) → run.inquiry = none →
    ∃ earlier, trace = earlier ++ [.lists source]

/-- A loop stands where its trace has led it. -/
def LoopRun.Stands (n : Nat) (trace : List Event) (l : LoopRun) : Prop :=
  match l.loop.phase with
  | .sweeping s => ∃ body, Event.underway? trace = some body ∧
      SweepRun.Noted n trace body ⟨s, l.inquiry⟩
  | _ => Event.underway? trace = none

/-- A sweep that waits asks for the keys of a node or for the key under repair. -/
theorem SweepRun.Course.request_cases {m : Membership} {trace : List Sweep.Event} {run : SweepRun}
    (h : run.Course m trace) {w : Sweep.Waiting} (hw : run.sweep.stage = .waiting w)
    (hq : run.inquiry = none) :
    w = .listing w.source ∨ ∃ key, Sweep.Event.Repairing trace w.source key ∧
      (w.request = .get key ∨ ∃ value, w.request = .set key value) := by
  have htraced := h.agrees.traced
  rw [hw, hq] at htraced
  cases w with
  | listing source => exact .inl rfl
  | checking job member => exact .inr ⟨job.key, htraced.2.1.repairing, .inl rfl⟩
  | fetching job member => exact .inr ⟨job.key, htraced.2.1, .inl rfl⟩
  | copying job member value =>
    exact .inr ⟨job.key, htraced.2.1.repairing, .inr ⟨value, rfl⟩⟩

namespace Sweep

variable {s : Sweep} {r : Ring}

/-- A sweep takes up a node only where that is seen. -/
theorem proceed_ne_listing (h : s.visits? r = none) (hw : ∀ w, s.stage ≠ .waiting w)
    (source : Handle) : (s.proceed r false).1.stage ≠ .waiting (.listing source) := by
  have hp := proceed_proceeds r false hw
  generalize (s.proceed r false).1 = s' at hp
  intro hst
  cases hp with
  | rests finished => exact hw _ hst
  | ends between last => cases hst
  | cancels told between => cases told
  | visits source' rest between next member =>
    simp only [visits?, between, next, member, if_true] at h
    cases h
  | skips source' rest between next gone => exact hw _ hst
  | leaves source' between => cases hst
  | repairs source' key keys between =>
    obtain hn | ⟨member, rest, -, hn⟩ := KeyRepair.next_cases
      ⟨source', key, none, (r.placement key).members, keys⟩
    · cases hn.symm.trans hst
    · cases hn.symm.trans hst

theorem proceed_cancelled (r : Ring) (hw : ∀ w, s.stage ≠ .waiting w) :
    (s.proceed r false).1.report.cancelled = s.report.cancelled := by
  have hp := proceed_proceeds r false hw
  generalize (s.proceed r false).1 = s' at hp
  cases hp with
  | cancels told between => cases told
  | _ => rfl

theorem resume_cancelled (s : Sweep) (w : Waiting) (answer : w.request.Answer) :
    (s.resume w answer).1.report.cancelled = s.report.cancelled := by
  cases w with
  | listing source => cases answer <;> rfl
  | checking job member =>
    rcases answer with e | _ | value
    · rfl
    · cases hv : job.value <;> simp only [resume, hv]
    · rfl
  | fetching job member => rcases answer with e | _ | value <;> rfl
  | copying job member value => cases answer <;> rfl

end Sweep

namespace SweepRun

variable {n : Nat} {trace body : List Event} {s : Sweep} {q? : Option Inquiry} {c : Cluster}

/-- What an event of a sweep leaves alone while nothing is taken up and no signal is seen. -/
theorem step_plain (q? : Option Inquiry) (told : Bool) (hunchecked : told = true → s.checks = false)
    (hunvisited : s.visits? c.ring = none) :
    (step ⟨s, q?⟩ told c).1.sweep.report.cancelled = s.report.cancelled ∧
      ∀ source, (step ⟨s, q?⟩ told c).1.sweep.stage = .waiting (.listing source) →
        (step ⟨s, q?⟩ told c).1.inquiry ≠ none := by
  by_cases hw : ∃ w, s.stage = .waiting w
  · obtain ⟨w, hw⟩ := hw
    cases q? with
    | none =>
      simp only [step, hw]
      exact ⟨trivial, fun _ _ => Option.some_ne_none _⟩
    | some q =>
      simp only [step, hw]
      exact ⟨Sweep.resume_cancelled s w _, fun source hst =>
        absurd hst (Sweep.resume_ne_listing s w _ source)⟩
  · have hboundary := not_exists.1 hw
    have hsame : s.proceed c.ring told = s.proceed c.ring false := by
      cases told with
      | false => rfl
      | true => exact (Sweep.proceed_of_not_checks (hunchecked rfl) c.ring true).1
    rw [(step_boundary hboundary told c).1, hsame]
    exact ⟨Sweep.proceed_cancelled c.ring hboundary, fun source hst =>
      absurd hst (Sweep.proceed_ne_listing hunvisited hboundary source)⟩

/-- The events of a sweep in which nothing is taken up and no signal is seen are noted. -/
theorem Noted.does (h : Noted n trace body ⟨s, q?⟩) (hr : c.ring.Proper)
    (hn : c.ring.options.replicaCount = n) (told : Bool)
    (hunchecked : told = true → s.checks = false) (hunvisited : s.visits? c.ring = none) :
    Noted n (trace ++ ((seen? told c ⟨s, q?⟩).map Event.does).toList)
      (body ++ ((seen? told c ⟨s, q?⟩).map Event.does).toList) (step ⟨s, q?⟩ told c).1 := by
  obtain ⟨hcancelled, hlisting⟩ := step_plain q? told hunchecked hunvisited
  have hsweep : Event.sweepTrace (body ++ ((seen? told c ⟨s, q?⟩).map Event.does).toList) =
      Event.sweepTrace body ++ (seen? told c ⟨s, q?⟩).toList := by
    rw [Event.sweepTrace_append]
    cases seen? told c ⟨s, q?⟩ <;> rfl
  obtain ⟨m, hcourse⟩ := h.course
  refine ⟨⟨m, hsweep ▸ hcourse.event (step_meets _ told c).1⟩, hsweep ▸ h.busy.step told hr hn, ?_,
    fun source hst hq => absurd hq (hlisting source hst)⟩
  rw [hcancelled, h.told, List.mem_append, or_iff_left]
  cases seen? told c ⟨s, q?⟩ with
  | none => exact List.not_mem_nil
  | some e => exact fun hmem => nomatch List.mem_singleton.1 hmem

/-- A boundary at which a node is taken up or the signal is seen is noted. -/
theorem Noted.passes (h : Noted n trace body ⟨s, q?⟩) {s' : Sweep} {e : Event}
    (hmeets : Meets ⟨s, q?⟩ none ⟨s', none⟩) (he : e.ofSweep? = none)
    (hwork : s'.stage.work false = 0)
    (htold : s'.report.cancelled = true ↔ .sees ∈ body ++ [e])
    (hlisting : ∀ source, s'.stage = .waiting (.listing source) → e = .lists source) :
    Noted n (trace ++ [e]) (body ++ [e]) ⟨s', none⟩ := by
  have hsweep : Event.sweepTrace (body ++ [e]) = Event.sweepTrace body := by
    have hempty : Event.sweepTrace [e] = [] := List.filterMap_cons_none he
    rw [Event.sweepTrace_append, hempty, List.append_nil]
  obtain ⟨m, hcourse⟩ := h.course
  have hcourse' := hcourse.event hmeets
  rw [Option.toList_none, List.append_nil] at hcourse'
  refine ⟨⟨m, hsweep ▸ hcourse'⟩, ?_, htold, fun source hst _ => ⟨trace, ?_⟩⟩
  · show _ + s'.stage.work false ≤ 2 * n + 1
    rw [hwork, hsweep]
    exact (Nat.add_le_add_left (Nat.zero_le _) _).trans h.busy
  · rw [hlisting source hst]

/-- A question is that of a waiting sweep. -/
theorem waiting_of_sends {told : Bool} {source target : Handle} {request : Request}
    (h : seen? told c ⟨s, q?⟩ = some (.sends source target request)) :
    ∃ w, s.stage = .waiting w ∧ q? = none ∧ w.source = source ∧ w.request = request := by
  cases hst : s.stage with
  | waiting w =>
    cases q? with
    | none =>
      simp only [seen?, hst] at h
      cases h
      exact ⟨w, rfl, rfl, rfl, rfl⟩
    | some q =>
      simp only [seen?, hst] at h
      cases h
  | betweenKeys source' keys =>
    simp only [seen?, hst] at h
    cases keys with
    | nil => cases h
    | cons key keys => cases told <;> cases h
  | betweenNodes =>
    simp only [seen?, hst] at h
    cases h
  | finished =>
    simp only [seen?, hst] at h
    cases h

/-- A sweep starts. -/
theorem noted_start (n : Nat) (trace : List Event) (m : Membership) :
    Noted n trace [] ⟨.start m, none⟩ where
  course := ⟨m, .start⟩
  busy := Nat.zero_le _
  told := ⟨fun h => absurd h Bool.false_ne_true, fun h => absurd h List.not_mem_nil⟩
  listing _ hst := Sweep.Stage.noConfusion hst

/-- What has been noted of the sweep under way keeps to a single course. -/
theorem Noted.single {run : SweepRun} (h : run.Noted n trace body) :
    ∃ m run, Course m (Event.sweepTrace body) run ∧
      (Sweep.Event.recent (Event.sweepTrace body)).countP Sweep.Event.asksKey ≤ 2 * n + 1 := by
  obtain ⟨m, hcourse⟩ := h.course
  exact ⟨m, run, hcourse, (Nat.le_add_right ..).trans h.busy⟩

end SweepRun

namespace LoopRun

variable {n : Nat} {trace : List Event} {c : Cluster} {l l' : LoopRun} {seen : Option Event}

theorem Stands.sweeping (h : l.Stands n trace) {s : Sweep} (hs : l.loop.phase = .sweeping s) :
    ∃ body, Event.underway? trace = some body ∧ SweepRun.Noted n trace body ⟨s, l.inquiry⟩ := by
  rwa [Stands, hs] at h

theorem Stands.quiet (h : l.Stands n trace) (hs : ∀ s, l.loop.phase ≠ .sweeping s) :
    Event.underway? trace = none := by
  cases hphase : l.loop.phase with
  | sweeping s => exact absurd hphase (hs s)
  | idle => rwa [Stands, hphase] at h
  | stopped => rwa [Stands, hphase] at h

theorem stands_quiet (h : Event.underway? trace = none) (hs : ∀ s, l.loop.phase ≠ .sweeping s) :
    l.Stands n trace := by
  cases hphase : l.loop.phase with
  | sweeping s => exact absurd hphase (hs s)
  | idle => rwa [Stands, hphase]
  | stopped => rwa [Stands, hphase]

/-- A loop that has been told to stop has only so many events left. -/
theorem Stands.left_le (h : l.Stands n trace) : l.left ≤ 4 * n + 8 := by
  cases hphase : l.loop.phase with
  | idle =>
    rw [left, hphase]
    exact Nat.le_add_left_of_le (Nat.le_of_ble_eq_true rfl)
  | stopped =>
    rw [left, hphase]
    exact Nat.zero_le _
  | sweeping s =>
    obtain ⟨body, -, hnoted⟩ := h.sweeping hphase
    have hwork := hnoted.busy
    have hleft := Sweep.Stage.left_le l.inquiry.isSome s.stage
    rw [SweepRun.Busy, SweepRun.work] at hwork
    rw [left_of_sweeping hphase]
    simp only at hwork
    omega

/-- An event of the sweep under way. -/
theorem admitted_within {body : List Event} {e : Event} {run : SweepRun}
    (hbody : Event.underway? trace = some body) (he : e.isBetween = false)
    (hends : ∀ r, e ≠ .ends r) (hnoted : run.Noted n (trace ++ [e]) (body ++ [e]))
    (hlisting : ∀ source target, e = .does (.sends source target .keys) →
      ∃ earlier, trace = earlier ++ [.lists source])
    (hkeys : ∀ source target request, e = .does (.sends source target request) →
      request ≠ .keys → ∃ key, Sweep.Event.Repairing (Event.sweepTrace body) source key ∧
        (request = .get key ∨ ∃ value, request = .set key value)) :
    Event.underway? (trace ++ [e]) = some (body ++ [e]) ∧ Event.Admitted n trace e := by
  have hnext : Event.underway? (trace ++ [e]) = some (body ++ [e]) := by
    rw [Event.underway?_concat, hbody]
    cases e with
    | starts => cases he
    | stops => cases he
    | ends r => exact absurd rfl (hends r)
    | _ => rfl
  refine ⟨hnext, ⟨⟨fun hnone => ?_, fun htrue => ?_⟩, fun body' hbody' => ?_,
    fun r hr => absurd hr (hends r), hlisting, fun source target request heq hne => ?_⟩⟩
  · cases hbody.symm.trans hnone
  · cases he.symm.trans htrue
  · obtain rfl := Option.some.inj (hnext.symm.trans hbody')
    exact hnoted.single
  · obtain ⟨key, hrepairing, hrequest⟩ := hkeys source target request heq hne
    exact ⟨body, key, hbody, hrepairing, hrequest⟩

/-- **One event.** A loop stands where its trace has led it, and only admitted events are seen. -/
theorem Stands.goes (h : l.Stands n trace) (hr : c.ring.Proper)
    (hn : c.ring.options.replicaCount = n) (hg : l.Goes c seen l') :
    l'.Stands n (trace ++ seen.toList) ∧ ∀ e, seen = some e → Event.Admitted n trace e := by
  have hnone : ∀ e : Event, none = some e → Event.Admitted n trace e :=
    fun e he => absurd he.symm (Option.some_ne_none e)
  cases hg with
  | waits _ same idle going =>
    have hquiet := h.quiet fun s hs => nomatch idle.symm.trans hs
    refine ⟨stands_quiet ?_ fun s hs => ?_, hnone⟩
    · rwa [Option.toList_none, List.append_nil]
    · rw [same, idle] at hs
      cases hs
  | rests stopped =>
    rw [Option.toList_none, List.append_nil]
    exact ⟨h, hnone⟩
  | starts tick idle going =>
    have hquiet := h.quiet fun s hs => nomatch idle.symm.trans hs
    have hnext : Event.underway? (trace ++ [.starts]) = some [] := Event.underway?_concat ..
    have hnoted := SweepRun.noted_start n (trace ++ [.starts]) c.ring.membership
    refine ⟨⟨[], hnext, hnoted⟩, ?_⟩
    rintro e ⟨⟩
    refine ⟨⟨fun _ => rfl, fun _ => hquiet⟩, fun body hbody => ?_, fun r he => (by cases he),
      fun source target he => (by cases he), fun source target request he => (by cases he)⟩
    obtain rfl := Option.some.inj (hnext.symm.trans hbody)
    exact hnoted.single
  | stops idle ending =>
    have hquiet := h.quiet fun s hs => nomatch idle.symm.trans hs
    have hnext : Event.underway? (trace ++ [.stops]) = none := Event.underway?_concat ..
    refine ⟨hnext, ?_⟩
    rintro e ⟨⟩
    exact ⟨⟨fun _ => rfl, fun _ => hquiet⟩, fun body hbody => (by cases hnext.symm.trans hbody),
      fun r he => (by cases he), fun source target he => (by cases he),
      fun source target request he => (by cases he)⟩
  | ends s sweeping finished =>
    obtain ⟨body, hbody, hnoted⟩ := h.sweeping sweeping
    obtain ⟨m, hcourse⟩ := hnoted.course
    have hnext : Event.underway? (trace ++ [.ends s.report]) = none := Event.underway?_concat ..
    refine ⟨stands_quiet hnext fun s' hs' =>
      absurd hs' (Scenario.World.sweepEnded_not_sweeping l.loop s.report s'), ?_⟩
    rintro e ⟨⟩
    refine ⟨⟨fun hquiet => (by cases hbody.symm.trans hquiet), fun he => (by cases he)⟩,
      fun body' hbody' => (by cases hnext.symm.trans hbody'), ?_,
      fun source target he => (by cases he), fun source target request he => (by cases he)⟩
    rintro r ⟨⟩
    exact ⟨body, m, _, hbody, hcourse, finished, rfl, hnoted.told⟩
  | sees s sweeping told checks =>
    obtain ⟨body, hbody, hnoted⟩ := h.sweeping sweeping
    obtain ⟨hcancel, hbegins, hboundary⟩ := Sweep.proceed_of_checks checks c.ring
    have hmeets : SweepRun.Meets ⟨s, l.inquiry⟩ (s.stage.begins? true)
        ⟨(s.proceed c.ring true).1, none⟩ := .passes c.ring true hboundary
    rw [hcancel, hbegins] at hmeets
    have hseen : .sees ∈ body ++ [.sees] := List.mem_append_right _ (List.mem_singleton_self _)
    have hnoted' := hnoted.passes (e := .sees) hmeets rfl rfl ⟨fun _ => hseen, fun _ => rfl⟩
      fun source hst => Sweep.Stage.noConfusion hst
    obtain ⟨hnext, hadmitted⟩ := admitted_within hbody rfl (fun r he => by cases he) hnoted'
      (fun source target he => by cases he) (fun source target request he => by cases he)
    refine ⟨⟨_, hnext, hnoted'⟩, ?_⟩
    rintro e ⟨⟩
    exact hadmitted
  | lists s source rest sweeping untold between next member =>
    obtain ⟨body, hbody, hnoted⟩ := h.sweeping sweeping
    obtain ⟨hvisit, hbegins, hboundary⟩ := Sweep.proceed_visits between next member
    have hmeets : SweepRun.Meets ⟨s, l.inquiry⟩ (s.stage.begins? false)
        ⟨(s.proceed c.ring false).1, none⟩ := .passes c.ring false hboundary
    rw [hvisit, hbegins] at hmeets
    have htold : s.report.cancelled = true ↔ .sees ∈ body ++ [.lists source] := by
      rw [hnoted.told, List.mem_append, or_iff_left]
      exact fun hmem => nomatch List.mem_singleton.1 hmem
    have hnoted' := hnoted.passes (e := .lists source) hmeets rfl rfl htold
      fun source' hst => by
        obtain rfl := Sweep.Waiting.listing.inj (Sweep.Stage.waiting.inj hst)
        rfl
    obtain ⟨hnext, hadmitted⟩ := admitted_within hbody rfl (fun r he => by cases he) hnoted'
      (fun source target he => by cases he) (fun source target request he => by cases he)
    refine ⟨⟨_, hnext, hnoted'⟩, ?_⟩
    rintro e ⟨⟩
    exact hadmitted
  | does s sweeping unfinished unchecked unvisited =>
    obtain ⟨body, hbody, hnoted⟩ := h.sweeping sweeping
    have hdoes := hnoted.does hr hn l.loop.signalled unchecked unvisited
    cases hseen : SweepRun.seen? l.loop.signalled c ⟨s, l.inquiry⟩ with
    | none =>
      rw [hseen] at hdoes
      simp only [Option.map_none, Option.toList_none, List.append_nil] at hdoes ⊢
      exact ⟨⟨body, hbody, hdoes⟩, hnone⟩
    | some e =>
      rw [hseen] at hdoes
      have hasks : ∀ source target request, Event.does e = .does (.sends source target request) →
          ∃ w, s.stage = .waiting w ∧ l.inquiry = none ∧ w.source = source ∧
            w.request = request := by
        rintro source target request ⟨⟩
        exact SweepRun.waiting_of_sends hseen
      obtain ⟨m, hcourse⟩ := hnoted.course
      obtain ⟨hnext, hadmitted⟩ := admitted_within hbody rfl (fun r he => by cases he) hdoes
        (fun source target he => by
          obtain ⟨w, hw, hq, rfl, hrequest⟩ := hasks source target .keys he
          rcases hcourse.request_cases hw hq with hlisting | ⟨key, -, hget | ⟨value, hset⟩⟩
          · exact hnoted.listing w.source (hw.trans (congrArg _ hlisting)) hq
          · cases hrequest.symm.trans hget
          · cases hrequest.symm.trans hset)
        (fun source target request he hne => by
          obtain ⟨w, hw, hq, rfl, rfl⟩ := hasks source target request he
          rcases hcourse.request_cases hw hq with hlisting | hkey
          · rw [hlisting] at hne
            exact absurd rfl hne
          · exact hkey)
      refine ⟨⟨_, hnext, hdoes⟩, ?_⟩
      rintro e ⟨⟩
      exact hadmitted

end LoopRun

/-! ### Nothing new is taken up -/

namespace Sweep.Event

variable {trace later : List Event}

theorem recent_append (h : ∀ e ∈ later, e.isBegin = false) :
    recent (trace ++ later) = recent trace ++ later := by
  induction later using List.reverseRecOn with
  | nil => rw [List.append_nil, List.append_nil]
  | append_singleton later e ih =>
    have hlast : e.isBegin = false := h e (List.mem_append_right _ (List.mem_singleton_self e))
    rw [← List.append_assoc, recent_concat_of_not hlast,
      ih fun e' he' => h e' (List.mem_append_left _ he'), List.append_assoc]

/-- The last repair has begun already, unless another one begins. -/
theorem Repairing.of_append {source : Handle} {key : String}
    (h : Repairing (trace ++ later) source key) (hlater : ∀ e ∈ later, e.isBegin = false) :
    Repairing trace source key := by
  obtain ⟨earlier, hearlier⟩ := h
  rw [recent_append hlater, ← List.cons_append, ← List.append_assoc] at hearlier
  exact ⟨earlier, List.append_cancel_right hearlier⟩

end Sweep.Event

namespace RepairLoop.Event

variable {n : Nat} {before later : List Event}

/-- What is seen of a loop while nothing new is taken up. -/
structure Quiets (before later : List Event) : Prop where
  /-- No sweep starts, and no node and no key is taken up. -/
  nothing : ∀ e ∈ later, e.isNew = false
  /-- The keys of a node are asked for only if the last thing seen was that it was taken up. -/
  listing : ∀ mid source target tail, later = mid ++ does (.sends source target .keys) :: tail →
    mid = [] ∧ ∃ earlier, before = earlier ++ [lists source]
  /-- All other requests are for the key that was under repair. -/
  keys : ∀ source target request, does (.sends source target request) ∈ later →
    request ≠ .keys → ∃ body key, underway? before = some body ∧
      Sweep.Event.Repairing (sweepTrace body) source key ∧
      (request = .get key ∨ ∃ value, request = .set key value)
  /-- Once no sweep is under way, nothing is seen but that the loop stops. -/
  done : ∀ mid tail, later = mid ++ tail → underway? (before ++ mid) = none →
    ∀ e ∈ tail, e = stops

/-- While nothing new is taken up, no other sweep comes to be under way. -/
theorem underway?_append {body : List Event} (hnew : ∀ e ∈ later, e.isNew = false)
    (h : underway? (before ++ later) = some body) :
    ∃ body', underway? before = some body' ∧ body = body' ++ later := by
  induction later using List.reverseRecOn generalizing body with
  | nil => exact ⟨body, by rwa [List.append_nil] at h, (List.append_nil body).symm⟩
  | append_singleton later e ih =>
    have hearlier : ∀ e' ∈ later, e'.isNew = false :=
      fun e' he' => hnew e' (List.mem_append_left _ he')
    have hlast : e.isNew = false := hnew e (List.mem_append_right _ (List.mem_singleton_self e))
    have hgoes : ∃ body₀, underway? (before ++ later) = some body₀ ∧ body = body₀ ++ [e] := by
      rw [← List.append_assoc, underway?_concat] at h
      cases e with
      | starts => cases hlast
      | ends r => cases h
      | stops => cases h
      | _ =>
        obtain ⟨body₀, hbody₀, rfl⟩ := Option.map_eq_some_iff.1 h
        exact ⟨body₀, hbody₀, rfl⟩
    obtain ⟨body₀, hbody₀, rfl⟩ := hgoes
    obtain ⟨body', hbody', rfl⟩ := ih hearlier hbody₀
    exact ⟨body', hbody', List.append_assoc ..⟩

/-- **Quiet.** What is seen while nothing new is taken up. -/
theorem Sequential.quiets (h : Sequential n (before ++ later))
    (hnew : ∀ e ∈ later, e.isNew = false) : Quiets before later where
  nothing := hnew
  listing mid source target tail heq := by
    have hp : before ++ mid ++ [does (.sends source target .keys)] <+: before ++ later :=
      ⟨tail, by rw [heq, List.append_assoc, List.append_assoc, List.singleton_append]⟩
    obtain ⟨earlier, hearlier⟩ := (h _ _ hp).listing source target rfl
    cases mid using List.reverseRecOn with
    | nil => exact ⟨rfl, earlier, (List.append_nil before).symm.trans hearlier⟩
    | append_singleton mid e _ =>
      rw [← List.append_assoc] at hearlier
      obtain rfl := List.singleton_inj.1 (List.append_inj' hearlier rfl).2
      have hmem : lists source ∈ later := by simp [heq]
      cases hnew _ hmem
  keys source target request hmem hne := by
    obtain ⟨mid, tail, rfl⟩ := List.append_of_mem hmem
    have hp : before ++ mid ++ [does (.sends source target request)] <+:
        before ++ (mid ++ does (.sends source target request) :: tail) :=
      ⟨tail, by rw [List.append_assoc, List.append_assoc, List.singleton_append]⟩
    have hmid : ∀ e ∈ mid, e.isNew = false := fun e he => hnew e (List.mem_append_left _ he)
    obtain ⟨body, key, hbody, hrepairing, hrequest⟩ :=
      (h _ _ hp).keys source target request rfl hne
    obtain ⟨body', hbody', rfl⟩ := underway?_append hmid hbody
    rw [sweepTrace_append] at hrepairing
    refine ⟨body', key, hbody', hrepairing.of_append fun e he => ?_, hrequest⟩
    obtain ⟨e', he', heq⟩ := List.mem_filterMap.1 he
    cases e' with
    | does e'' =>
      obtain rfl := Option.some.inj heq
      exact hmid _ he'
    | _ => cases heq
  done mid tail heq hquiet := by
    induction tail generalizing mid with
    | nil => exact fun e he => absurd he List.not_mem_nil
    | cons e tail ih =>
      have hp : before ++ mid ++ [e] <+: before ++ later :=
        ⟨tail, by rw [heq, List.append_assoc, List.append_assoc, List.singleton_append]⟩
      have hstops : e = stops := by
        have hbetween := (h _ _ hp).apart.1 hquiet
        have hlast : e.isNew = false := hnew e (by simp [heq])
        cases e with
        | stops => rfl
        | starts => cases hlast
        | _ => cases hbetween
      have hquiet' : underway? (before ++ (mid ++ [e])) = none := by
        rw [← List.append_assoc, underway?_concat, hstops]
        rfl
      intro e' he'
      rcases List.mem_cons.1 he' with rfl | he'
      · exact hstops
      · exact ih (mid ++ [e]) (by rw [heq, List.append_assoc, List.singleton_append]) hquiet' e' he'

end RepairLoop.Event

end ReplicaRing
