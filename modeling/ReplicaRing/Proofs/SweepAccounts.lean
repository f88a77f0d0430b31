import Mathlib.Data.List.TakeWhile
import ReplicaRing.Proofs.GapFilling

/-!
# Accounts of a sweep

A sweep among nodes that fail now and then leaves things out, and its report counts the failures.
Both go together: whatever it leaves out can be put down to a request that failed.

* `Sweep.Due` — a sweep will still compare a source with a replica on a key;
* `Goes.due` — an event takes such a comparison away only by carrying it out or by a failure;
* `Goes.failures`, `Goes.rests` — failures are counted, and a sweep ends after its last node;
* `Sweep.Accounts` — the failures of a sweep so far explain what its replicas lack;
* `Goes.mem_keys`, `Goes.copies` — what a sweep takes up, and when it counts a copy.
-/

namespace ReplicaRing

/-! ### What a sweep still has to compare -/

/-- The repair of a key will still look at a replica, or the key comes later. -/
def KeyRepair.Due (s m : Handle) (k : String) (members : List Handle) (job : KeyRepair) : Prop :=
  job.source = s ∧ (k ∈ job.keys ∨ job.key = k ∧ m ∈ members)

/-- A sweep that has taken up a node will still compare it with a replica on a key. -/
def Sweep.Stage.Due (s m : Handle) (k : String) : Sweep.Stage → Prop
  | .betweenKeys source keys => source = s ∧ k ∈ keys
  | .waiting (.listing source) => source = s
  | .waiting (.checking job x) => job.Due s m k (x :: job.ahead)
  | .waiting (.fetching job x) => job.Due s m k (x :: job.ahead)
  | .waiting (.copying job x _) => job.Due s m k (x :: job.ahead)
  | _ => False

/-- A sweep will still compare a source with a replica on a key. -/
def Sweep.Due (s m : Handle) (k : String) (σ : Sweep) : Prop := s ∈ σ.sources ∨ σ.stage.Due s m k

theorem mem_dropWhile {α : Type} {p : α → Bool} {l : List α} {a : α} (ha : a ∈ l)
    (hp : p a = false) : a ∈ l.dropWhile p := by
  rw [← List.takeWhile_append_dropWhile (p := p) (l := l)] at ha
  rcases List.mem_append.1 ha with ha | ha
  · exact absurd (List.mem_takeWhile_imp ha) (by simp [hp])
  · exact ha

/-- Going on to the next replica passes over none but the source. -/
theorem KeyRepair.Due.next {s m : Handle} {k : String} {job : KeyRepair}
    (h : job.Due s m k job.ahead) (hne : m.id ≠ s.id) : job.next.Due s m k := by
  obtain ⟨rfl, hkeys⟩ := h
  rw [KeyRepair.next]
  cases hd : job.ahead.dropWhile (·.id == job.source.id) with
  | nil =>
    refine ⟨rfl, hkeys.resolve_right fun hm => ?_⟩
    have hmem := mem_dropWhile hm.2 (p := (·.id == job.source.id)) (by simpa using hne)
    rw [hd] at hmem
    exact absurd hmem List.not_mem_nil
  | cons x rest =>
    refine ⟨rfl, hkeys.imp_right fun hm => ⟨hm.1, ?_⟩⟩
    have hmem := mem_dropWhile hm.2 (p := (·.id == job.source.id)) (by simpa using hne)
    rwa [hd] at hmem

/-- A replica other than the one that has been looked at is still ahead. -/
theorem KeyRepair.Due.ahead {s m x : Handle} {k : String} {job : KeyRepair}
    (h : job.Due s m k (x :: job.ahead)) (hx : ¬ (job.key = k ∧ x = m)) :
    job.Due s m k job.ahead := by
  refine ⟨h.1, h.2.imp_right fun hm => ⟨hm.1, ?_⟩⟩
  exact (List.mem_cons.1 hm.2).resolve_left fun he => hx ⟨hm.1, he.symm⟩

namespace SweepRun

variable {c : Cluster} {f' : Fleet} {cancelled : Bool} {run run' : SweepRun} {s m : Handle}
  {k : String}

/-- A listing names every key that a node holds. -/
theorem mem_listing {f : Fleet} {source : Handle}
    {answer? : Option (Sweep.Waiting.listing source).request.Answer}
    (h : f.Ends Operation.every f' source .keys answer?) {keys : List String}
    (hkeys : heard (.listing source) answer? = .ok keys) (hk : f.held source k ≠ none) :
    k ∈ keys := by
  cases h with
  | served reply honest moves =>
    obtain rfl : reply = keys := Except.ok.inj hkeys
    exact (honest trivial).mem_iff.2 (OrderedMap.mem_keys_iff.2 hk)
  | pretended reply dubious moves => exact absurd trivial dubious
  | refused e moves => exact nomatch hkeys
  | givenUp moves => exact nomatch hkeys

/-- An answer leaves the nodes that a sweep has yet to visit as they are. -/
theorem resume_sources (σ : Sweep) (w : Sweep.Waiting) (answer : w.request.Answer) :
    (σ.resume w answer).1.sources = σ.sources := by
  cases w with
  | listing source => cases answer <;> rfl
  | checking job x =>
    cases answer with
    | error e => rfl
    | ok found =>
      cases found with
      | some v => rfl
      | none =>
        simp only [Sweep.resume]
        cases job.value <;> rfl
  | fetching job x =>
    cases answer with
    | error e => rfl
    | ok found => cases found <;> rfl
  | copying job x v => cases answer <;> rfl

/-- A comparison that an answer takes away has been carried out or has failed. -/
theorem due_of_hears {w : Sweep.Waiting} {answer? : Option w.request.Answer} {σ : Sweep} {f : Fleet}
    (ends : f.Ends Operation.every f' w.target w.request answer?) (htarget : f.Houses w.target)
    (hne : m.id ≠ s.id) (hsome : f.held s k ≠ none) (hnone : f.held m k = none)
    (hnone' : f'.held m k = none) (hdue : (Sweep.Stage.waiting w).Due s m k) :
    (σ.resume w (heard w answer?)).1.stage.Due s m k ∨
      blamed? w answer? = some s ∨ blamed? w answer? = some m := by
  cases w with
  | listing source =>
    obtain rfl : source = s := hdue
    rcases answer? with _ | e | keys
    · exact .inr (.inl rfl)
    · exact .inr (.inl rfl)
    · exact .inl ⟨rfl, mem_listing ends rfl hsome⟩
  | checking job x =>
    by_cases hx : job.key = k ∧ x = m
    · obtain ⟨rfl, rfl⟩ := hx
      rcases answer? with _ | e | found
      · exact .inr (.inr rfl)
      · exact .inr (.inr rfl)
      · obtain rfl : none = found := hnone.symm.trans (found_ends trivial ends rfl)
        refine .inl ?_
        simp only [heard, Option.getD_some, Sweep.resume]
        cases job.value <;> exact hdue
    · have hnext := (KeyRepair.Due.ahead hdue hx).next hne
      rcases answer? with _ | e | found
      · exact .inl hnext
      · exact .inl hnext
      · cases found with
        | some v => exact .inl hnext
        | none =>
          refine .inl ?_
          simp only [heard, Option.getD_some, Sweep.resume]
          cases job.value <;> exact hdue
  | fetching job x =>
    obtain ⟨rfl, hkeys⟩ := hdue
    rcases answer? with _ | e | found
    · exact .inr (.inl rfl)
    · exact .inr (.inl rfl)
    · cases found with
      | some v => exact .inl ⟨rfl, hkeys⟩
      | none =>
        refine .inl ⟨rfl, hkeys.resolve_right fun hk => ?_⟩
        obtain ⟨rfl, -⟩ := hk
        exact hsome (found_ends trivial ends rfl)
  | copying job x v =>
    by_cases hx : job.key = k ∧ x = m
    · obtain ⟨rfl, rfl⟩ := hx
      rcases answer? with _ | e | reply
      · exact .inr (.inr rfl)
      · exact .inr (.inr rfl)
      · exact absurd (hnone'.symm.trans (Fleet.Ends.stored ends trivial htarget)).symm
          (Option.some_ne_none v)
    · have hnext := (KeyRepair.Due.ahead hdue hx).next hne
      rcases answer? with _ | e | reply <;> exact .inl hnext

/-- **Comparisons.** An event of a sweep takes a comparison away only by a failure, as long as the
source holds the key and the replica lacks it. -/
theorem Goes.due (h : run.Goes Operation.every c f' cancelled run')
    (hrun : run.Fair Operation.every c.fleet)
    (hr : c.ring.membership.Sound) (hs : s ∈ c.ring.membership.handles)
    (hm : m ∈ (c.ring.placement k).members) (hsome : c.fleet.held s k ≠ none)
    (hnone : c.fleet.held m k = none) (hnone' : f'.held m k = none) (hdue : run.sweep.Due s m k) :
    run'.sweep.report.cancelled = true ∨ run'.sweep.Due s m k ∨
      run.failing? c = some s ∨ run.failing? c = some m := by
  have hne : m.id ≠ s.id := by
    intro hid
    rw [hr.eq_of_id (hr.placement_subset hm) hs hid] at hnone
    exact hsome hnone
  cases h with
  | asks w q waits idle moves => exact .inr (.inl hdue)
  | passes σ proceeds still =>
    cases proceeds with
    | rests finished => exact .inr (.inl hdue)
    | cancels told between => exact .inl rfl
    | ends between last =>
      rw [Sweep.Due, last, between] at hdue
      exact absurd hdue (by simp [Sweep.Stage.Due])
    | visits source rest between next member =>
      rw [Sweep.Due, next, between] at hdue
      rcases List.mem_cons.1 (hdue.resolve_right id) with rfl | hrest
      · exact .inr (.inl (.inr rfl))
      · exact .inr (.inl (.inl hrest))
    | skips source rest between next gone =>
      rw [Sweep.Due, next, between] at hdue
      rcases List.mem_cons.1 (hdue.resolve_right id) with rfl | hrest
      · exact absurd ((Membership.contains_iff hr).2 ⟨s, hs, rfl⟩) (by simp [gone])
      · exact .inr (.inl (.inl hrest))
    | leaves source between =>
      rw [Sweep.Due, between] at hdue
      exact .inr (.inl (.inl (hdue.resolve_right fun h => List.not_mem_nil h.2)))
    | repairs source key keys between =>
      rw [Sweep.Due, between] at hdue
      rcases hdue with hsrc | ⟨rfl, hkey⟩
      · exact .inr (.inl (.inl hsrc))
      · refine .inr (.inl (.inr (KeyRepair.Due.next ⟨rfl, ?_⟩ hne)))
        rcases List.mem_cons.1 hkey with rfl | hkey
        · exact .inr ⟨rfl, hm⟩
        · exact .inl hkey
  | hears w q answer? waits asked arrives ends =>
    rw [failing?_of_hears waits asked arrives]
    rcases hdue with hsrc | hdue
    · exact .inr (.inl (.inl ((resume_sources _ w _).symm ▸ hsrc)))
    · rw [waits] at hdue
      exact .inr ((due_of_hears ends (hrun.target waits) hne hsome hnone hnone' hdue).imp_left .inr)

/-! ### What a sweep counts -/

/-- An answer is counted if it is a failure, and a sweep neither ends nor is cancelled by it. -/
theorem resume_counts (σ : Sweep) (w : Sweep.Waiting) (answer : w.request.Answer) :
    (σ.resume w answer).1.report.failures =
        σ.report.failures + (blamed? w (some answer)).toList.length ∧
      (σ.resume w answer).1.report.cancelled = σ.report.cancelled ∧
      (σ.resume w answer).1.stage ≠ .finished := by
  have hnext : ∀ job : KeyRepair, job.next ≠ .finished := by
    intro job
    rw [KeyRepair.next]
    split <;> (intro h; cases h)
  cases w with
  | listing source => cases answer <;> exact ⟨rfl, rfl, by intro h; cases h⟩
  | checking job x =>
    cases answer with
    | error e => exact ⟨rfl, rfl, hnext job⟩
    | ok found =>
      cases found with
      | some v => exact ⟨rfl, rfl, hnext job⟩
      | none =>
        simp only [Sweep.resume]
        cases job.value <;> exact ⟨rfl, rfl, by intro h; cases h⟩
  | fetching job x =>
    cases answer with
    | error e => exact ⟨rfl, rfl, by intro h; cases h⟩
    | ok found => cases found <;> exact ⟨rfl, rfl, by intro h; cases h⟩
  | copying job x v => cases answer <;> exact ⟨rfl, rfl, hnext job⟩

/-- No answer in time is counted like a failure. -/
theorem blamed?_heard (w : Sweep.Waiting) (answer? : Option w.request.Answer) :
    blamed? w (some (heard w answer?)) = blamed? w answer? := by
  cases answer? with
  | none => rfl
  | some answer => rfl

/-- Every event of a sweep counts the failure that it is, if it is one. -/
theorem Goes.failures (h : run.Goes Operation.every c f' cancelled run') :
    run'.sweep.report.failures =
      run.sweep.report.failures + (run.failing? c).toList.length := by
  cases h with
  | asks w q waits idle moves => rw [failing?_of_idle idle]; rfl
  | hears w q answer? waits asked arrives ends =>
    rw [failing?_of_hears waits asked arrives, ← blamed?_heard]
    exact (resume_counts _ w _).1
  | passes σ proceeds still =>
    rw [failing?_of_boundary proceeds.not_waiting]
    cases proceeds <;> rfl

/-- A sweep that has been cancelled stays so. -/
theorem Goes.stays_cancelled (h : run.Goes Operation.every c f' cancelled run')
    (hcancelled : run.sweep.report.cancelled = true) : run'.sweep.report.cancelled = true := by
  cases h with
  | asks w q waits idle moves => exact hcancelled
  | hears w q answer? waits asked arrives ends =>
    exact (resume_counts _ w _).2.1.trans hcancelled
  | passes σ proceeds still => cases proceeds <;> first | exact hcancelled | rfl

end SweepRun

/-- A sweep that has not been cancelled ends when it has visited all nodes. -/
def Sweep.Rests (σ : Sweep) : Prop :=
  σ.stage = .finished → σ.report.cancelled = true ∨ σ.sources = []

theorem SweepRun.Goes.rests {c : Cluster} {f' : Fleet} {cancelled : Bool} {run run' : SweepRun}
    (h : run.Goes Operation.every c f' cancelled run') (hrests : run.sweep.Rests) :
    run'.sweep.Rests := by
  cases h with
  | asks w q waits idle moves => exact hrests
  | hears w q answer? waits asked arrives ends =>
    exact fun hstage => absurd hstage (resume_counts _ w _).2.2
  | passes σ proceeds still =>
    cases proceeds with
    | rests finished => exact hrests
    | ends between last => exact fun _ => .inr last
    | cancels told between => exact fun _ => .inl rfl
    | visits source rest between next member => exact fun hstage => by cases hstage
    | skips source rest between next gone => exact fun hstage => by cases between.symm.trans hstage
    | leaves source between => exact fun hstage => by cases hstage
    | repairs source key keys between =>
      intro hstage
      rw [Sweep.repair, KeyRepair.next] at hstage
      split at hstage <;> cases hstage

/-! ### The account of a sweep -/

/-- The failures of a sweep so far are counted, and they explain what the replicas lack of the data
at its start, unless the sweep has been cancelled or will still see to it. -/
structure Sweep.Accounts (r : Ring) (f₀ f : Fleet) (blamed : List Handle) (σ : Sweep) : Prop where
  failures : blamed.length = σ.report.failures
  rests : σ.Rests
  missing : σ.report.cancelled = true ∨
    ∀ s ∈ r.membership.handles, ∀ k, f₀.held s k ≠ none →
      ∀ m ∈ (r.placement k).members, f.held m k = none → σ.Due s m k ∨ s ∈ blamed ∨ m ∈ blamed

namespace Sweep.Accounts

variable {r : Ring} {f₀ f f' : Fleet} {blamed : List Handle} {σ : Sweep}

theorem start (r : Ring) (f₀ f : Fleet) : (Sweep.start r.membership).Accounts r f₀ f [] where
  failures := rfl
  rests hstage := nomatch hstage
  missing := .inr fun _ hs _ _ _ _ _ => .inl (.inl hs)

/-- An account stays right when more data appear. -/
theorem mono (h : σ.Accounts r f₀ f blamed)
    (hkept : ∀ m ∈ r.membership.handles, ∀ k, f.held m k ≠ none → f'.held m k ≠ none)
    (hr : r.membership.Sound) : σ.Accounts r f₀ f' blamed where
  failures := h.failures
  rests := h.rests
  missing := h.missing.imp_right fun hmissing s hs k hk m hm hnone =>
    hmissing s hs k hk m hm (not_not.1 fun hsome =>
      hkept m (hr.placement_subset hm) k hsome hnone)

/-- **Accounts.** An event of a sweep keeps its account right. -/
theorem goes {c : Cluster} {cancelled : Bool} {run run' : SweepRun}
    (h : run.sweep.Accounts c.ring f₀ c.fleet blamed)
    (hgoes : run.Goes Operation.every c f' cancelled run')
    (hrun : run.Fair Operation.every c.fleet) (hr : c.ring.membership.Sound)
    (hsince : ∀ s ∈ c.ring.membership.handles, ∀ k, f₀.held s k ≠ none → c.fleet.held s k ≠ none)
    (hkept : ∀ m ∈ c.ring.membership.handles, ∀ k, c.fleet.held m k ≠ none → f'.held m k ≠ none) :
    run'.sweep.Accounts c.ring f₀ f' (blamed ++ (run.failing? c).toList) where
  failures := by rw [List.length_append, hgoes.failures, h.failures]
  rests := hgoes.rests h.rests
  missing := by
    rcases h.missing with hcancelled | hmissing
    · exact .inl (hgoes.stays_cancelled hcancelled)
    rcases Bool.eq_false_or_eq_true run'.sweep.report.cancelled with hcancelled | hcancelled
    · exact .inl hcancelled
    refine .inr fun s hs k hk m hm hnone' => ?_
    have hnone : c.fleet.held m k = none :=
      not_not.1 fun hsome => hkept m (hr.placement_subset hm) k hsome hnone'
    have hsome : c.fleet.held s k ≠ none := hsince s hs k hk
    rcases hmissing s hs k hk m hm hnone with hdue | hblamed | hblamed
    · rcases hgoes.due hrun hr hs hm hsome hnone hnone' hdue with hc | hdue | hf | hf
      · exact absurd hc (by simp [hcancelled])
      · exact .inl hdue
      · exact .inr (.inl (List.mem_append_right _ (by simp [hf])))
      · exact .inr (.inr (List.mem_append_right _ (by simp [hf])))
    · exact .inr (.inl (List.mem_append_left _ hblamed))
    · exact .inr (.inr (List.mem_append_left _ hblamed))

/-- A sweep that has ended, and not early, sees to nothing any more. -/
theorem ended (h : σ.Accounts r f₀ f blamed) (hstage : σ.stage = .finished)
    (hfull : σ.report.cancelled = false) {s m : Handle} {k : String}
    (hs : s ∈ r.membership.handles) (hk : f₀.held s k ≠ none)
    (hm : m ∈ (r.placement k).members) (hnone : f.held m k = none) : s ∈ blamed ∨ m ∈ blamed := by
  have hmissing := h.missing.resolve_left (by simp [hfull])
  refine (hmissing s hs k hk m hm hnone).resolve_left fun hdue => ?_
  rcases hdue with hsource | hdue
  · have hsources := (h.rests hstage).resolve_left (by simp [hfull])
    rw [hsources] at hsource
    exact List.not_mem_nil hsource
  · rw [hstage] at hdue
    exact hdue

end Sweep.Accounts

/-! ### The keys of a sweep -/

/-- The keys that a stage refers to. -/
def Sweep.Stage.keys : Sweep.Stage → List String
  | .betweenKeys _ keys => keys
  | .waiting (.checking job _) => job.key :: job.keys
  | .waiting (.fetching job _) => job.key :: job.keys
  | .waiting (.copying job _ _) => job.key :: job.keys
  | _ => []

theorem KeyRepair.mem_keys_next {job : KeyRepair} {k : String} (hk : k ∈ job.next.keys) :
    k ∈ job.key :: job.keys := by
  rcases job.next_cases with hn | ⟨x, rest, -, hn⟩ <;> rw [hn] at hk
  · exact List.mem_cons_of_mem _ hk
  · exact hk

/-- A sweep takes up keys only from listings. -/
theorem Sweep.mem_keys_resume {σ : Sweep} {w : Sweep.Waiting} {answer : w.request.Answer}
    {k : String} (hk : k ∈ (σ.resume w answer).1.stage.keys) :
    k ∈ (Sweep.Stage.waiting w).keys ∨ ∃ source, w = .listing source := by
  cases w with
  | listing source => exact .inr ⟨source, rfl⟩
  | checking job x =>
    refine .inl ?_
    cases answer with
    | error e => exact KeyRepair.mem_keys_next hk
    | ok found =>
      cases found with
      | some v => exact KeyRepair.mem_keys_next hk
      | none =>
        simp only [resume] at hk
        cases hv : job.value <;> (rw [hv] at hk; exact hk)
  | fetching job x =>
    refine .inl ?_
    cases answer with
    | error e => exact List.mem_cons_of_mem _ hk
    | ok found =>
      cases found with
      | some v => exact hk
      | none => exact List.mem_cons_of_mem _ hk
  | copying job x v => cases answer <;> exact .inl (KeyRepair.mem_keys_next hk)

namespace SweepRun

variable {c : Cluster} {f' : Fleet} {cancelled : Bool} {run run' : SweepRun} {k : String}

/-- A sweep takes up no nodes but those of the ring. -/
theorem Goes.mem_handles {on : Operation → Prop} (h : run.Goes on c f' cancelled run')
    (hr : c.ring.membership.Sound) {y : Handle} (hy : y ∈ run'.sweep.handles) :
    y ∈ run.sweep.handles ∨ y ∈ c.ring.membership.handles := by
  cases h with
  | asks w q waits idle moves => exact .inl hy
  | hears w q answer? waits asked arrives ends => exact .inl (Sweep.mem_handles_resume waits hy)
  | passes σ proceeds still => exact Sweep.mem_handles_proceed hr proceeds hy

/-- What a node lists it holds. -/
theorem held_of_listed {f : Fleet} {source : Handle} {σ : Sweep}
    {answer? : Option (Sweep.Waiting.listing source).request.Answer}
    (h : f.Ends Operation.every f' source .keys answer?)
    (hk : k ∈ (σ.resume (.listing source) (heard (.listing source) answer?)).1.stage.keys) :
    f.held source k ≠ none := by
  cases h with
  | served reply honest moves =>
    exact OrderedMap.mem_keys_iff.1 ((honest trivial).mem_iff.1 hk)
  | pretended reply dubious moves => exact absurd trivial dubious
  | refused e moves => exact absurd hk List.not_mem_nil
  | givenUp moves => exact absurd hk List.not_mem_nil

/-- A sweep takes up no keys but those that some node of it holds. -/
theorem Goes.mem_keys (h : run.Goes Operation.every c f' cancelled run')
    (hk : k ∈ run'.sweep.stage.keys) :
    k ∈ run.sweep.stage.keys ∨ ∃ source ∈ run.sweep.handles, c.fleet.held source k ≠ none := by
  cases h with
  | asks w q waits idle moves => exact .inl hk
  | hears w q answer? waits asked arrives ends =>
    rcases Sweep.mem_keys_resume hk with hk | ⟨source, rfl⟩
    · exact .inl (waits ▸ hk)
    · refine .inr ⟨source, List.mem_append_right _ ?_, held_of_listed ends hk⟩
      rw [waits]
      exact List.mem_singleton_self source
  | passes σ proceeds still =>
    cases proceeds with
    | rests finished => exact .inl hk
    | skips source rest between next gone => exact .inl hk
    | repairs source key keys between =>
      rw [between]
      exact .inl (KeyRepair.mem_keys_next hk)
    | _ => exact absurd hk List.not_mem_nil

/-- A sweep counts a copy only when it waits for one. -/
theorem Goes.copies {on : Operation → Prop} (h : run.Goes on c f' cancelled run')
    (hcopying : ∀ job x v, run.sweep.stage ≠ .waiting (.copying job x v)) :
    run'.sweep.report.copies = run.sweep.report.copies := by
  cases h with
  | asks w q waits idle moves => rfl
  | passes σ proceeds still => cases proceeds <;> rfl
  | hears w q answer? waits asked arrives ends =>
    dsimp only
    generalize heard w answer? = answer
    cases w with
    | listing source => cases answer <;> rfl
    | checking job x =>
      cases answer with
      | error e => rfl
      | ok found =>
        cases found with
        | some v => rfl
        | none =>
          simp only [Sweep.resume]
          cases job.value <;> rfl
    | fetching job x =>
      cases answer with
      | error e => rfl
      | ok found => cases found <;> rfl
    | copying job x v => exact absurd waits (hcopying job x v)

end SweepRun

end ReplicaRing
