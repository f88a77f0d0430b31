import ReplicaRing.Proofs.SweepResult
import ReplicaRing.Proofs.SweepTrace

/-!
# Sweeps under way

A sweep that runs alone in a steady cluster never changes a value that is there, and all that it has
copied at any point is what it would have spread in the end. Another sweep from there spreads the
same values.

* `Cluster.Alike` — clusters that differ at most in their clock, log and counts;
* `SweepRun.Underway` — what holds at every event of a sweep, with one lemma for each kind of event;
* `Underway.after` — all events;
* `Cluster.Partly` — a cluster with some of the copies that a sweep makes;
* `Partly.offer`, `Passed.partly` — a sweep from there on spreads the same values.
-/

namespace ReplicaRing

namespace Cluster

/-- Two clusters differ at most in what does not matter to the data: the clock, the log, the metrics
and the order of listings. -/
structure Alike (c c' : Cluster) : Prop where
  ring : c'.ring = c.ring
  env : c'.env = c.env
  fleet : c'.fleet = c.fleet

theorem Alike.trans {c c' c'' : Cluster} (h : c.Alike c') (h' : c'.Alike c'') : c.Alike c'' :=
  ⟨h'.ring.trans h.ring, h'.env.trans h.env, h'.fleet.trans h.fleet⟩

/-- No value that is there changes from one cluster to the next. -/
def Keeps (c c' : Cluster) : Prop :=
  ∀ x ∈ c.ring.membership.handles, ∀ k, c.fleet.held x k ≠ none →
    c'.fleet.held x k = c.fleet.held x k

theorem Keeps.trans {c c' c'' : Cluster} (h : c.Keeps c') (h' : c'.Keeps c'')
    (hring : c'.ring = c.ring) : c.Keeps c'' := by
  intro x hx k hk
  have hsame := h x hx k hk
  rw [h' x (by rwa [hring]) k (by rwa [hsame]), hsame]

theorem Keeps.of_same {c c' : Cluster}
    (h : ∀ x ∈ c.ring.membership.handles, ∀ k, c'.fleet.held x k = c.fleet.held x k) :
    c.Keeps c' := fun x hx k _ => h x hx k

end Cluster

/-- A replica that is about to be filled is one of the key. -/
theorem Sweep.Within.mem_of_lacks {r : Ring} {s : Sweep} (hs : s.Within r) {k : String}
    {h : Handle} (hl : s.stage.lacks? k = some h) : h ∈ (r.placement k).members := by
  have hstage := hs.stage
  cases hst : s.stage with
  | waiting w =>
    rw [hst] at hl hstage
    cases w with
    | listing source => cases hl
    | checking job member => cases hl
    | fetching job member =>
      rw [Sweep.Stage.lacks?] at hl
      split at hl
      · next hk =>
        obtain rfl := Option.some.inj hl
        exact hk ▸ hstage.2
      · cases hl
    | copying job member value =>
      rw [Sweep.Stage.lacks?] at hl
      split at hl
      · next hk =>
        obtain rfl := Option.some.inj hl
        exact hk ▸ hstage.2
      · cases hl
  | _ =>
    rw [hst] at hl
    cases hl

namespace SweepRun

variable {down : Finset NodeId} {c d : Cluster} {p : SweepRun × Cluster} {s : Sweep}
  {w : Sweep.Waiting} {q : Inquiry}

/-! ### What every event keeps -/

/-- A sweep under way in a steady cluster, seen from the cluster in which it has started. A replica
that it is about to fill lacks the key, so no value has been changed, and every copy counted has
filled a gap. -/
structure Underway (down : Finset NodeId) (c : Cluster) (p : SweepRun × Cluster) : Prop where
  steady : p.2.Steady down
  evolves : c.Evolves p.2
  within : p.1.sweep.Within c.ring
  sure : ∀ w q, p.1.sweep.stage = .waiting w → p.1.inquiry = some q → q.Sure down w.target
  lacking : ∀ k h, p.1.sweep.stage.lacks? k = some h → p.2.fleet.held h k = none
  kept : c.Keeps p.2
  filled : Counted (fun e : Handle × String => e.1 ∈ c.ring.membership.handles ∧
    c.fleet.held e.1 e.2 = none ∧ p.2.fleet.held e.1 e.2 ≠ none) p.1.sweep.report.copies

theorem underway_start (hc : c.Steady down) :
    Underway down c (⟨.start c.ring.membership, none⟩, c) where
  steady := hc
  evolves := .refl c
  within := ⟨fun _ hh => hh, trivial⟩
  sure _ _ hw _ := nomatch hw
  lacking _ _ hl := nomatch hl
  kept _ _ _ _ := rfl
  filled := .of_false fun _ h => h.2.2 h.2.1

theorem Underway.target_mem (h : Underway down c p) (hs : p.1.sweep.stage = .waiting w) :
    w.target ∈ p.2.ring.membership.handles := by
  rw [h.evolves.ring]
  exact h.within.target_mem (h.evolves.ring ▸ h.steady.sound) hs

theorem Underway.mem_of_lacks (h : Underway down c p) {k : String} {x : Handle}
    (hl : p.1.sweep.stage.lacks? k = some x) : x ∈ p.2.ring.membership.handles := by
  have hsound : c.ring.membership.Sound := h.evolves.ring ▸ h.steady.sound
  rw [h.evolves.ring]
  exact hsound.placement_subset (h.within.mem_of_lacks hl)

/-- An event that changes no data and counts no copy. -/
theorem Underway.of_same (h : Underway down c p) {p' : SweepRun × Cluster}
    (hst : p'.2.Steady down) (hev : p.2.Evolves p'.2)
    (hheld : ∀ x ∈ p.2.ring.membership.handles, ∀ k, p'.2.fleet.held x k = p.2.fleet.held x k)
    (hwithin : p'.1.sweep.Within c.ring)
    (hsure : ∀ w q, p'.1.sweep.stage = .waiting w → p'.1.inquiry = some q → q.Sure down w.target)
    (hlacking : ∀ k x, p'.1.sweep.stage.lacks? k = some x → p'.2.fleet.held x k = none)
    (hcopies : p'.1.sweep.report.copies = p.1.sweep.report.copies) :
    Underway down c p' ∧ p.2.Keeps p'.2 := by
  refine ⟨⟨hst, h.evolves.trans hev, hwithin, hsure, hlacking,
    h.kept.trans (.of_same hheld) h.evolves.ring, ?_⟩, .of_same hheld⟩
  rw [h.evolves.ring] at hheld
  rw [hcopies]
  exact h.filled.congr fun e => and_congr_right fun he => by rw [hheld e.1 he]

/-- An event that, besides, leaves no request and no replica about to be filled. -/
theorem Underway.of_same_idle (h : Underway down c p) {σ : Sweep} {d' : Cluster}
    (hst : d'.Steady down) (hev : p.2.Evolves d')
    (hheld : ∀ x ∈ p.2.ring.membership.handles, ∀ k, d'.fleet.held x k = p.2.fleet.held x k)
    (hwithin : σ.Within c.ring) (hfilled : ∀ k, σ.stage.lacks? k = none)
    (hcopies : σ.report.copies = p.1.sweep.report.copies) :
    Underway down c (⟨σ, none⟩, d') ∧ p.2.Keeps d' := by
  refine h.of_same hst hev hheld hwithin (fun _ q _ hq => ?_) (fun k x hl => ?_) hcopies
  · exact absurd hq.symm (Option.some_ne_none q)
  · exact absurd (hl.symm.trans (hfilled k)) (Option.some_ne_none x)

/-! ### One lemma for each kind of event -/

/-- At a boundary a sweep goes on at once. -/
theorem tickTold_boundary (hw : ∀ w, p.1.sweep.stage ≠ .waiting w) (told : Bool) :
    tickTold told p = (⟨(p.1.sweep.proceed p.2.ring told).1, none⟩,
      { p.2 with now := max p.2.now (p.1.wake p.2.now) }.report
        (p.1.sweep.proceed p.2.ring told).2) := by
  rw [tickTold, step]
  split
  · next w hw' => exact absurd hw' (hw w)
  · rfl

theorem proceed_copies (hw : ∀ w, s.stage ≠ .waiting w) (r : Ring) (told : Bool) :
    (s.proceed r told).1.report.copies = s.report.copies := by
  rcases Sweep.proceed_cases r told hw with ⟨source, key, keys, -, hproceed⟩ | ⟨-, ⟨c, hreport⟩, -⟩
  · rw [hproceed]
    rfl
  · rw [hreport]

/-- A boundary. -/
theorem Underway.boundary (h : Underway down c p) (hw : ∀ w, p.1.sweep.stage ≠ .waiting w) :
    Underway down c (tick p) ∧ p.2.Keeps (tick p).2 := by
  have hring : p.2.ring = c.ring := h.evolves.ring
  have hproceed := fun key => h.within.proceed hw false key
  rw [← hring] at hproceed
  rw [show tick p = _ from tickTold_boundary hw false]
  exact h.of_same_idle (h.steady.of_eq rfl rfl rfl) (.of_eq rfl rfl rfl) (fun _ _ _ => rfl)
    (hring ▸ (hproceed "").1) (fun k => (hproceed k).2) (proceed_copies hw p.2.ring false)

/-- A question. -/
theorem Underway.question (h : Underway down c (⟨s, none⟩, d)) (hs : s.stage = .waiting w) :
    Underway down c (tick (⟨s, none⟩, d)) ∧ d.Keeps (tick (⟨s, none⟩, d)).2 := by
  obtain ⟨q, d', htick, hsure, hst, hev, hsame⟩ := h.steady.asks hs (h.target_mem hs)
  have hheld : ∀ x ∈ d.ring.membership.handles, ∀ k, d'.fleet.held x k = d.fleet.held x k :=
    fun x hx k => by rw [Fleet.held, hsame x hx, Fleet.held]
  rw [htick]
  refine h.of_same hst hev hheld h.within (fun w' q' hw' hq' => ?_) (fun k x hl => ?_) rfl
  · obtain rfl : w = w' := Sweep.Stage.waiting.inj (hs.symm.trans hw')
    obtain rfl := Option.some.inj hq'
    exact hsure
  · exact (hheld x (h.mem_of_lacks hl) k).trans (h.lacking k x hl)

/-- A failure: nobody is about to be filled then. -/
theorem Underway.failure (h : Underway down c (⟨s, some q⟩, d)) (hs : s.stage = .waiting w)
    (hd : w.target.id ∈ down) :
    Underway down c (tick (⟨s, some q⟩, d)) ∧ d.Keeps (tick (⟨s, some q⟩, d)).2 := by
  obtain ⟨e, d', htick, hst, hev, hheld⟩ :=
    h.steady.hears_error hs (h.target_mem hs) hd (h.sure w q hs rfl)
  rw [htick]
  have hfailed : ∀ k, (s.resume w (.error e)).1.stage.lacks? k = none := by
    intro k
    cases w with
    | listing source => rfl
    | checking job member => exact job.next_lacks k
    | fetching job member => rfl
    | copying job member value => exact job.next_lacks k
  have hcopies : (s.resume w (.error e)).1.report.copies = s.report.copies := by
    cases w <;> rfl
  exact h.of_same_idle hst hev hheld (h.within.resume hs (.error e)) hfailed hcopies

/-- A copy that has been stored. It fills the gap that has been found before. -/
theorem Underway.copied {job : KeyRepair} {member : Handle} {value : String}
    (h : Underway down c (⟨s, some q⟩, d)) (hs : s.stage = .waiting (.copying job member value))
    {d' : Cluster} (hst : d'.Steady down) (hev : d.Evolves d')
    (hheld : ∀ x ∈ d.ring.membership.handles, ∀ k, d'.fleet.held x k =
      if x = member then (Request.set job.key value).effect k (d.fleet.held x k)
      else d.fleet.held x k) :
    Underway down c (⟨(s.resume (.copying job member value) (.ok ())).1, none⟩, d') ∧
      d.Keeps d' := by
  have hgap : d.fleet.held member job.key = none := by
    refine h.lacking job.key member ?_
    show s.stage.lacks? job.key = some member
    rw [hs]
    exact if_pos rfl
  have hmember : member ∈ d.ring.membership.handles := h.target_mem hs
  have hnew : ∀ x ∈ d.ring.membership.handles, ∀ k, d'.fleet.held x k =
      if x = member ∧ k = job.key then some value else d.fleet.held x k := by
    intro x hx k
    rw [hheld x hx k]
    show (if x = member then (if k = job.key then some value else d.fleet.held x k) else _) = _
    by_cases hxm : x = member <;> simp [hxm]
  have hkeeps : d.Keeps d' := by
    intro x hx k hk
    rw [hnew x hx k, if_neg]
    rintro ⟨rfl, rfl⟩
    exact hk hgap
  refine ⟨⟨hst, h.evolves.trans hev, h.within.resume hs (.ok ()), (fun _ _ _ hq => nomatch hq),
    fun k x hl => ?_, h.kept.trans hkeeps h.evolves.ring, ?_⟩, hkeeps⟩
  · have hnone : job.next.lacks? k = some x := hl
    rw [job.next_lacks k] at hnone
    cases hnone
  · rw [h.evolves.ring] at hmember hnew
    have hone : Counted (fun e : Handle × String => e = (member, job.key) ∧ True)
        (if True then 1 else 0) := Counted.one _ _
    have hbefore : c.fleet.held member job.key = none := by
      by_contra hsome
      exact hsome ((h.kept member hmember job.key hsome).symm.trans hgap)
    refine (h.filled.or hone ?_).congr fun e => ?_
    · rintro e he ⟨rfl, -⟩
      exact he.2.2 hgap
    · constructor
      · rintro (⟨he, hnone, hsome⟩ | ⟨rfl, -⟩)
        · refine ⟨he, hnone, ?_⟩
          rw [hnew e.1 he e.2]
          split
          · exact Option.some_ne_none value
          · exact hsome
        · refine ⟨hmember, hbefore, ?_⟩
          rw [hnew member hmember job.key, if_pos ⟨rfl, rfl⟩]
          exact Option.some_ne_none value
      · rintro ⟨he, hnone, hsome⟩
        rw [hnew e.1 he e.2] at hsome
        split at hsome
        · next heq => exact .inr ⟨Prod.ext heq.1 heq.2, trivial⟩
        · exact .inl ⟨he, hnone, hsome⟩

/-- An answer. -/
theorem Underway.answer (h : Underway down c (⟨s, some q⟩, d)) (hs : s.stage = .waiting w)
    (hd : w.target.id ∉ down) :
    Underway down c (tick (⟨s, some q⟩, d)) ∧ d.Keeps (tick (⟨s, some q⟩, d)).2 := by
  obtain ⟨reply, d', htick, hst, hev, hrep, hheld⟩ :=
    h.steady.hears_ok hs (h.target_mem hs) hd (h.sure w q hs rfl)
  have hwithin := h.within.resume hs (.ok reply)
  have hidle : ∀ w' q', (s.resume w (.ok reply)).1.stage = .waiting w' →
      (none : Option Inquiry) = some q' → q'.Sure down w'.target := fun _ _ _ hq => nomatch hq
  rw [htick]
  cases w with
  | listing source =>
    exact h.of_same_idle hst hev (fun x hx k => (hheld x hx k).trans (ite_self _)) hwithin
      (fun _ => rfl) rfl
  | checking job member =>
    have hsame : ∀ x ∈ d.ring.membership.handles, ∀ k, d'.fleet.held x k = d.fleet.held x k :=
      fun x hx k => (hheld x hx k).trans (ite_self _)
    cases reply with
    | some value => exact h.of_same_idle hst hev hsame hwithin job.next_lacks rfl
    | none =>
      -- the replica that is filled next is the one that has just been found to lack the key
      have hgap : d.fleet.held member job.key = none := hrep.symm
      have hlacks : ∀ k x, (s.resume (.checking job member) (.ok none)).1.stage.lacks? k = some x →
          d'.fleet.held x k = none := by
        intro k x hl
        have hlacks : (s.resume (.checking job member) (.ok none)).1.stage.lacks? k =
            if job.key = k then some member else none := by
          simp only [Sweep.resume]
          split <;> rfl
        rw [hlacks] at hl
        split at hl
        · next hk =>
          obtain rfl := Option.some.inj hl
          rw [← hk, hsame member (h.target_mem hs) job.key, hgap]
        · cases hl
      have hcopies : (s.resume (.checking job member) (.ok none)).1.report.copies =
          s.report.copies := by
        simp only [Sweep.resume]
        split <;> rfl
      exact h.of_same hst hev hsame hwithin hidle hlacks hcopies
  | fetching job member =>
    have hsame : ∀ x ∈ d.ring.membership.handles, ∀ k, d'.fleet.held x k = d.fleet.held x k :=
      fun x hx k => (hheld x hx k).trans (ite_self _)
    cases reply with
    | some value =>
      refine h.of_same hst hev hsame hwithin hidle (fun k x hl => ?_) rfl
      have hlacked : s.stage.lacks? k = some x := by
        rw [hs]
        exact hl
      exact (hsame x (h.mem_of_lacks hlacked) k).trans (h.lacking k x hlacked)
    | none => exact h.of_same_idle hst hev hsame hwithin (fun _ => rfl) rfl
  | copying job member value => exact h.copied hs hst hev hheld

/-- **One event.** A sweep goes on to be under way, and no value that is there changes. -/
theorem Underway.tick (h : Underway down c p) :
    Underway down c (tick p) ∧ p.2.Keeps (SweepRun.tick p).2 := by
  obtain ⟨⟨s, inquiry⟩, d⟩ := p
  by_cases hw : ∃ w, s.stage = .waiting w
  · obtain ⟨w, hs⟩ := hw
    cases inquiry with
    | none => exact h.question hs
    | some q =>
      by_cases hd : w.target.id ∈ down
      · exact h.failure hs hd
      · exact h.answer hs hd
  · exact h.boundary (not_exists.1 hw)

/-! ### All events -/

/-- Whether a sweep is told to stop at some event: at none of them. -/
abbrev untold : Nat → Bool := fun _ => false

/-- **All events.** A sweep that is not told to stop stays under way. -/
theorem Underway.after (h : Underway down c p) (n : Nat) :
    Underway down c (after untold p n) := by
  induction n with
  | zero => exact h
  | succ n ih => exact ih.tick.1

/-- From one event to a later one, no value that is there changes. -/
theorem Underway.keeps (h : Underway down c p) {b n : Nat} (hbn : b ≤ n) :
    (SweepRun.after untold p b).2.Keeps (SweepRun.after untold p n).2 := by
  induction hbn with
  | refl => exact .of_same fun _ _ _ => rfl
  | @step n hbn ih =>
    have hb := (h.after b).evolves.ring
    have hn := (h.after n).evolves.ring
    exact ih.trans (h.after n).tick.2 (hn.trans hb.symm)

/-- What a sweep gets to, it gets to after some number of events. -/
theorem Reaches.exists_after {q : SweepRun × Cluster} (h : Reaches p q) :
    ∃ n, SweepRun.after untold p n = q := by
  induction h with
  | refl => exact ⟨0, rfl⟩
  | tail _ hstep ih =>
    obtain ⟨n, rfl⟩ := ih
    exact ⟨n + 1, hstep.2⟩

end SweepRun

/-! ### From the middle of a sweep -/

/-- The first of several values is the same if some that were missing are filled in with it. -/
theorem findSome?_filled {α β : Type} {f g : α → Option β} {o : Option β} {l : List α}
    (h : ∀ a ∈ l, g a = f a ∨ f a = none ∧ g a = o) :
    l.findSome? g = l.findSome? f ∨ l.findSome? g = o := by
  induction l with
  | nil => exact .inl rfl
  | cons a l ih =>
    have ih := ih fun b hb => h b (List.mem_cons_of_mem _ hb)
    rw [List.findSome?_cons, List.findSome?_cons]
    rcases h a (List.mem_cons_self ..) with ha | ⟨hf, hg⟩
    · rw [ha]
      cases f a with
      | some v => exact .inl rfl
      | none => exact ih
    · rw [hf, hg]
      cases o with
      | some v => exact .inr rfl
      | none => exact ih

namespace Cluster

variable {down : Finset NodeId} {c c' d d' : Cluster}
  {nodes keys copies failures nodes' keys' copies' failures' : Nat}

/-- A cluster with some of the copies that a sweep makes, and with no other change of the data. -/
structure Partly (down : Finset NodeId) (c c' : Cluster) : Prop where
  ring : c'.ring = c.ring
  data : ∀ x ∈ c.ring.membership.handles, ∀ k, c'.fleet.held x k = c.fleet.held x k ∨
    c.fleet.held x k = none ∧ c.ring.Serves down x k ∧
      c'.fleet.held x k = c.offer down c.ring.membership.handles k

/-- What has been copied by some point of a sweep is what the sweep spreads: it stays until the
end, and there it is known. -/
theorem Passed.partly
    (h : c.Passed down c.ring.membership.handles d nodes keys copies failures)
    (hring : c'.ring = c.ring) (hkept : c.Keeps c') (hkeeps : c'.Keeps d) :
    c.Partly down c' := by
  refine ⟨hring, fun x hx k => ?_⟩
  by_cases hold : c.fleet.held x k = none
  · by_cases hnew : c'.fleet.held x k = none
    · exact .inl (hnew.trans hold.symm)
    · have hend : c'.fleet.held x k = if c.ring.Serves down x k then
          c.offer down c.ring.membership.handles k else none := by
        rw [← hkeeps x (by rwa [hring]) k hnew, h.data x hx k, hold, Option.none_or]
      by_cases hserves : c.ring.Serves down x k
      · exact .inr ⟨hold, hserves, hend.trans (if_pos hserves)⟩
      · exact absurd (hend.trans (if_neg hserves)) hnew
  · exact .inl (hkept x hx k hold)

/-- From the middle of a sweep, the values to be spread are the same. -/
theorem Partly.offer (h : c.Partly down c') (k : String) :
    c'.offer down c.ring.membership.handles k = c.offer down c.ring.membership.handles k := by
  have hgiven : ∀ a ∈ c.ring.membership.handles, c'.given down a k = c.given down a k ∨
      c.given down a k = none ∧
        c'.given down a k = c.offer down c.ring.membership.handles k := by
    intro a ha
    rw [given, given]
    split
    · exact .inl rfl
    · exact (h.data a ha k).imp_right fun hfilled => ⟨hfilled.1, hfilled.2.2⟩
  rcases findSome?_filled hgiven with hsame | hsame <;> exact hsame

/-- **Resuming.** A sweep from the middle of another one leads to the same data. -/
theorem Partly.resumed (h : c.Partly down c')
    (hwhole : c.Passed down c.ring.membership.handles d nodes keys copies failures)
    (hrest : c'.Passed down c.ring.membership.handles d' nodes' keys' copies' failures') :
    ∀ x ∈ c.ring.membership.handles, ∀ k, d'.fleet.held x k = d.fleet.held x k := by
  intro x hx k
  rw [hrest.data x (by rwa [h.ring]) k, hwhole.data x hx k, h.ring, h.offer k]
  rcases h.data x hx k with hsame | ⟨hold, hserves, hnew⟩
  · rw [hsame]
  · rw [hold, hnew, if_pos hserves, Option.none_or, Option.or_self]

/-- The copies made before and after that point are those of the whole sweep. -/
theorem Partly.copies_add (h : c.Partly down c')
    (hwhole : c.Passed down c.ring.membership.handles d nodes keys copies failures)
    (hrest : c'.Passed down c.ring.membership.handles d' nodes' keys' copies' failures') {n : Nat}
    (hn : Counted (fun e : Handle × String => e.1 ∈ c.ring.membership.handles ∧
      c.fleet.held e.1 e.2 = none ∧ c'.fleet.held e.1 e.2 ≠ none) n)
    (hsound : c.ring.membership.Sound) : n + copies' = copies := by
  refine ((hn.or hrest.copies ?_).congr fun e => ?_).unique hwhole.copies
  · intro e he he'
    exact he.2.2 he'.2.1
  · rw [h.ring, h.offer e.2]
    constructor
    · rintro (⟨hmem, hold, hnew⟩ | ⟨hserves, hgap, hoffer⟩)
      · rcases h.data e.1 hmem e.2 with hsame | ⟨-, hserves, hfilled⟩
        · exact absurd (hsame.trans hold) hnew
        · exact ⟨hserves, hold, fun hnone => hnew (hfilled.trans hnone)⟩
      · rcases h.data e.1 (hsound.placement_subset hserves.2) e.2 with hsame | ⟨hold, -, -⟩
        · exact ⟨hserves, hsame.symm.trans hgap, hoffer⟩
        · exact ⟨hserves, hold, hoffer⟩
    · rintro ⟨hserves, hold, hoffer⟩
      by_cases hnew : c'.fleet.held e.1 e.2 = none
      · exact .inr ⟨hserves, hnew, hoffer⟩
      · exact .inl ⟨hsound.placement_subset hserves.2, hold, hnew⟩

/-- A whole sweep comes to its end after some number of events. -/
theorem Steady.whole_sweep (hc : c.Steady down) :
    ∃ n nodes keys copies failures, ∃ d : Cluster,
      SweepRun.after SweepRun.untold (⟨.start c.ring.membership, none⟩, c) n =
        (⟨{ sources := [], stage := .finished,
            report := ⟨nodes, keys, copies, failures, 0, false⟩ }, none⟩, d) ∧
      c.Passed down c.ring.membership.handles d nodes keys copies failures := by
  obtain ⟨d, nodes, keys, copies, failures, hlead, hpassed⟩ :=
    hc.sweep_nodes (s := .start c.ring.membership) c.ring.membership.handles rfl rfl
      (fun x hx => hx) hc.sound.handles_ascend
  obtain ⟨n, hn⟩ := hlead.reaches.exists_after
  have hreport : (Sweep.start c.ring.membership).report.plus nodes keys copies failures =
      ⟨nodes, keys, copies, failures, 0, false⟩ := by
    show Report.plus {} nodes keys copies failures = _
    simp only [Report.plus, Nat.zero_add]
  rw [hreport] at hn
  exact ⟨n, nodes, keys, copies, failures, d, hn, hpassed⟩

end Cluster

end ReplicaRing
