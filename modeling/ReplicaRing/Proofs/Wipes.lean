import ReplicaRing.Proofs.FanOuts

/-!
# What a wipe comes to

A wipe asks all members one after the other, whatever they answer. A member that refuses keeps its
data and stops nobody else, and what the wipe is answered with is the first refusal there was.

* `Cluster.refusal?` — the error with which a node refuses to be cleared;
* `Cluster.storeAfter` — what a node holds once the nodes of a list have answered;
* `Cluster.Wiped` — a cluster in the course of a wipe, and `Wiped.asks`, `Wiped.hears` — the two
  ends of one request;
* `next_wiped`, `reaches_wiped` — the next request, and by induction all that are still ahead;
* `World.Wipes`, `World.performs_wipe` — what a wipe that runs alone comes to.
-/

namespace ReplicaRing

/-! ### One request -/

namespace Cluster

/-- The error with which a node refuses to be cleared, if it does. -/
def refusal? (c : Cluster) (h : Handle) : Option NodeError :=
  (c.fleet.fate c.env .clear h).verdict.error?

/-- A node either carries out a request to be cleared or refuses it. -/
def Honest (c : Cluster) (h : Handle) : Prop :=
  (c.fleet.fate c.env .clear h).verdict ≠ .pretend

/-- What the request to a node is answered with. -/
def reaction (c : Cluster) (h : Handle) : Except NodeError Unit :=
  match c.refusal? h with
  | some e => .error e
  | none => .ok ()

/-- The store of a node when the nodes of a list have answered. -/
def storeAfter (c : Cluster) (done : List Handle) (y : Handle) : Store :=
  if y ∈ done ∧ c.refusal? y = none then .empty else (c.fleet.node y).store

/-- A cluster in the course of a wipe: some nodes have been asked, and some of them have
answered. -/
structure Wiped (c : Cluster) (asked done : List Handle) (c' : Cluster) : Prop where
  ring : c'.ring = c.ring
  env : c'.env = c.env
  houses : ∀ y, c.fleet.Houses y → c'.fleet.Houses y
  untouched : ∀ y, c.fleet.Houses y → y ∉ asked → c'.fleet.node y = c.fleet.node y
  store : ∀ y, c.fleet.Houses y → (c'.fleet.node y).store = c.storeAfter done y

variable {c c' d : Cluster} {asked done : List Handle} {h y : Handle}

theorem refusal?_of_forward (hv : (c.fleet.fate c.env .clear h).verdict = .forward) :
    c.refusal? h = none := by
  rw [refusal?, hv]
  rfl

theorem refusal?_of_refuse {e : NodeError}
    (hv : (c.fleet.fate c.env .clear h).verdict = .refuse e) : c.refusal? h = some e := by
  rw [refusal?, hv]
  rfl

/-- Only the last node to answer may have lost its data. -/
theorem storeAfter_concat (c : Cluster) (done : List Handle) (h y : Handle) :
    c.storeAfter (done ++ [h]) y =
      if y = h ∧ c.refusal? h = none then .empty else c.storeAfter done y := by
  simp only [storeAfter, List.mem_append, List.mem_singleton]
  by_cases hy : y = h
  · subst hy
    by_cases hnone : c.refusal? y = none
    · simp [hnone]
    · simp [hnone]
  · simp [hy]

theorem storeAfter_refused {e : NodeError} (he : c.refusal? h = some e) (done : List Handle)
    (y : Handle) : c.storeAfter (done ++ [h]) y = c.storeAfter done y := by
  rw [storeAfter_concat, he, if_neg fun hnone => nomatch hnone.2]

namespace Wiped

theorem refl (c : Cluster) : c.Wiped [] [] c where
  ring := rfl
  env := rfl
  houses _ hy := hy
  untouched _ _ _ := rfl
  store _ _ := (if_neg fun hy => List.not_mem_nil hy.1).symm

/-- A new clock or log does not matter. -/
theorem of_eq (hw : c.Wiped asked done c') (hr : d.ring = c'.ring) (hl : d.env = c'.env)
    (hf : d.fleet = c'.fleet) : c.Wiped asked done d := by
  obtain ⟨h₁, h₂, h₃, h₄, h₅⟩ := hw
  constructor
  · exact hr.trans h₁
  · exact hl.trans h₂
  · rwa [hf]
  · rwa [hf]
  · rwa [hf]

/-- **The start of a request.** What becomes of it was settled when the wipe started. -/
theorem asks (hw : c.Wiped asked done c') (hh : c.fleet.Houses h) (hnot : h ∉ asked) :
    (c'.ask h .clear none).1.flight.target = h ∧
      (c'.ask h .clear none).1.flight.verdict = (c.fleet.fate c.env .clear h).verdict ∧
      (c'.ask h .clear none).1.expires = none ∧
      c.Wiped (asked ++ [h]) done (c'.ask h .clear none).2 := by
  have hhouse := hw.houses h hh
  have hfleet : (c'.ask h .clear none).2.fleet =
      (c'.fleet.launch c'.env c'.now h .clear).2 := rfl
  refine ⟨rfl, ?_, rfl, hw.ring, hw.env, fun y hy => ?_, fun y hy hnot' => ?_, fun y hy => ?_⟩
  · show ((c'.fleet.node h).begin c'.env .clear).1.verdict = _
    rw [hw.untouched h hh hnot, hw.env]
    rfl
  · exact Fleet.houses_replace ((Node.begin_id ..).trans hhouse.node_id) hhouse (hw.houses y hy)
  · rw [List.mem_append, List.mem_singleton, not_or] at hnot'
    rw [hfleet, Fleet.node_launch _ _ _ hhouse (hw.houses y hy), if_neg hnot'.2,
      hw.untouched y hy hnot'.1]
  · rw [hfleet, Fleet.store_launch _ _ _ hhouse (hw.houses y hy), hw.store y hy]

/-- A node that carries out the request loses its data. -/
theorem forwarded (hw : c.Wiped asked done c') (hh : c.fleet.Houses h) (hmem : h ∈ asked)
    (hgoes : c.refusal? h = none) (hr : d.ring = c'.ring) (hl : d.env = c'.env)
    (hf : d.fleet = (c'.fleet.conclude h .clear .forward).2.1) :
    c.Wiped asked (done ++ [h]) d := by
  have hhouse := hw.houses h hh
  refine ⟨hr.trans hw.ring, hl.trans hw.env, fun y hy => ?_, fun y hy hnot => ?_, fun y hy => ?_⟩
  · rw [hf]
    exact Fleet.houses_conclude .clear .forward hhouse (hw.houses y hy)
  · have hne : y ≠ h := fun he => hnot (he ▸ hmem)
    rw [hf, Fleet.node_conclude_forward .clear hhouse (hw.houses y hy), if_neg hne,
      hw.untouched y hy hnot]
  · rw [hf, Fleet.node_conclude_forward .clear hhouse (hw.houses y hy), storeAfter_concat]
    by_cases he : y = h
    · rw [if_pos he, if_pos ⟨he, hgoes⟩]
      rfl
    · rw [if_neg he, if_neg fun h' => he h'.1, hw.store y hy]

/-- A node that refuses keeps its data. -/
theorem refused (hw : c.Wiped asked done c') {e : NodeError} (he : c.refusal? h = some e) :
    c.Wiped asked (done ++ [h]) c' where
  ring := hw.ring
  env := hw.env
  houses := hw.houses
  untouched := hw.untouched
  store y hy := (hw.store y hy).trans (storeAfter_refused he done y).symm

/-- **The end of a request.** The node is cleared, or it refuses and keeps its data. -/
theorem hears (hw : c.Wiped asked done c') (hh : c.fleet.Houses h) (hhonest : c.Honest h)
    (hmem : h ∈ asked) {q : Inquiry} (htarget : q.flight.target = h)
    (hverdict : q.flight.verdict = (c.fleet.fate c.env .clear h).verdict)
    (hexpires : q.expires = none) :
    (c'.receive q .clear).1 = some (c.reaction h) ∧
      c.Wiped asked (done ++ [h]) (c'.receive q .clear).2 := by
  have harrives : q.arrives = true := by
    rw [Inquiry.arrives, hexpires]
    rfl
  rw [receive_of_arrives harrives, htarget, hverdict, reaction]
  cases hv : (c.fleet.fate c.env .clear h).verdict with
  | pretend => exact absurd hv hhonest
  | forward =>
    have hgoes := refusal?_of_forward hv
    rw [hgoes]
    exact ⟨rfl, hw.forwarded hh hmem hgoes rfl rfl rfl⟩
  | refuse e =>
    have hrefuses := refusal?_of_refuse hv
    rw [hrefuses]
    exact ⟨rfl, (hw.refused hrefuses).of_eq rfl rfl
      (Fleet.conclude_refuse (hw.houses h hh) .clear e)⟩

end Wiped

end Cluster

/-! ### All requests -/

/-- A wipe notes the first refusal. -/
theorem Wipe.answered_reaction (c : Cluster) (h : Handle) (ahead done : List Handle) :
    (Wipe.answered ⟨h :: ahead, done.findSome? c.refusal?⟩ h (c.reaction h)).1 =
      ⟨ahead, (done ++ [h]).findSome? c.refusal?⟩ := by
  rw [Cluster.reaction, List.findSome?_append, List.findSome?_cons]
  cases c.refusal? h with
  | none =>
    rw [List.findSome?_nil, Option.or_none]
    rfl
  | some e => cases done.findSome? c.refusal? <;> rfl

/-- The next event of a wipe: the node asked answers, and the next one is asked. -/
theorem WipeRun.step_reaction {c c' : Cluster} {h : Handle} {q : Inquiry}
    (htarget : q.flight.target = h) (hanswer : (c'.receive q .clear).1 = some (c.reaction h))
    (done ahead : List Handle) :
    ∃ events, WipeRun.step ⟨⟨h :: ahead, done.findSome? c.refusal?⟩, some q⟩ c' =
      (let next := ((c'.receive q .clear).2.report events).askHead ahead .clear none
       (⟨⟨ahead, (done ++ [h]).findSome? c.refusal?⟩, next.1⟩, next.2)) := by
  refine ⟨(Wipe.answered ⟨h :: ahead, done.findSome? c.refusal?⟩ h (c.reaction h)).2, ?_⟩
  simp only [WipeRun.step, hanswer, Option.getD_some, htarget, Wipe.answered_reaction]

namespace Scenario

/-- What a wipe is answered with, by the first refusal that it has noted. -/
def Answer.ofRefusal : Option NodeError → Answer
  | some e => .ringError (.node e)
  | none => .done

theorem Activity.ofWipe_nil (c : Cluster) (firstError : Option NodeError) (q? : Option Inquiry) :
    Activity.ofWipe c ⟨⟨[], firstError⟩, q?⟩ = (.answered c.now (.ofRefusal firstError), c) := by
  cases firstError <;> rfl

namespace World

variable {w : World}

/-- A wipe that is about to ask the next of the nodes ahead. -/
def wiping (w : World) (c c' : Cluster) (done ahead : List Handle) : Activity × World :=
  let q := c'.askHead ahead .clear none
  w.started (Activity.ofWipe q.2 ⟨⟨ahead, done.findSome? c.refusal?⟩, q.1⟩)

/-- **The next node.** It is asked, it answers, and the wipe is about to ask the one behind it. -/
theorem next_wiped (hl : w.loops = #[]) {c c' : Cluster} {done : List Handle} {h : Handle}
    (hwiped : c.Wiped done done c') (hnot : h ∉ done) (hh : c.fleet.Houses h) (hhonest : c.Honest h)
    (ahead : List Handle) :
    ∃ d, c.Wiped (done ++ [h]) (done ++ [h]) d ∧
      Next (w.wiping c c' done (h :: ahead)) (w.wiping c d (done ++ [h]) ahead) := by
  obtain ⟨htarget, hverdict, hexpires, hasked⟩ := hwiped.asks hh hnot
  let q := c'.ask h .clear none
  let run : WipeRun := ⟨⟨h :: ahead, done.findSome? c.refusal?⟩, some q.1⟩
  -- the clock goes on to the answer of the node
  let c₁ : Cluster := { q.2 with now := max q.2.now q.1.wake }
  have hlater : c.Wiped (done ++ [h]) done c₁ := hasked.of_eq rfl rfl rfl
  obtain ⟨hanswer, hheard⟩ := hlater.hears hh hhonest
    (List.mem_append_right done (List.mem_singleton_self h)) htarget hverdict hexpires
  obtain ⟨events, hstep⟩ := WipeRun.step_reaction (c := c) htarget hanswer done ahead
  refine ⟨(c₁.receive q.1 .clear).2.report events, hheard.of_eq rfl rfl rfl, hl, q.1.wake, rfl, ?_⟩
  show World.started _ (Activity.ofWipe (run.step c₁).2 (run.step c₁).1) = _
  rw [hstep]
  rfl

/-- **The nodes ahead.** A wipe asks each of them, and it is answered with the first refusal. The
induction is on the nodes ahead. -/
theorem reaches_wiped (hl : w.loops = #[]) {c c' : Cluster} {done ahead : List Handle}
    (hnodup : (done ++ ahead).Nodup) (hhouses : ∀ h ∈ ahead, c.fleet.Houses h)
    (hhonest : ∀ h ∈ ahead, c.Honest h) (hwiped : c.Wiped done done c') :
    ∃ t c'', c.Wiped (done ++ ahead) (done ++ ahead) c'' ∧
      Reaches (w.wiping c c' done ahead)
        (.answered t (.ofRefusal ((done ++ ahead).findSome? c.refusal?)),
          { w with cluster := c'' }) := by
  induction ahead generalizing c' done with
  | nil =>
    rw [List.append_nil]
    refine ⟨c'.now, c', hwiped, ?_⟩
    rw [wiping, Cluster.askHead, Activity.ofWipe_nil]
    exact .refl
  | cons h ahead ih =>
    have hmem := List.mem_cons_self (a := h) (l := ahead)
    have hnot : h ∉ done := fun hdone =>
      (List.nodup_append.1 hnodup).2.2 h hdone h hmem rfl
    obtain ⟨d, hheard, hnext⟩ := next_wiped hl hwiped hnot (hhouses h hmem) (hhonest h hmem) ahead
    rw [List.append_cons] at hnodup ⊢
    obtain ⟨t, c'', hlast, hreach⟩ := ih hnodup
      (fun x hx => hhouses x (List.mem_cons_of_mem h hx))
      (fun x hx => hhonest x (List.mem_cons_of_mem h hx)) hheard
    exact ⟨t, c'', hlast, .head hnext hreach⟩

/-! ### A wipe that runs alone -/

/-- **Wipes.** A wipe that is all that goes on asks all members and is answered with the first
refusal. -/
theorem performs_wipe (hring : w.hasRing = true) (hl : w.loops = #[])
    (hsound : w.cluster.ring.membership.Sound)
    (hhouses : ∀ h ∈ w.cluster.ring.membership.handles, w.cluster.fleet.Houses h)
    (hhonest : ∀ h ∈ w.cluster.ring.membership.handles, w.cluster.Honest h) :
    let ms := w.cluster.ring.membership.handles
    ∃ c', w.cluster.Wiped ms ms c' ∧
      w.Performs .clear (.ofRefusal (ms.findSome? w.cluster.refusal?))
        (settled { w with cluster := c' }) := by
  intro ms
  have hstart : w.cluster.Wiped [] [] w.cluster := .refl _
  obtain ⟨t, c', hwiped, hreach⟩ := reaches_wiped (w := w) hl hsound.handles_nodup hhouses hhonest
    hstart
  have hbegin : w.begin .clear = w.wiping w.cluster w.cluster [] ms := begin_of_hasRing hring _
  exact ⟨c', hwiped, performs_of_reaches hl (hbegin ▸ hreach)⟩

/-- What a wipe comes to: every member that does not refuse has lost its data, all other nodes have
kept theirs, the ring is as it was, and the answer is the refusal of the lowest member that has
refused, if one has. -/
structure Wipes (w : World) (x : Answer) (w' : World) : Prop where
  ring : w'.cluster.ring = w.cluster.ring
  cleared : ∀ h ∈ w.cluster.ring.membership.handles, w.cluster.refusal? h = none →
    (w'.cluster.fleet.node h).store = .empty
  kept : ∀ y, w.cluster.fleet.Houses y →
    (y ∈ w.cluster.ring.membership.handles → w.cluster.refusal? y ≠ none) →
    (w'.cluster.fleet.node y).store = (w.cluster.fleet.node y).store
  done_iff : x = .done ↔ ∀ h ∈ w.cluster.ring.membership.handles, w.cluster.refusal? h = none
  error : x ≠ .done → ∃ h ∈ w.cluster.ring.membership.handles, ∃ e,
    w.cluster.refusal? h = some e ∧ x = .ringError (.node e) ∧
    ∀ g ∈ w.cluster.ring.membership.handles, w.cluster.refusal? g ≠ none → h.id ≤ g.id

/-- A cluster after a wipe tells what the wipe has come to. -/
theorem wipes_of_wiped {c' : Cluster} (hsound : w.cluster.ring.membership.Sound)
    (hhouses : ∀ h ∈ w.cluster.ring.membership.handles, w.cluster.fleet.Houses h)
    (hw : w.cluster.Wiped w.cluster.ring.membership.handles w.cluster.ring.membership.handles c') :
    w.Wipes (.ofRefusal (w.cluster.ring.membership.handles.findSome? w.cluster.refusal?))
      (settled { w with cluster := c' }) where
  ring := hw.ring
  cleared h hh hnone := (hw.store h (hhouses h hh)).trans (if_pos ⟨hh, hnone⟩)
  kept y hy hrefuses := (hw.store y hy).trans (if_neg fun h => hrefuses h.1 h.2)
  done_iff := by
    rw [← List.findSome?_eq_none_iff]
    cases w.cluster.ring.membership.handles.findSome? w.cluster.refusal? with
    | none => exact iff_of_true rfl rfl
    | some e => exact iff_of_false (fun h => nomatch h) (fun h => nomatch h)
  error := by
    cases hfirst : w.cluster.ring.membership.handles.findSome? w.cluster.refusal? with
    | none => exact fun h => absurd rfl h
    | some e =>
      obtain ⟨h, hh, he, hlowest⟩ := hsound.lowest_of_findSome? hfirst
      exact fun _ => ⟨h, hh, e, he, rfl, hlowest⟩

end World

end Scenario

end ReplicaRing
