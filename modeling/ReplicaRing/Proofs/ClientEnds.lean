import ReplicaRing.Proofs.ClientEvents
import ReplicaRing.Proofs.SoloEvents

/-!
# Operations of clients come to their end

A write, a read or a wipe that runs alone is answered after finitely many events, whatever the nodes
do: each event ends a request, and none comes back.

* `ends_ofWrite` — writes, by the requests in flight;
* `ends_ofRead`, `ends_ofWipe` — reads and wipes, by the nodes still to be asked.
-/

namespace ReplicaRing.Scenario

namespace World

variable {w : World}

/-- **Writes come to their end.** The induction is on the requests in flight, of which each event
ends one or all. -/
theorem ends_ofWrite (hl : w.loops = #[]) (c : Cluster) (run : Write) (client : Bool) :
    Ends (w.started (Activity.ofWrite c run client)) := by
  have hempty : ∀ (c : Cluster) (run : Write), run.flights = [] →
      Ends (w.started (Activity.ofWrite c run client)) := by
    intro c run hnone
    have hdone : run.isDone = true := List.isEmpty_iff.2 hnone
    rw [Activity.ofWrite, if_pos hdone]
    split
    · exact ends_answered _ _ _
    · exact ends_answered _ _ _
  induction hflights : run.flights generalizing c run with
  | nil => exact hempty c run hflights
  | cons q flights ih =>
    have hmore : ¬ run.isDone = true := by
      rw [Write.isDone, hflights]
      exact Bool.false_ne_true
    rw [Activity.ofWrite, if_neg hmore]
    let c₁ : Cluster := { c with now := max c.now run.wake }
    refine .of_next (q := w.started (Activity.ofWrite
      (Cluster.report { c₁ with fleet := (run.step c₁.fleet).2.1 } (run.step c₁.fleet).2.2)
      (run.step c₁.fleet).1 client)) ⟨hl, run.wake, rfl, rfl⟩ ?_
    by_cases hdue : q.due ≤ run.deadline
    · refine ih _ _ ?_
      simp only [Write.step, hflights, hdue, if_true]
    · refine hempty _ _ ?_
      simp only [Write.step, hflights, hdue, if_false]

/-- What a read hears ends it or takes one node off the list. -/
theorem hear_ahead_cases (run : ReadRun) (member : Handle)
    (answer? : Option (Request.get run.read.key).Answer) :
    (run.hear member answer?).ahead = [] ∨
      (run.hear member answer?).ahead = run.read.ahead.tail := by
  rcases answer? with _ | (e | (_ | value))
  · exact .inl rfl
  · exact .inr rfl
  · exact .inr rfl
  · exact .inl rfl

theorem askHead_ne_none {c : Cluster} {ahead : List Handle} (h : ahead ≠ []) (r : Request)
    (expires : Option Instant) : (c.askHead ahead r expires).1 ≠ none := by
  obtain ⟨x, rest, rfl⟩ := List.exists_cons_of_ne_nil h
  exact Option.some_ne_none _

/-- **Reads come to their end.** The induction is on the nodes still to be asked. -/
theorem ends_ofRead (hl : w.loops = #[]) (c : Cluster) (run : ReadRun) (primary : Option NodeId)
    (client : Bool) (hasked : run.read.ahead ≠ [] → run.inquiry ≠ none) :
    Ends (w.started (Activity.ofRead c run primary client)) := by
  have hempty : ∀ (c : Cluster) (run : ReadRun), run.read.ahead = [] →
      Ends (w.started (Activity.ofRead c run primary client)) := by
    intro c run hnone
    have hdone : run.read.isDone = true := List.isEmpty_iff.2 hnone
    rw [Activity.ofRead, if_pos hdone]
    split
    · exact ends_answered _ _ _
    · exact ends_answered _ _ _
  induction hahead : run.read.ahead generalizing c run with
  | nil => exact hempty c run hahead
  | cons h ahead ih =>
    obtain ⟨q, hq⟩ := Option.ne_none_iff_exists'.1 (hasked (hahead ▸ List.cons_ne_nil h ahead))
    have hmore : ¬ run.read.isDone = true := by
      rw [Read.isDone, hahead]
      exact Bool.false_ne_true
    have hwake : Activity.wake? c.now #[] (.read run primary client) = some q.wake := by
      rw [Activity.wake?, hq]
      rfl
    rw [Activity.ofRead, if_neg hmore]
    let c₁ : Cluster := { c with now := max c.now q.wake }
    refine .of_next
      (q := w.started (Activity.ofRead (run.step c₁).2 (run.step c₁).1 primary client))
      ⟨hl, q.wake, hwake, rfl⟩ ?_
    let read := run.hear q.flight.target (c₁.receive q (.get run.read.key)).1
    have hread : (run.step c₁).1.read = read := by
      simp only [ReadRun.step, hq]
      rfl
    have hnext : (run.step c₁).1.read.ahead ≠ [] → (run.step c₁).1.inquiry ≠ none := by
      rw [hread]
      intro hne
      simp only [ReadRun.step, hq]
      exact askHead_ne_none hne _ _
    obtain hnone | htail := hear_ahead_cases run q.flight.target
      (c₁.receive q (.get run.read.key)).1
    · exact hempty _ _ ((congrArg Read.ahead hread).trans hnone)
    · refine ih _ _ hnext ?_
      rw [hread, htail, hahead]
      rfl

/-- **Wipes come to their end.** The induction is on the nodes still to be asked. -/
theorem ends_ofWipe (hl : w.loops = #[]) (c : Cluster) (run : WipeRun)
    (hasked : run.wipe.ahead ≠ [] → run.inquiry ≠ none) :
    Ends (w.started (Activity.ofWipe c run)) := by
  induction hahead : run.wipe.ahead generalizing c run with
  | nil =>
    have hdone : run.wipe.isDone = true := List.isEmpty_iff.2 hahead
    rw [Activity.ofWipe, if_pos hdone]
    split
    · exact ends_answered _ _ _
    · exact ends_answered _ _ _
  | cons h ahead ih =>
    obtain ⟨q, hq⟩ := Option.ne_none_iff_exists'.1 (hasked (hahead ▸ List.cons_ne_nil h ahead))
    have hmore : ¬ run.wipe.isDone = true := by
      rw [Wipe.isDone, hahead]
      exact Bool.false_ne_true
    have hwake : Activity.wake? c.now #[] (.wipe run) = some q.wake := by
      rw [Activity.wake?, hq]
      rfl
    rw [Activity.ofWipe, if_neg hmore]
    let c₁ : Cluster := { c with now := max c.now q.wake }
    refine .of_next (q := w.started (Activity.ofWipe (run.step c₁).2 (run.step c₁).1))
      ⟨hl, q.wake, hwake, rfl⟩ ?_
    have htail : (run.step c₁).1.wipe.ahead = ahead := by
      have hanswered : ∀ answer, (run.wipe.answered q.flight.target answer).1.ahead = ahead := by
        intro answer
        cases answer with
        | ok reply => exact congrArg List.tail hahead
        | error e => exact congrArg List.tail hahead
      simp only [WipeRun.step, hq]
      exact hanswered _
    refine ih _ _ (fun hne => ?_) htail
    simp only [WipeRun.step, hq] at hne ⊢
    exact askHead_ne_none hne _ _

end World

end ReplicaRing.Scenario
