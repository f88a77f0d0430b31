import ReplicaRing.Proofs.PlainStart

/-!
# Runs of operations

Operations that are performed one after the other, and how much the membership has changed since
the last sweep.

* `orBreaks` — the answer to a client, whose operation may break off;
* `World.after`, `World.answerTo` — the world after a run, and the answer to one more operation;
* `World.churn` — the nodes added and dropped since the last complete sweep of a run;
* `after_concat`, `churn_concat` — one more operation at the end of a run.
-/

namespace ReplicaRing.Scenario

/-- The answer to an operation of a client, which breaks off if the clock cannot tell its
deadline. -/
def orBreaks (o : RingOptions) (timeout : Option Duration) (x : Answer) : Result :=
  .one (if (o.limit timeout).fits then x else .overflow .deadline)

section

variable {o : RingOptions} {timeout : Option Duration} {x : Answer}

theorem orBreaks_of_fits (h : (o.limit timeout).fits = true) : orBreaks o timeout x = .one x := by
  rw [orBreaks, if_pos h]

theorem orBreaks_of_not (h : (o.limit timeout).fits = false) :
    orBreaks o timeout x = .one (.overflow .deadline) := by
  rw [orBreaks, h]
  rfl

end

/-- How many nodes have been added and dropped. -/
structure Churn where
  adds : Nat := 0
  drops : Nat := 0

/-- Count an operation by its answer. A complete sweep starts the count anew. -/
def Churn.count (c : Churn) : Op → Result → Churn
  | .repair _, .one (.report r _) => if r.cancelled then c else {}
  | .drop _, .one (.dropped _) => { c with drops := c.drops + 1 }
  | .dropRandom, .one .droppedRandom => { c with drops := c.drops + 1 }
  | .add _, .one .done => { c with adds := c.adds + 1 }
  | .addAgain _, .one .done => { c with adds := c.adds + 1 }
  | .addRandom, .one (.addedRandom _) => { c with adds := c.adds + 1 }
  | _, _ => c

/-- An operation on a ring of nodes without faults. -/
def Op.OnMemory : Op → Prop
  | .add n => n.IsMemory
  | .put _ _ _ | .get _ _ | .delete _ _ | .clear | .repair _ | .addAgain _ | .addRandom
  | .drop _ | .dropRandom => True
  | _ => False

/-- Whether an operation drops a node. -/
def Op.isDrop : Op → Bool
  | .drop _ | .dropRandom => true
  | _ => false

/-- Whether an operation adds a node. -/
def Op.isAdd : Op → Bool
  | .add _ | .addAgain _ | .addRandom => true
  | _ => false

namespace World

/-- The answer to an operation. -/
def answerTo (w : World) (op : Op) : Result := (w.performStep (.single op)).1.result

/-- The world after operations that are performed one after the other. -/
def after (w : World) (ops : List Op) : World := (w.performAll (ops.map .single)).2

/-- The churn of operations that are performed one after the other, on top of an earlier one. -/
def churnFrom (c : Churn) (w : World) : List Op → Churn
  | [] => c
  | op :: ops => churnFrom (c.count op (w.answerTo op)) (w.performStep (.single op)).2 ops

/-- The churn since the last complete sweep of a run, or since its start. -/
def churn (w : World) (ops : List Op) : Churn := churnFrom {} w ops

theorem after_concat (w : World) (ops : List Op) (op : Op) :
    w.after (ops ++ [op]) = ((w.after ops).performStep (.single op)).2 := by
  induction ops generalizing w with
  | nil => rfl
  | cons o ops ih => exact ih (w.performStep (.single o)).2

theorem churnFrom_concat (c : Churn) (w : World) (ops : List Op) (op : Op) :
    churnFrom c w (ops ++ [op]) = (churnFrom c w ops).count op ((w.after ops).answerTo op) := by
  induction ops generalizing w c with
  | nil => rfl
  | cons o ops ih => exact ih _ (w.performStep (.single o)).2

theorem churn_concat (w : World) (ops : List Op) (op : Op) :
    w.churn (ops ++ [op]) = (w.churn ops).count op ((w.after ops).answerTo op) :=
  churnFrom_concat {} w ops op

/-- What is true of the answer and the world that an operation leaves. -/
theorem Performs.elim {w w' : World} {op : Op} {x : Answer} {P : Result → World → Prop}
    (h : w.Performs op x w') (hP : P (.one x) w') :
    P (w.answerTo op) (w.performStep (.single op)).2 := by
  obtain ⟨hresult, rfl⟩ := h
  rw [answerTo, hresult]
  exact hP

/-- An operation leaves a plain world and the options of the ring. -/
def KeepsPlain (w : World) (op : Op) : Prop :=
  (w.performStep (.single op)).2.Plain ∧
    (w.performStep (.single op)).2.cluster.ring.options = w.cluster.ring.options

theorem Acts.keepsPlain {w w' : World} {op : Op} {x : Answer}
    {effect : Handle → String → Option String → Option String} (h : w.Acts op x effect w') :
    w.KeepsPlain op := by
  rw [KeepsPlain, h.performs.world]
  exact ⟨h.plain, congrArg Ring.options h.ring⟩

theorem Joins.keepsPlain {w w' : World} {op : Op} {x : Answer} {a : Handle} {s : Store}
    (h : w.Joins op x a s w') : w.KeepsPlain op := by
  rw [KeepsPlain, h.performs.world]
  exact ⟨h.plain, h.options⟩

theorem Leaves.keepsPlain {w w' : World} {op : Op} {x : Answer} {id : NodeId}
    (h : w.Leaves op x id w') : w.KeepsPlain op := by
  rw [KeepsPlain, h.performs.world]
  exact ⟨h.plain, h.options⟩

/-- Operations on nodes without faults keep a world plain. -/
theorem Plain.step {w : World} (hw : w.Plain) {op : Op} (hop : op.OnMemory) :
    w.KeepsPlain op := by
  cases op with
  | put key value timeout =>
    obtain ⟨-, w', ha⟩ | ⟨-, w', ha⟩ := change_cases hw (.put value) key timeout
    · exact ha.keepsPlain
    · exact Acts.keepsPlain ha
  | delete key timeout =>
    obtain ⟨-, w', ha⟩ | ⟨-, w', ha⟩ := change_cases hw .delete key timeout
    · exact ha.keepsPlain
    · exact Acts.keepsPlain ha
  | get key timeout =>
    obtain ⟨-, w', ha⟩ | ⟨-, w', ha⟩ := get_cases hw key timeout
    · exact Acts.keepsPlain ha
    · exact Acts.keepsPlain ha
  | clear =>
    obtain ⟨w', ha⟩ := acts_clear hw
    exact ha.keepsPlain
  | repair cancelAfter =>
    obtain ⟨r, told, w', -, ha⟩ | ⟨r, told, w', -, -, ha⟩ := acts_repair hw cancelAfter
    · exact ha.keepsPlain
    · exact ha.keepsPlain
  | add n =>
    obtain ⟨e, w', ha⟩ | ⟨a, w', -, hj⟩ := add_cases hw hop
    · exact Acts.keepsPlain ha
    · exact hj.keepsPlain
  | addAgain id =>
    obtain ⟨x, w', ha, -⟩ | ⟨a, w', -, hj⟩ := addAgain_cases hw id
    · exact Acts.keepsPlain ha
    · exact hj.keepsPlain
  | addRandom =>
    obtain ⟨x, w', ha, -⟩ | ⟨a, b, w', hj⟩ := addRandom_cases hw
    · exact Acts.keepsPlain ha
    · exact hj.keepsPlain
  | drop id =>
    obtain ⟨e, w', ha⟩ | ⟨w', hl⟩ := drop_cases hw id
    · exact Acts.keepsPlain ha
    · exact hl.keepsPlain
  | dropRandom =>
    obtain ⟨x, w', ha, -⟩ | ⟨id, w', hl⟩ := dropRandom_cases hw
    · exact Acts.keepsPlain ha
    · exact hl.keepsPlain
  | _ => exact hop.elim

/-- A plain world stays plain in the course of such operations. -/
theorem Plain.after {w : World} (hw : w.Plain) {ops : List Op} (hops : ∀ op ∈ ops, op.OnMemory) :
    (w.after ops).Plain ∧ (w.after ops).cluster.ring.options = w.cluster.ring.options := by
  induction ops generalizing w with
  | nil => exact ⟨hw, rfl⟩
  | cons op ops ih =>
    obtain ⟨hplain, hoptions⟩ := hw.step (hops op (List.mem_cons_self ..))
    obtain ⟨hplain', hoptions'⟩ := ih hplain fun o ho => hops o (List.mem_cons_of_mem _ ho)
    exact ⟨hplain', hoptions'.trans hoptions⟩

/-- No more nodes have been dropped than operations to drop one were there. -/
theorem churnFrom_drops_le (c : Churn) (w : World) (ops : List Op) :
    (churnFrom c w ops).drops ≤ c.drops + ops.countP Op.isDrop := by
  induction ops generalizing w c with
  | nil => exact Nat.le_refl _
  | cons op ops ih =>
    have hone : (c.count op (w.answerTo op)).drops ≤ c.drops + if op.isDrop then 1 else 0 := by
      unfold Churn.count
      split <;> simp [Op.isDrop]
      split <;> simp
    have hrest := ih (c.count op (w.answerTo op)) (w.performStep (.single op)).2
    rw [List.countP_cons]
    exact hrest.trans (by omega)

theorem churn_drops_le {w : World} {pre ops : List Op} (h : pre <+: ops) :
    (w.churn pre).drops ≤ ops.countP Op.isDrop :=
  (churnFrom_drops_le {} w pre).trans (by simpa using h.sublist.countP_le)

theorem churnFrom_adds_le (c : Churn) (w : World) (ops : List Op) :
    (churnFrom c w ops).adds ≤ c.adds + ops.countP Op.isAdd := by
  induction ops generalizing w c with
  | nil => exact Nat.le_refl _
  | cons op ops ih =>
    have hone : (c.count op (w.answerTo op)).adds ≤ c.adds + if op.isAdd then 1 else 0 := by
      unfold Churn.count
      split <;> simp [Op.isAdd]
      split <;> simp
    have hrest := ih (c.count op (w.answerTo op)) (w.performStep (.single op)).2
    rw [List.countP_cons]
    exact hrest.trans (by omega)

theorem churn_adds_le {w : World} {pre ops : List Op} (h : pre <+: ops) :
    (w.churn pre).adds ≤ ops.countP Op.isAdd :=
  (churnFrom_adds_le {} w pre).trans (by simpa using h.sublist.countP_le)

theorem prefix_of_concat {pre ops : List Op} {op : Op} (h : pre ++ [op] <+: ops) :
    pre <+: ops ∧ op ∈ ops :=
  ⟨(List.prefix_append pre [op]).trans h,
    h.subset (List.mem_append_right pre (List.mem_singleton_self op))⟩

/-- What holds at the start of a run and is kept by every operation of it holds all along. -/
theorem run_induction {w : World} {P : List Op → World → Prop} {ops : List Op} (hstart : P [] w)
    (hstep : ∀ pre op, pre ++ [op] <+: ops → P pre (w.after pre) →
      P (pre ++ [op]) ((w.after pre).performStep (.single op)).2) :
    ∀ pre, pre <+: ops → P pre (w.after pre) := by
  intro pre hpre
  induction pre using List.reverseRecOn with
  | nil => exact hstart
  | append_singleton pre op ih =>
    rw [after_concat]
    exact hstep pre op hpre (ih (prefix_of_concat hpre).1)

end World

end ReplicaRing.Scenario
