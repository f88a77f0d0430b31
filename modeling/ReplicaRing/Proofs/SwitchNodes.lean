import ReplicaRing.Cluster
import ReplicaRing.Proofs.Fleet

/-!
# Nodes that are up or down

A node without delays either refuses every request at once or answers it from its store at once. A
request to it is decided by who the node is and how its faults stand, and changes at most its data.

* `Faults.IsSwitch`, `Node.IsSwitch`, `Fleet.Switches` — such nodes;
* `Fleet.frame` — identities and faults of all nodes;
* `Fleet.column` — what all nodes hold under one key;
* `launch_switch` — the start of a request changes nothing;
* `frame_conclude`, `column_conclude` — its end changes no frame, and a column as the request says;
* `Request.Concerns`, `Request.Elsewhere` — requests about one key, and requests about others;
* `conclude_eq_of_alike` — fleets that look alike under a key answer requests about it alike.
-/

namespace ReplicaRing

/-- Faults that delay nothing: they refuse all requests or none. -/
def Faults.IsSwitch : Faults → Prop
  | .none => True
  | .injected i => i.latency = .zero ∧ i.jitter = .zero ∧ i.odds = .never
  | .scripted _ _ => False

namespace Node

/-- A node that is up or down, with its data in a map. -/
structure IsSwitch (n : Node) : Prop where
  faults : n.faults.IsSwitch
  sorted : n.store.Sorted

/-- What a node that is up or down makes of a request. -/
def verdict (n : Node) : Verdict := if n.isDown then .refuse (.unavailable n.id) else .forward

variable {n : Node}

/-- The start of a request to a node that is up or down takes no time and changes nothing. -/
theorem IsSwitch.begin (h : n.IsSwitch) (env : Env) (r : Request) :
    n.begin env r = (⟨.zero, n.verdict⟩, n) := by
  have hfaults := h.faults
  rw [Node.begin, verdict, isDown]
  cases hf : n.faults with
  | none => rfl
  | injected i =>
    rw [hf] at hfaults
    obtain ⟨hlatency, hjitter, hodds⟩ := hfaults
    have hfate : i.fate n.id env =
        ⟨.zero, if i.down then .refuse (.unavailable n.id) else .forward⟩ := by
      rw [Injection.fate, hlatency, hjitter, hodds]
      cases i.down with
      | true => rfl
      | false =>
        have hdelay : Duration.zero + .ofMillis (min env.extra (Duration.zero.nanos / 1000000)) =
            .zero := by simp [Duration.zero, Duration.ofMillis, Duration.ext_iff]
        simp [FailureOdds.strike, hdelay]
    simp only [hfate]
  | scripted rules phantoms =>
    rw [hf] at hfaults
    exact hfaults.elim

theorem IsSwitch.withStore (h : n.IsSwitch) {s : Store} (hs : s.Sorted) :
    IsSwitch { n with store := s } := ⟨h.faults, hs⟩

theorem IsSwitch.mapInjection (h : n.IsSwitch) {change : Injection → Injection}
    (hchange : ∀ i, (change i).latency = i.latency ∧ (change i).jitter = i.jitter ∧
      (change i).odds = i.odds) : (n.mapInjection change).IsSwitch := by
  have hfaults := h.faults
  rw [Node.mapInjection]
  cases hf : n.faults with
  | none => exact h
  | injected i =>
    obtain ⟨hlatency, hjitter, hodds⟩ := hchange i
    rw [hf, Faults.IsSwitch, ← hlatency, ← hjitter, ← hodds] at hfaults
    exact ⟨hfaults, h.sorted⟩
  | scripted rules phantoms =>
    rw [hf] at hfaults
    exact hfaults.elim

/-- How the faults stand after a change depends on how they stood before. -/
theorem mapInjection_faults {n n' : Node} (h : n.faults = n'.faults)
    (change : Injection → Injection) :
    (n.mapInjection change).faults = (n'.mapInjection change).faults := by
  unfold mapInjection
  rw [h]
  cases hf : n'.faults with
  | injected i => rfl
  | none => rw [h, hf]
  | scripted rules phantoms => rw [h, hf]

end Node

/-! ### Fleets -/

namespace Fleet

variable {f f' : Fleet} {h : Handle} {n : Node} {k : String}

/-- All nodes are up or down. -/
def Switches (f : Fleet) : Prop := ∀ n ∈ f.nodes, n.IsSwitch

theorem Switches.node (hf : f.Switches) (h : Handle) : (f.node h).IsSwitch := by
  rw [Fleet.node, Array.getD_eq_getD_getElem?]
  cases hn : f.nodes[h.slot]? with
  | none => exact ⟨trivial, List.Pairwise.nil⟩
  | some n => exact hf n (Array.mem_of_getElem? hn)

theorem Switches.replace (hf : f.Switches) (hn : n.IsSwitch) : (f.replace h n).Switches := by
  intro n' hn'
  rcases mem_replace hn' with rfl | hn'
  · exact hn
  · exact hf n' hn'

theorem Switches.push (hf : f.Switches) (hn : n.IsSwitch) : (f.enlist n).2.Switches := by
  intro n' hn'
  rcases Array.mem_push.1 hn' with hn' | rfl
  · exact hf n' hn'
  · exact hn

/-- A node that is replaced by itself. -/
theorem replace_self (f : Fleet) (h : Handle) : f.replace h (f.node h) = f := by
  rw [replace]
  congr 1
  refine Array.ext_getElem? fun i => ?_
  rw [Array.getElem?_setIfInBounds]
  split
  · next hs =>
    subst hs
    split
    · next hlt => rw [node, Array.getD_eq_getD_getElem?, Array.getElem?_eq_getElem hlt]; rfl
    · next hge => rw [Array.getElem?_eq_none (Nat.not_lt.1 hge)]
  · rfl

/-- The start of a request takes no time and changes nothing. -/
theorem launch_switch (hf : f.Switches) (env : Env) (now : Instant) (h : Handle) (r : Request) :
    f.launch env now h r = (⟨h, now, (f.node h).verdict⟩, f) := by
  have hbegin : f.begin env h r = (⟨.zero, (f.node h).verdict⟩, f) := by
    rw [begin, (hf.node h).begin]
    exact congrArg (Prod.mk _) (f.replace_self h)
  rw [launch, hbegin]
  simp

/-! ### Frames and columns -/

/-- Identities and faults of all nodes, by slot. -/
def frame (f : Fleet) : Array (NodeId × Faults) := f.nodes.map fun n => (n.id, n.faults)

/-- What all nodes hold under a key, by slot. -/
def column (f : Fleet) (k : String) : Array (Option String) :=
  f.nodes.map fun n => n.store.find? k

theorem frame_replace (f : Fleet) (h : Handle) (n : Node) :
    (f.replace h n).frame = f.frame.setIfInBounds h.slot (n.id, n.faults) :=
  Array.map_setIfInBounds

theorem column_replace (f : Fleet) (h : Handle) (n : Node) (k : String) :
    (f.replace h n).column k = (f.column k).setIfInBounds h.slot (n.store.find? k) :=
  Array.map_setIfInBounds

theorem frame_push (f : Fleet) (n : Node) :
    (f.enlist n).2.frame = f.frame.push (n.id, n.faults) := Array.map_push

theorem column_push (f : Fleet) (n : Node) (k : String) :
    (f.enlist n).2.column k = (f.column k).push (n.store.find? k) := Array.map_push

theorem size_of_frame (h : f.frame = f'.frame) : f.nodes.size = f'.nodes.size := by
  have hsize := congrArg Array.size h
  rwa [frame, frame, Array.size_map, Array.size_map] at hsize

theorem frame_node (f : Fleet) (h : Handle) :
    ((f.node h).id, (f.node h).faults) = f.frame.getD h.slot (h.id, .none) := by
  rw [node, frame, Array.getD_eq_getD_getElem?, Array.getD_eq_getD_getElem?, Array.getElem?_map]
  cases f.nodes[h.slot]? <;> rfl

theorem held_eq_column (f : Fleet) (h : Handle) (k : String) :
    f.held h k = (f.column k).getD h.slot none := by
  rw [held, node, column, Array.getD_eq_getD_getElem?, Array.getD_eq_getD_getElem?,
    Array.getElem?_map]
  cases f.nodes[h.slot]? <;> rfl

section SameFrame

variable (hframe : f.frame = f'.frame) (h : Handle)

include hframe

theorem node_id_of_frame : (f.node h).id = (f'.node h).id :=
  congrArg Prod.fst ((f.frame_node h).trans (hframe ▸ (f'.frame_node h).symm))

theorem node_faults_of_frame : (f.node h).faults = (f'.node h).faults :=
  congrArg Prod.snd ((f.frame_node h).trans (hframe ▸ (f'.frame_node h).symm))

theorem isDown_of_frame : (f.node h).isDown = (f'.node h).isDown := by
  rw [Node.isDown, Node.isDown, node_faults_of_frame hframe h]

theorem verdict_of_frame : (f.node h).verdict = (f'.node h).verdict := by
  rw [Node.verdict, Node.verdict, isDown_of_frame hframe h, node_id_of_frame hframe h]

variable {h}

theorem houses_of_frame (hh : f.Houses h) : f'.Houses h := by
  obtain ⟨n, hn, hid⟩ := hh
  have hslot : (f'.frame)[h.slot]? = some (n.id, n.faults) := by
    rw [← hframe, frame, Array.getElem?_map, hn]
    rfl
  rw [frame, Array.getElem?_map] at hslot
  obtain ⟨n', hn', he⟩ := Option.map_eq_some_iff.1 hslot
  exact ⟨n', hn', (congrArg Prod.fst he).trans hid⟩

end SameFrame

/-- Only the data of a node are replaced. -/
theorem frame_withStore (f : Fleet) (h : Handle) (s : Store) :
    (f.replace h { f.node h with store := s }).frame = f.frame := by
  have hself := f.frame_replace h (f.node h)
  rw [replace_self] at hself
  rw [frame_replace, ← hself]

/-- A request ends with its effect on the store of its node, or with none. -/
theorem conclude_cases (f : Fleet) (h : Handle) (r : Request) (v : Verdict) :
    v = .forward ∧ (f.conclude h r v).2.1 =
        f.replace h { f.node h with store := (Store.serve r (f.node h).store).2 } ∨
      v ≠ .forward ∧ (f.conclude h r v).2.1 = f := by
  cases v with
  | forward => exact .inl ⟨rfl, rfl⟩
  | pretend => exact .inr ⟨fun he => Verdict.noConfusion he, f.replace_self h⟩
  | refuse e => exact .inr ⟨fun he => Verdict.noConfusion he, f.replace_self h⟩

/-- The end of a request changes nobody's identity or faults. -/
theorem frame_conclude (f : Fleet) (h : Handle) (r : Request) (v : Verdict) :
    (f.conclude h r v).2.1.frame = f.frame := by
  obtain ⟨-, he⟩ | ⟨-, he⟩ := f.conclude_cases h r v
  · rw [he, frame_withStore]
  · rw [he]

/-- The end of a request changes a column as the request says. -/
theorem column_conclude (f : Fleet) (h : Handle) (r : Request) (v : Verdict) (k : String) :
    (f.conclude h r v).2.1.column k =
      if v = .forward then (f.column k).setIfInBounds h.slot (r.effect k (f.held h k))
      else f.column k := by
  obtain ⟨hv, he⟩ | ⟨hv, he⟩ := f.conclude_cases h r v
  · rw [he, if_pos hv, column_replace]
    exact congrArg ((f.column k).setIfInBounds h.slot) (Store.find?_serve r _ k)
  · rw [he, if_neg hv]

theorem Switches.conclude (hf : f.Switches) (h : Handle) (r : Request) (v : Verdict) :
    (f.conclude h r v).2.1.Switches := by
  obtain ⟨-, he⟩ | ⟨-, he⟩ := f.conclude_cases h r v
  · rw [he]
    exact hf.replace ((hf.node h).withStore (Store.sorted_serve r (hf.node h).sorted))
  · rw [he]
    exact hf

/-- A request that leaves a key alone leaves its column alone. -/
theorem column_conclude_of_spared {r : Request} (hr : ∀ old, r.effect k old = old)
    (f : Fleet) (h : Handle) (v : Verdict) : (f.conclude h r v).2.1.column k = f.column k := by
  have hself := f.column_replace h (f.node h) k
  rw [replace_self] at hself
  rw [column_conclude, hr]
  split
  · exact hself.symm
  · rfl

end Fleet

/-! ### Requests and keys -/

/-- A request is about a key alone, or empties the node. -/
def Request.Concerns (k : String) : Request → Prop
  | set key _ => key = k
  | get key => key = k
  | delete key => key = k
  | clear => True
  | keys => False

/-- A request is about a single key, and another one. -/
def Request.Elsewhere (k : String) : Request → Prop
  | set key _ => key ≠ k
  | get key => key ≠ k
  | delete key => key ≠ k
  | clear => False
  | keys => False

theorem Request.Elsewhere.effect {k : String} {r : Request} (h : r.Elsewhere k)
    (old : Option String) : r.effect k old = old := by
  cases r with
  | set key value => exact if_neg fun he => h he.symm
  | get key => rfl
  | delete key => exact if_neg fun he => h he.symm
  | clear => exact False.elim h
  | keys => rfl

namespace Fleet

variable {f f' : Fleet} {k : String}

/-- Two fleets look alike under a key. -/
structure Alike (k : String) (f f' : Fleet) : Prop where
  frame : f.frame = f'.frame
  column : f.column k = f'.column k

theorem Alike.refl (k : String) (f : Fleet) : f.Alike k f := ⟨rfl, rfl⟩

theorem Alike.symm (h : f.Alike k f') : f'.Alike k f := ⟨h.frame.symm, h.column.symm⟩

theorem Alike.trans {f'' : Fleet} (h : f.Alike k f') (h' : f'.Alike k f'') : f.Alike k f'' :=
  ⟨h.frame.trans h'.frame, h.column.trans h'.column⟩

theorem Alike.held (h : f.Alike k f') (x : Handle) : f.held x k = f'.held x k := by
  rw [held_eq_column, held_eq_column, h.column]

/-- Fleets that look alike under a key answer requests about it alike, and go on to look alike. -/
theorem conclude_eq_of_alike (h : f.Alike k f') {r : Request} (hr : r.Concerns k) (x : Handle)
    (v : Verdict) :
    (f.conclude x r v).1 = (f'.conclude x r v).1 ∧
      (f.conclude x r v).2.1.Alike k (f'.conclude x r v).2.1 := by
  refine ⟨?_, ?_, ?_⟩
  · cases v with
    | refuse e => rfl
    | pretend =>
      cases r with
      | keys => exact hr.elim
      | _ => rfl
    | forward =>
      cases r with
      | get key =>
        obtain rfl : key = k := hr
        exact congrArg Except.ok (h.held x)
      | keys => exact hr.elim
      | _ => rfl
  · rw [frame_conclude, frame_conclude, h.frame]
  · rw [column_conclude, column_conclude, h.column, h.held x]

/-- All nodes hold nothing but one key. -/
def Narrow (k : String) (f : Fleet) : Prop :=
  ∀ n ∈ f.nodes, ∀ key, n.store.find? key ≠ none → key = k

theorem Narrow.node (hf : f.Narrow k) (h : Handle) {key : String}
    (hkey : (f.node h).store.find? key ≠ none) : key = k := by
  rw [Fleet.node, Array.getD_eq_getD_getElem?] at hkey
  cases hn : f.nodes[h.slot]? with
  | none =>
    rw [hn] at hkey
    exact absurd rfl hkey
  | some n =>
    rw [hn] at hkey
    exact hf n (Array.mem_of_getElem? hn) key hkey

/-- A request about a key brings in no other one. -/
theorem Narrow.conclude (hf : f.Narrow k) {r : Request} (hr : r.Concerns k) (h : Handle)
    (v : Verdict) : (f.conclude h r v).2.1.Narrow k := by
  obtain ⟨-, he⟩ | ⟨-, he⟩ := f.conclude_cases h r v
  · rw [he]
    intro n hn key hkey
    rcases mem_replace hn with rfl | hn
    · by_contra hne
      have hkeep : r.effect key ((f.node h).store.find? key) = none := by
        have hnone : (f.node h).store.find? key = none := by
          by_contra hsome
          exact hne (hf.node h hsome)
        rw [hnone]
        cases r with
        | set key' value =>
          obtain rfl : key' = k := hr
          exact if_neg hne
        | delete key' => exact ite_self _
        | get key' => rfl
        | clear => rfl
        | keys => rfl
      exact hkey ((Store.find?_serve r _ key).trans hkeep)
    · exact hf n hn key hkey
  · rw [he]
    exact hf

end Fleet

end ReplicaRing
