import Mathlib.Tactic.Common
import ReplicaRing.Fleet
import ReplicaRing.Proofs.OrderedMap

/-!
# Theory of nodes and fleets

What a request does to the stores of a fleet, and which nodes answer at all.

* `Request.effect` — what a request makes of the value under a key;
* `Store.Replies` — what a store may reply, up to the order of a listing;
* `Node.Answering`, `Node.Failing` — nodes that answer every request in time, and nodes that answer
  none, whatever has been asked of them before;
* `Node.IsMemory` — a store without faults;
* `Fleet.Houses` — a handle names a node that exists;
* `Fleet.held` — the value of a node under a key;
* `node_replace` — changing one node leaves the others as they were.
-/

namespace ReplicaRing

/-! ### Stores -/

/-- What a request makes of the value under a key. -/
def Request.effect : Request → String → Option String → Option String
  | set key value, k, old => if k = key then some value else old
  | get _, _, old => old
  | delete key, k, old => if k = key then none else old
  | clear, _, _ => none
  | keys, _, old => old

theorem Store.find?_serve (r : Request) (s : Store) (k : String) :
    (Store.serve r s).2.find? k = r.effect k (s.find? k) := by
  cases r with
  | set key value => exact OrderedMap.find?_insert s key k value
  | get key => rfl
  | delete key => exact OrderedMap.find?_erase s key k
  | clear => rfl
  | keys => rfl

theorem Store.sorted_serve (r : Request) {s : Store} (h : s.Sorted) :
    (Store.serve r s).2.Sorted := by
  cases r with
  | set key value => exact OrderedMap.Sorted.insert h key value
  | get key => exact h
  | delete key => exact OrderedMap.Sorted.erase h key
  | clear => exact List.Pairwise.nil
  | keys => exact h

/-- What a store may reply to a request. Only the order of a listing is open. -/
def Store.Replies (s : Store) : (r : Request) → r.Reply → Prop
  | .get key, found => found = s.find? key
  | .keys, listed => listed.Perm s.keys
  | _, _ => True

theorem Store.replies_serve (r : Request) (s : Store) :
    s.Replies r (withPhantoms [] r (Store.serve r s).1) := by
  cases r with
  | set key value => trivial
  | get key => rfl
  | delete key => trivial
  | clear => trivial
  | keys => exact .refl _

/-! ### Nodes -/

/-- How many ticks a request is waited for if nobody gives it up. -/
def Fate.wait (timer : Timer) (f : Fate) : Nat := timer.wait f.delay

namespace Node

/-- Starting a request only uses up faults. -/
theorem begin_snd (env : Env) (r : Request) (n : Node) :
    ∃ faults, (n.begin env r).2 = { n with faults := faults } := by
  unfold Node.begin
  split
  · exact ⟨n.faults, rfl⟩
  · exact ⟨n.faults, rfl⟩
  · exact ⟨_, rfl⟩

theorem begin_id (env : Env) (r : Request) (n : Node) : (n.begin env r).2.id = n.id := by
  obtain ⟨faults, h⟩ := begin_snd env r n
  rw [h]

theorem begin_store (env : Env) (r : Request) (n : Node) :
    (n.begin env r).2.store = n.store := by
  obtain ⟨faults, h⟩ := begin_snd env r n
  rw [h]

theorem begin_phantoms (env : Env) (r : Request) (n : Node) :
    (n.begin env r).2.phantoms = n.phantoms := by
  unfold Node.begin
  split <;> simp_all [phantoms]

/-- What becomes of a request does not depend on the data of a node. -/
theorem begin_withStore (env : Env) (r : Request) (n : Node) (s : Store) :
    Node.begin env r { n with store := s } =
      ((n.begin env r).1, { (n.begin env r).2 with store := s }) := by
  obtain ⟨id, store, faults⟩ := n
  cases faults <;> rfl

/-- A node of which the requests of a list have been asked. -/
def begun (env : Env) : List Request → Node → Node
  | [], n => n
  | r :: rs, n => begun env rs (n.begin env r).2

theorem begun_withStore (env : Env) (rs : List Request) (n : Node) (s : Store) :
    begun env rs { n with store := s } = { begun env rs n with store := s } := by
  induction rs generalizing n with
  | nil => rfl
  | cons r rs ih => rw [begun, begin_withStore, ih, begun]

/-- What becomes of a request that is asked after those of a list. -/
def fateAfter (env : Env) (rs : List Request) (r : Request) (n : Node) : Fate :=
  ((n.begun env rs).begin env r).1

theorem fateAfter_withStore (env : Env) (rs : List Request) (r : Request) (n : Node)
    (s : Store) : fateAfter env rs r { n with store := s } = fateAfter env rs r n := by
  rw [fateAfter, begun_withStore, begin_withStore, fateAfter]

/-- A node that answers every request from its store within a number of ticks. -/
structure Answering (env : Env) (limit : Nat) (n : Node) : Prop where
  plain : n.phantoms = []
  forward : ∀ rs r, (n.fateAfter env rs r).verdict = .forward
  inTime : ∀ rs r, (n.fateAfter env rs r).wait env.timer ≤ limit

/-- A node of which every request fails or is given up after a number of ticks. -/
def Failing (env : Env) (limit : Nat) (n : Node) : Prop :=
  ∀ rs r, (∃ e, (n.fateAfter env rs r).verdict = .refuse e) ∨
    limit < (n.fateAfter env rs r).wait env.timer

/-- A store without faults, as a map. -/
structure IsMemory (n : Node) : Prop where
  faults : n.faults = .none
  sorted : n.store.Sorted

variable {env : Env} {limit : Nat} {n : Node}

theorem Answering.begin (h : n.Answering env limit) (r : Request) :
    (n.begin env r).2.Answering env limit where
  plain := by rw [begin_phantoms, h.plain]
  forward rs := h.forward (r :: rs)
  inTime rs := h.inTime (r :: rs)

theorem Failing.begin (h : n.Failing env limit) (r : Request) :
    (n.begin env r).2.Failing env limit := fun rs => h (r :: rs)

theorem Answering.withStore (h : n.Answering env limit) (s : Store) :
    Answering env limit { n with store := s } where
  plain := h.plain
  forward rs r := by rw [fateAfter_withStore, h.forward]
  inTime rs r := by rw [fateAfter_withStore]; exact h.inTime rs r

theorem Failing.withStore (h : n.Failing env limit) (s : Store) :
    Failing env limit { n with store := s } := fun rs r => by
  rw [fateAfter_withStore]
  exact h rs r

/-- A node without faults answers at once. -/
theorem begun_of_none (h : n.faults = .none) (rs : List Request) : n.begun env rs = n := by
  induction rs with
  | nil => rfl
  | cons r rs ih =>
    have hbegin : (n.begin env r).2 = n := by simp [Node.begin, h]
    rw [begun, hbegin, ih]

theorem answering_of_none (h : n.faults = .none) : n.Answering env limit where
  plain := by simp [phantoms, h]
  forward rs r := by simp [fateAfter, begun_of_none h, Node.begin, h, Fate.immediate]
  inTime rs r := by
    simp [fateAfter, begun_of_none h, Node.begin, h, Fate.immediate, Fate.wait]

theorem begun_of_injected {i : Injection} (h : n.faults = .injected i) (rs : List Request) :
    n.begun env rs = n := by
  induction rs with
  | nil => rfl
  | cons r rs ih =>
    have hbegin : (n.begin env r).2 = n := by simp [Node.begin, h]
    rw [begun, hbegin, ih]

/-- A node whose injected faults only ever delay its requests answers in time. -/
theorem answering_of_injected {i : Injection} (h : n.faults = .injected i) (hup : i.down = false)
    (hodds : i.odds = .never)
    (hshort : i.latency.nanos + i.jitter.nanos ≤ Duration.longestSleep.nanos)
    (hlimit : (i.latency + i.jitter).ticks ≤ limit) : n.Answering env limit where
  plain := by simp [phantoms, h]
  forward rs r := by
    simp [fateAfter, begun_of_injected h, Node.begin, h, Injection.fate, hup, hodds,
      FailureOdds.strike]
  inTime rs r := by
    have hdelay : (n.fateAfter env rs r).delay =
        i.latency + .ofMillis (min env.extra (i.jitter.nanos / 1000000)) := by
      simp [fateAfter, begun_of_injected h, Node.begin, h, Injection.fate, hup, hodds,
        FailureOdds.strike]
    have hcut : (i.latency + .ofMillis (min env.extra (i.jitter.nanos / 1000000))).nanos ≤
        (i.latency + i.jitter).nanos := by
      simp only [Duration.add_nanos, Duration.ofMillis]
      omega
    rw [Fate.wait, hdelay, env.timer.exact _ (hcut.trans hshort)]
    exact (Duration.ticks_mono hcut).trans hlimit

theorem IsMemory.begin_eq (h : n.IsMemory) (r : Request) :
    n.begin env r = (.immediate, n) := by simp [Node.begin, h.faults]

theorem IsMemory.serve (h : n.IsMemory) (r : Request) :
    IsMemory { n with store := (Store.serve r n.store).2 } :=
  ⟨h.faults, Store.sorted_serve r h.sorted⟩

/-- A node that is switched off fails every request. -/
theorem failing_of_isDown (h : n.isDown = true) : n.Failing env limit := by
  intro rs r
  rw [isDown] at h
  split at h
  next i hi =>
    refine .inl ⟨.unavailable n.id, ?_⟩
    simp [fateAfter, begun_of_injected hi, Node.begin, hi, Injection.fate, h]
  next => exact absurd h (by decide)

end Node

/-! ### Fleets -/

namespace Fleet

/-- A handle names a node that exists. -/
def Houses (f : Fleet) (h : Handle) : Prop := ∃ n, f.nodes[h.slot]? = some n ∧ n.id = h.id

/-- The value of a node under a key. -/
def held (f : Fleet) (h : Handle) (key : String) : Option String := (f.node h).store.find? key

variable {f : Fleet} {h h' : Handle}

theorem node_eq {n : Node} (hn : f.nodes[h.slot]? = some n) : f.node h = n := by
  rw [node, Array.getD_eq_getD_getElem?, hn]
  rfl

theorem Houses.node_id (hh : f.Houses h) : (f.node h).id = h.id := by
  obtain ⟨n, hn, hid⟩ := hh
  rw [node_eq hn, hid]

theorem Houses.node_mem (hh : f.Houses h) : f.node h ∈ f.nodes := by
  obtain ⟨n, hn, -⟩ := hh
  rw [node_eq hn]
  exact Array.mem_of_getElem? hn

/-- A slot belongs to one handle. -/
theorem Houses.eq_of_slot (hh : f.Houses h) (hh' : f.Houses h') (hs : h.slot = h'.slot) :
    h = h' := by
  obtain ⟨n, hn, hid⟩ := hh
  obtain ⟨n', hn', hid'⟩ := hh'
  rw [hs, hn', Option.some.injEq] at hn
  subst hn
  cases h; cases h'
  simp_all

theorem getElem?_replace (n : Node) (s : Nat) :
    (f.replace h n).nodes[s]? =
      if h.slot = s then (f.nodes[s]?).map fun _ => n else f.nodes[s]? := by
  rw [replace, Array.getElem?_setIfInBounds]
  split
  · by_cases hs : h.slot < f.nodes.size
    · simp_all
    · simp_all
  · rfl

theorem houses_replace {n : Node} (hn : n.id = h.id) (hh : f.Houses h) (hh' : f.Houses h') :
    (f.replace h n).Houses h' := by
  obtain ⟨n', hn', hid'⟩ := hh'
  by_cases hs : h.slot = h'.slot
  · refine ⟨n, ?_, ?_⟩
    · rw [getElem?_replace, if_pos hs, hn']
      rfl
    · rw [hn, hh.eq_of_slot ⟨n', hn', hid'⟩ hs]
  · exact ⟨n', by rw [getElem?_replace, if_neg hs, hn'], hid'⟩

/-- **Changing one node leaves the others as they were.** -/
theorem node_replace (n : Node) (hh : f.Houses h) (hh' : f.Houses h') :
    (f.replace h n).node h' = if h' = h then n else f.node h' := by
  obtain ⟨n', hn', hid'⟩ := hh'
  by_cases he : h' = h
  · subst he
    rw [if_pos rfl]
    exact node_eq (by rw [getElem?_replace, if_pos rfl, hn']; rfl)
  · have hs : h.slot ≠ h'.slot := fun hs => he (hh.eq_of_slot ⟨n', hn', hid'⟩ hs).symm
    rw [if_neg he, node_eq hn']
    exact node_eq (by rw [getElem?_replace, if_neg hs, hn'])

theorem replace_node (hh : f.Houses h) : f.replace h (f.node h) = f := by
  obtain ⟨n, hn, -⟩ := hh
  rw [node_eq hn, replace]
  congr 1
  refine Array.ext_getElem? fun i => ?_
  rw [Array.getElem?_setIfInBounds]
  split
  · next hs =>
    subst hs
    rw [if_pos (Array.getElem?_eq_some_iff.1 hn).1, hn]
  · rfl

theorem mem_replace {n n' : Node} (hn : n' ∈ (f.replace h n).nodes) : n' = n ∨ n' ∈ f.nodes := by
  rw [replace] at hn
  rcases Array.mem_or_eq_of_mem_setIfInBounds hn with h | h
  · exact .inr h
  · exact .inl h

/-- All nodes are stores without faults. -/
def Memory (f : Fleet) : Prop := ∀ n ∈ f.nodes, n.IsMemory

theorem Memory.node (hf : f.Memory) (h : Handle) : (f.node h).IsMemory := by
  rw [Fleet.node, Array.getD_eq_getD_getElem?]
  cases hn : f.nodes[h.slot]? with
  | none => exact ⟨rfl, List.Pairwise.nil⟩
  | some n => exact hf n (Array.mem_of_getElem? hn)

theorem Memory.replace (hf : f.Memory) {n : Node} (hn : n.IsMemory) : (f.replace h n).Memory := by
  intro n' hn'
  rcases mem_replace hn' with rfl | hn'
  · exact hn
  · exact hf n' hn'

/-! ### Requests to a fleet -/

theorem launch_snd (f : Fleet) (env : Env) (now : Instant) (h : Handle) (r : Request) :
    (f.launch env now h r).2 = f.replace h ((f.node h).begin env r).2 := rfl

theorem conclude_snd (f : Fleet) (h : Handle) (r : Request) (v : Verdict) :
    (f.conclude h r v).2.1 = f.replace h ((f.node h).conclude r v).2.1 := rfl

theorem conclude_forward_fst (f : Fleet) (h : Handle) (r : Request) :
    (f.conclude h r .forward).1 =
      .ok (withPhantoms (f.node h).phantoms r (Store.serve r (f.node h).store).1) := rfl

theorem Memory.launch (hf : f.Memory) (env : Env) (now : Instant) (h : Handle) (r : Request) :
    (f.launch env now h r).2.Memory := by
  rw [launch_snd, (hf.node h).begin_eq]
  exact hf.replace (hf.node h)

theorem Memory.conclude (hf : f.Memory) (h : Handle) (r : Request) (v : Verdict) :
    (f.conclude h r v).2.1.Memory := by
  rw [conclude_snd]
  refine hf.replace ?_
  cases v with
  | forward => exact (hf.node h).serve r
  | pretend => exact hf.node h
  | refuse e => exact hf.node h

theorem node_launch (env : Env) (now : Instant) (r : Request) (hh : f.Houses h)
    (hh' : f.Houses h') :
    (f.launch env now h r).2.node h' =
      if h' = h then ((f.node h).begin env r).2 else f.node h' :=
  node_replace _ hh hh'

/-- Starting a request changes no data. -/
theorem store_launch (env : Env) (now : Instant) (r : Request) (hh : f.Houses h)
    (hh' : f.Houses h') : ((f.launch env now h r).2.node h').store = (f.node h').store := by
  rw [node_launch env now r hh hh']
  split
  · next he => rw [Node.begin_store, he]
  · rfl

theorem houses_conclude (r : Request) (v : Verdict) (hh : f.Houses h) (hh' : f.Houses h') :
    (f.conclude h r v).2.1.Houses h' := by
  refine houses_replace ?_ hh hh'
  rw [← hh.node_id]
  cases v <;> rfl

theorem node_conclude_forward (r : Request) (hh : f.Houses h) (hh' : f.Houses h') :
    (f.conclude h r .forward).2.1.node h' =
      if h' = h then { f.node h with store := (Store.serve r (f.node h).store).2 }
      else f.node h' :=
  node_replace _ hh hh'

/-- A request that is refused changes nothing. -/
theorem conclude_refuse (hh : f.Houses h) (r : Request) (e : NodeError) :
    (f.conclude h r (.refuse e)).2.1 = f := replace_node hh

/-- A request that reaches a node changes the data of that node as it says. -/
theorem held_conclude_forward (r : Request) (hh : f.Houses h) (hh' : f.Houses h') (k : String) :
    (f.conclude h r .forward).2.1.held h' k =
      if h' = h then r.effect k (f.held h k) else f.held h' k := by
  rw [held, node_conclude_forward r hh hh']
  split
  · exact Store.find?_serve r _ k
  · rfl

end Fleet

end ReplicaRing
