import ReplicaRing.Proofs.Turns

/-!
# Sessions with a faulty node

Callers ask a node with injected faults, each of them in its own time: requests overlap, some are
given up before the delay of the node is over, and the faults are switched between the start and
the end of a request. The data of the node is at every time that of a plain map which carries out
the requests that the node has acknowledged, in the order in which they ended.

* `Session.step`, `Session.run` — what callers and switches do to the node;
* `Session.replay` — the plain map that carries out the acknowledged requests;
* `Session.Ended.Decided` — what has become of a request, by its fate and its limit;
* `Session.Tracks` — the invariant of a session, kept by every event;
* `acknowledged_replay` — the node is the plain map, and answers from it.
-/

namespace ReplicaRing

/-- A node with injected faults. -/
def Node.Faulty (n : Node) : Prop := ∃ i, n.faults = .injected i

/-- A request to a node with injected faults changes nothing when it starts. -/
theorem Node.begin_of_injected {n : Node} {i : Injection} (hn : n.faults = .injected i)
    (env : Env) (r : Request) : n.begin env r = (i.fate n.id env, n) := by
  rw [Node.begin, hn]

/-- A change of the injected faults of a node. -/
inductive Switch where
  | fail
  | recover
  | setLatency (latency : Duration)
  | setFailureRate (rate : Float)

namespace Switch

/-- What a switch does to a node. -/
def apply : Switch → Node → Node
  | fail => Node.fail
  | recover => Node.recover
  | setLatency latency => Node.setLatency latency
  | setFailureRate rate => Node.setFailureRate rate

/-- Whether a node is down after a switch. -/
def downs (down : Bool) : Switch → Bool
  | fail => true
  | recover => false
  | _ => down

/-- A switch changes only the injected faults of a node. -/
theorem apply_eq {n : Node} {i : Injection} (hn : n.faults = .injected i) (x : Switch) :
    ∃ j, j.down = x.downs i.down ∧ x.apply n = { n with faults := .injected j } := by
  have hmap : ∀ f : Injection → Injection,
      n.mapInjection f = { n with faults := .injected (f i) } := fun f => by
    rw [Node.mapInjection, hn]
  cases x with
  | fail => exact ⟨_, rfl, hmap _⟩
  | recover => exact ⟨_, rfl, hmap _⟩
  | setLatency latency => exact ⟨{ i with latency := latency }, rfl, hmap _⟩
  | setFailureRate rate => exact ⟨{ i with odds := .ofRate rate }, rfl, hmap _⟩

end Switch

/-- What a plain map may answer to a request. A listing has every key of the map once. -/
def Request.AnsweredFrom (m : String → Option String) : (r : Request) → r.Reply → Prop
  | .get key, found => found = m key
  | .keys, listed => listed.Nodup ∧ ∀ key, key ∈ listed ↔ m key ≠ none
  | _, _ => True

/-- What a store replies is what its look-ups answer. -/
theorem Store.Replies.answeredFrom {s : Store} {r : Request} {reply : r.Reply}
    (h : s.Replies r reply) (hs : s.Sorted) : r.AnsweredFrom s.find? reply := by
  cases r with
  | get key => exact h
  | keys =>
    exact ⟨h.nodup_iff.2 hs.keys_nodup, fun key => h.mem_iff.trans OrderedMap.mem_keys_iff⟩
  | _ => trivial

namespace Session

/-! ### Requests of a session -/

/-- A request that has started. -/
structure Call where
  request : Request
  /-- What chance contributes to it. -/
  env : Env
  /-- How long its caller waits, if not for ever. -/
  limit : Option Duration
  /-- The node as the request found it. -/
  found : Node

/-- How long the node takes and what it makes of the request. -/
def Call.fate (x : Call) : Fate := (x.found.begin x.env x.request).1

/-- The request is given up before the node is done with it. -/
def Call.Lapses (x : Call) : Prop :=
  ∃ limit, x.limit = some limit ∧ x.env.timer.wait limit < x.fate.wait x.env.timer

/-- A request that is waited for. -/
structure Pending extends Call where
  inquiry : Inquiry

/-- A request that has ended, without an answer if it was given up. -/
structure Ended extends Call where
  answer : Option request.Answer

/-- What an ended request makes of a plain map: what it asks for if the node has acknowledged it,
and nothing if it failed or was given up. -/
def Ended.carryOut (m : String → Option String) (x : Ended) : String → Option String :=
  match x.answer with
  | some (.ok _) => fun key => x.request.effect key (m key)
  | some (.error _) => m
  | none => m

theorem Ended.carryOut_of_fails {x : Ended} (hx : ∀ reply, x.answer ≠ some (.ok reply))
    (m : String → Option String) : x.carryOut m = m := by
  rw [carryOut]
  split
  · next reply hreply => exact absurd hreply (hx reply)
  · rfl
  · rfl

/-- A plain map that carries out the acknowledged requests of a list, one after the other. -/
def replay (m : String → Option String) (ended : List Ended) : String → Option String :=
  ended.foldl Ended.carryOut m

theorem replay_concat (m : String → Option String) (ended : List Ended) (x : Ended) :
    replay m (ended ++ [x]) = x.carryOut (replay m ended) := by
  rw [replay, List.foldl_append]
  rfl

end Session

/-- A cluster on which callers wait for a node, and the requests that have ended, the oldest
first. -/
structure Session where
  cluster : Cluster
  pending : List Session.Pending := []
  ended : List Session.Ended := []

namespace Session

/-- What happens at a node. -/
inductive Event where
  /-- A caller asks the node and waits, perhaps for a limited time. -/
  | ask (request : Request) (env : Env) (limit : Option Duration)
  /-- A request that is waited for ends or is given up, no earlier than it can. -/
  | finish (i : Nat)
  | switch (x : Switch)

/-- The node that a session is with. -/
def node (s : Session) (h : Handle) : Node := s.cluster.fleet.node h

/-- The clock moves on. -/
def advanceTo (s : Session) (t : Instant) : Session :=
  { s with cluster := { s.cluster with now := max s.cluster.now t } }

/-- One event at a node. -/
def step (h : Handle) (s : Session) : Event → Session
  | .ask r env limit =>
    let c := { s.cluster with env := env }
    let p := c.ask h r (limit.map c.after)
    { s with
      cluster := p.2
      pending := s.pending ++ [⟨⟨r, env, limit, s.node h⟩, p.1⟩] }
  | .finish i =>
    match s.pending[i]? with
    | none => s
    | some x =>
      let p := (s.advanceTo x.inquiry.wake).cluster.receive x.inquiry x.request
      { cluster := p.2, pending := s.pending.eraseIdx i, ended := s.ended ++ [⟨x.toCall, p.1⟩] }
  | .switch x =>
    { s with cluster := { s.cluster with fleet := s.cluster.fleet.update h x.apply } }

/-- Events one after the other, each at its time. -/
def run (h : Handle) (s : Session) (events : List (Instant × Event)) : Session :=
  events.foldl (fun s e => (s.advanceTo e.1).step h e.2) s

/-! ### What becomes of a request -/

variable {h : Handle} {m : String → Option String} {s : Session} {i : Nat}

/-- What has become of a request. -/
inductive Ended.Decided (x : Ended) : Prop where
  /-- It was given up before the node was done with it. -/
  | lapses (late : x.Lapses) (given : x.answer = none)
  /-- It has reached the store. -/
  | serves (reply : x.request.Reply) (inTime : ¬ x.Lapses) (reaches : x.fate.verdict = .forward)
    (given : x.answer = some (.ok reply))
  /-- The node has refused it. -/
  | refuses (e : NodeError) (inTime : ¬ x.Lapses) (refused : x.fate.verdict = .refuse e)
    (given : x.answer = some (.error e))

/-- Injected faults make nothing up. -/
theorem Call.verdict {x : Call} (hx : x.found.Faulty) :
    x.fate.verdict = .forward ∨ ∃ e, x.fate.verdict = .refuse e := by
  obtain ⟨i, hi⟩ := hx
  rw [Call.fate, Node.begin_of_injected hi]
  cases hdown : i.down with
  | true => exact .inr ⟨.unavailable x.found.id, by simp [Injection.fate, hdown]⟩
  | false =>
    cases hstrike : i.odds.strike x.env with
    | true =>
      exact .inr ⟨.failed x.found.id "chaos: random failure",
        by simp [Injection.fate, hdown, hstrike]⟩
    | false => exact .inl (by simp [Injection.fate, hdown, hstrike])

/-- A node that is down refuses at once. -/
theorem Call.fate_of_isDown {x : Call} (hx : x.found.Faulty) (hdown : x.found.isDown = true) :
    x.fate = ⟨.zero, .refuse (.unavailable x.found.id)⟩ := by
  obtain ⟨i, hi⟩ := hx
  have hdown' : i.down = true := by rwa [Node.isDown, hi] at hdown
  rw [Call.fate, Node.begin_of_injected hi]
  exact if_pos hdown'

/-- What is asked of a node that is down is answered in time, whatever the limit is. -/
theorem Ended.Decided.answer_of_isDown {x : Ended} (hx : x.Decided) (hfaulty : x.found.Faulty)
    (hdown : x.found.isDown = true) : x.answer = some (.error (.unavailable x.found.id)) := by
  have hfate := Call.fate_of_isDown hfaulty hdown
  have hwait : x.fate.wait x.env.timer = 0 := by rw [hfate]; exact x.env.timer.wait_zero
  cases hx with
  | lapses late given =>
    obtain ⟨limit, -, hlate⟩ := late
    omega
  | serves reply inTime reaches given => cases reaches.symm.trans (congrArg Fate.verdict hfate)
  | refuses e inTime refused given =>
    rw [given, Verdict.refuse.inj (refused.symm.trans (congrArg Fate.verdict hfate))]

/-- A request that is waited for goes to the node of the session, and what becomes of it is settled
by what it found. -/
structure Pending.Fits (h : Handle) (x : Pending) : Prop where
  faulty : x.found.Faulty
  id : x.found.id = h.id
  target : x.inquiry.flight.target = h
  verdict : x.inquiry.flight.verdict = x.fate.verdict
  lapses : x.inquiry.arrives = false ↔ x.Lapses

/-! ### The invariant of a session -/

/-- The node of a session holds what the plain map holds that carries out the acknowledged
requests, and every request has been answered from that map, or refused, or given up. -/
structure Tracks (h : Handle) (m : String → Option String) (s : Session) : Prop where
  houses : s.cluster.fleet.Houses h
  faulty : (s.node h).Faulty
  sorted : (s.node h).store.Sorted
  pending : ∀ x ∈ s.pending, x.Fits h
  data : (s.node h).store.find? = replay m s.ended
  decided : ∀ x ∈ s.ended, x.Decided ∧ x.found.Faulty ∧ x.found.id = h.id
  answers : ∀ before x after, s.ended = before ++ x :: after → ∀ reply,
    x.answer = some (.ok reply) → x.request.AnsweredFrom (replay m before) reply

theorem Tracks.advanceTo (hs : s.Tracks h m) (t : Instant) : (s.advanceTo t).Tracks h m :=
  ⟨hs.houses, hs.faulty, hs.sorted, hs.pending, hs.data, hs.decided, hs.answers⟩

/-! ### What the events do -/

/-- What a session starts with. -/
theorem Tracks.start {c : Cluster} (hh : c.fleet.Houses h) (hfaulty : (c.fleet.node h).Faulty)
    (hsorted : (c.fleet.node h).store.Sorted) :
    Tracks h (c.fleet.node h).store.find? { cluster := c } where
  houses := hh
  faulty := hfaulty
  sorted := hsorted
  pending x hx := nomatch hx
  data := rfl
  decided x hx := nomatch hx
  answers before x after hsplit := by simp at hsplit

/-- A question to the node changes none of the nodes. -/
theorem Tracks.fleet_ask (hs : s.Tracks h m) (r : Request) (env : Env)
    (limit : Option Duration) :
    (s.step h (.ask r env limit)).cluster.fleet = s.cluster.fleet := by
  obtain ⟨i, hi⟩ := hs.faulty
  change s.cluster.fleet.replace h ((s.node h).begin env r).2 = s.cluster.fleet
  rw [Node.begin_of_injected hi env r]
  exact Fleet.replace_node hs.houses

/-- Every new request goes to the node of the session. -/
theorem Tracks.ask (hs : s.Tracks h m) (r : Request) (env : Env) (limit : Option Duration) :
    (s.step h (.ask r env limit)).Tracks h m := by
  have hfleet := hs.fleet_ask r env limit
  have hnode : (s.step h (.ask r env limit)).node h = s.node h :=
    congrArg (fun f : Fleet => f.node h) hfleet
  refine ⟨hfleet ▸ hs.houses, hnode ▸ hs.faulty, hnode ▸ hs.sorted, fun x hx => ?_,
    hnode ▸ hs.data, hs.decided, hs.answers⟩
  rcases List.mem_append.1 hx with hold | hnew
  · exact hs.pending x hold
  · obtain rfl := List.mem_singleton.1 hnew
    refine ⟨hs.faulty, hs.houses.node_id, rfl, rfl, ?_⟩
    -- the node is done in time just if its delay is within the limit, whatever the clock shows
    cases limit with
    | none => simp [Inquiry.arrives, Cluster.ask, Call.Lapses]
    | some d =>
      simp [Inquiry.arrives, Cluster.ask, Cluster.after, Call.Lapses, Fleet.launch, Fleet.begin,
        Call.fate, Fate.wait, Timer.after, node]

/-- The end of a request. If the node acknowledges it, then it is carried out, and else it leaves
the node as it is. -/
theorem Tracks.receive {x : Pending} (hs : s.Tracks h m) (hx : x.Fits h) :
    (s.cluster.receive x.inquiry x.request).2.fleet.Houses h ∧
      Ended.Decided ⟨x.toCall, (s.cluster.receive x.inquiry x.request).1⟩ ∧
      ((∃ reply, (s.cluster.receive x.inquiry x.request).1 = some (.ok reply) ∧
        (s.node h).store.Replies x.request reply ∧
        (s.cluster.receive x.inquiry x.request).2.fleet.node h =
          { s.node h with store := (Store.serve x.request (s.node h).store).2 }) ∨
      ((∀ reply, (s.cluster.receive x.inquiry x.request).1 ≠ some (.ok reply)) ∧
        (s.cluster.receive x.inquiry x.request).2.fleet.node h = s.node h)) := by
  cases harr : x.inquiry.arrives with
  | false =>
    rw [Cluster.receive_of_not_arrives harr]
    exact ⟨hs.houses, .lapses (hx.lapses.1 harr) rfl, .inr ⟨fun _ h => (by cases h), rfl⟩⟩
  | true =>
    have hin : ¬ x.Lapses := fun hlate => by cases harr.symm.trans (hx.lapses.2 hlate)
    rcases Call.verdict hx.faulty with hv | ⟨e, hv⟩
    · obtain ⟨i, hi⟩ := hs.faulty
      have hp : (s.cluster.fleet.node h).phantoms = [] := by
        rw [Node.phantoms, show (s.cluster.fleet.node h).faults = .injected i from hi]
      obtain ⟨reply, c', hreceive, hreplies, -, -, hfleet⟩ :=
        Cluster.receive_forward harr (hx.verdict.trans hv) hx.target hp
      rw [hreceive, hfleet]
      exact ⟨Fleet.houses_conclude x.request .forward hs.houses hs.houses,
        .serves reply hin hv rfl, .inl ⟨reply, rfl, hreplies,
          (Fleet.node_conclude_forward x.request hs.houses hs.houses).trans (if_pos rfl)⟩⟩
    · rw [Cluster.receive_refuse harr (hx.verdict.trans hv) hx.target,
        Fleet.conclude_refuse hs.houses]
      exact ⟨hs.houses, .refuses e hin hv rfl, .inr ⟨fun _ h => (by cases h), rfl⟩⟩

/-- One more request has ended. -/
theorem Tracks.ended {x : Ended} {c : Cluster} {rest : List Pending} (hs : s.Tracks h m)
    (hrest : ∀ y ∈ rest, y ∈ s.pending) (hx : x.Decided ∧ x.found.Faulty ∧ x.found.id = h.id)
    (hh : c.fleet.Houses h) (hfaulty : (c.fleet.node h).Faulty)
    (hsorted : (c.fleet.node h).store.Sorted)
    (hdata : (c.fleet.node h).store.find? = x.carryOut (replay m s.ended))
    (hanswer : ∀ reply, x.answer = some (.ok reply) →
      x.request.AnsweredFrom (replay m s.ended) reply) :
    Tracks h m { cluster := c, pending := rest, ended := s.ended ++ [x] } where
  houses := hh
  faulty := hfaulty
  sorted := hsorted
  pending y hy := hs.pending y (hrest y hy)
  data := by rw [replay_concat]; exact hdata
  decided y hy := by
    rcases List.mem_append.1 hy with hold | hnew
    · exact hs.decided y hold
    · exact List.mem_singleton.1 hnew ▸ hx
  answers before y after hsplit := by
    -- an earlier request has the same ones before it as it had
    rcases List.eq_nil_or_concat after with rfl | ⟨after', z, rfl⟩
    · obtain ⟨rfl, hlast⟩ := List.append_inj' hsplit rfl
      obtain rfl := List.singleton_inj.1 hlast
      exact hanswer
    · rw [List.concat_eq_append, ← List.cons_append, ← List.append_assoc] at hsplit
      exact hs.answers before y after' (List.append_inj' hsplit rfl).1

/-- The node and the plain map carry out the same requests. -/
theorem Tracks.finish (hs : s.Tracks h m) (i : Nat) : (s.step h (.finish i)).Tracks h m := by
  cases hi : s.pending[i]? with
  | none =>
    have hstep : s.step h (.finish i) = s := by rw [step, hi]
    rw [hstep]
    exact hs
  | some x =>
    have hv := hs.advanceTo x.inquiry.wake
    have hx := hs.pending x (List.mem_of_getElem? hi)
    have hrest : ∀ y ∈ s.pending.eraseIdx i, y ∈ s.pending := fun y hy =>
      List.mem_of_mem_eraseIdx hy
    obtain ⟨hhouses, hdecided, ⟨reply, hgiven, hreplies, hnode⟩ | ⟨hfails, hnode⟩⟩ :=
      hv.receive hx
    · rw [step, hi]
      refine hs.ended hrest ⟨hdecided, hx.faulty, hx.id⟩ hhouses ?_ ?_ ?_ ?_
      · exact hnode ▸ hv.faulty
      · exact hnode ▸ Store.sorted_serve x.request hv.sorted
      · rw [hnode, Ended.carryOut, hgiven]
        funext key
        exact (Store.find?_serve x.request _ key).trans (congrArg _ (congrFun hv.data key))
      · intro reply' hgiven'
        obtain rfl : reply = reply' :=
          Except.ok.inj (Option.some.inj (hgiven.symm.trans hgiven'))
        have hanswered := hreplies.answeredFrom hv.sorted
        rwa [hv.data] at hanswered
    · rw [step, hi]
      refine hs.ended hrest ⟨hdecided, hx.faulty, hx.id⟩ hhouses ?_ ?_ ?_ fun reply hgiven =>
        absurd hgiven (hfails reply)
      · exact hnode ▸ hv.faulty
      · exact hnode ▸ hv.sorted
      · rw [hnode]
        exact hv.data.trans (Ended.carryOut_of_fails hfails _).symm

/-- A switch is for the node of the session. -/
theorem Tracks.node_switch (hs : s.Tracks h m) (x : Switch) :
    (s.step h (.switch x)).node h = x.apply (s.node h) :=
  (Fleet.node_replace _ hs.houses hs.houses).trans (if_pos rfl)

/-- A switch leaves the data of the node alone. -/
theorem Tracks.switch (hs : s.Tracks h m) (x : Switch) : (s.step h (.switch x)).Tracks h m := by
  obtain ⟨i, hi⟩ := hs.faulty
  obtain ⟨j, -, hj⟩ := x.apply_eq hi
  have hnode := (hs.node_switch x).trans hj
  refine ⟨Fleet.houses_replace ?_ hs.houses hs.houses, hnode ▸ ⟨j, rfl⟩, hnode ▸ hs.sorted,
    hs.pending, hnode ▸ hs.data, hs.decided, hs.answers⟩
  exact (congrArg Node.id hj).trans hs.houses.node_id

/-- **One event.** The node and the plain map go on together. -/
theorem Tracks.step (hs : s.Tracks h m) (x : Event) : (s.step h x).Tracks h m := by
  cases x with
  | ask r env limit => exact hs.ask r env limit
  | finish i => exact hs.finish i
  | switch x => exact hs.switch x

/-- **Sessions.** The node and the plain map stay together. -/
theorem Tracks.run (hs : s.Tracks h m) (events : List (Instant × Event)) :
    (s.run h events).Tracks h m := by
  induction events generalizing s with
  | nil => exact hs
  | cons e events ih => exact ih ((hs.advanceTo e.1).step e.2)

/-! ### What the events leave alone -/

/-- The end of a request leaves the node as it is, unless the node acknowledges the request and
carries it out. -/
theorem Tracks.node_finish (hs : s.Tracks h m) (i : Nat) :
    (s.step h (.finish i)).node h = s.node h ∨
      ∃ e reply, (s.step h (.finish i)).ended = s.ended ++ [e] ∧ e.answer = some (.ok reply) ∧
        (s.step h (.finish i)).node h =
          { s.node h with store := (Store.serve e.request (s.node h).store).2 } := by
  cases hi : s.pending[i]? with
  | none => exact .inl (by rw [Session.step, hi])
  | some x =>
    rw [Session.step, hi]
    obtain ⟨-, -, ⟨reply, hgiven, -, hnode⟩ | ⟨-, hnode⟩⟩ :=
      (hs.advanceTo x.inquiry.wake).receive (hs.pending x (List.mem_of_getElem? hi))
    · exact .inr ⟨_, reply, rfl, hgiven, hnode⟩
    · exact .inl hnode

/-- Only the end of a request that the node acknowledges changes its data. -/
theorem Tracks.store_step (hs : s.Tracks h m) (x : Event) :
    ((s.step h x).node h).store = (s.node h).store ∨
      ∃ e reply, (s.step h x).ended = s.ended ++ [e] ∧ e.answer = some (.ok reply) := by
  cases x with
  | ask r env limit =>
    exact .inl (congrArg (fun f : Fleet => (f.node h).store) (hs.fleet_ask r env limit))
  | finish i =>
    obtain hnode | ⟨e, reply, hended, hgiven, -⟩ := hs.node_finish i
    · exact .inl (congrArg Node.store hnode)
    · exact .inr ⟨e, reply, hended, hgiven⟩
  | switch x =>
    obtain ⟨i, hi⟩ := hs.faulty
    obtain ⟨j, -, hj⟩ := x.apply_eq hi
    have hstore := congrArg Node.store ((hs.node_switch x).trans hj)
    exact .inl hstore

/-- Whether the node is down after an event. -/
def Event.downs (down : Bool) : Event → Bool
  | .switch x => x.downs down
  | _ => down

/-- Nothing but the two switches for it makes a node go down or recover. -/
theorem Tracks.isDown_step (hs : s.Tracks h m) (x : Event) :
    ((s.step h x).node h).isDown = x.downs (s.node h).isDown := by
  cases x with
  | ask r env limit =>
    exact congrArg (fun f : Fleet => (f.node h).isDown) (hs.fleet_ask r env limit)
  | finish i =>
    obtain hnode | ⟨e, reply, -, -, hnode⟩ := hs.node_finish i
    · exact congrArg Node.isDown hnode
    · rw [hnode]
      rfl
  | switch x =>
    obtain ⟨i, hi⟩ := hs.faulty
    obtain ⟨j, hdown, hj⟩ := x.apply_eq hi
    have hbefore : (s.node h).isDown = i.down := by rw [Node.isDown, hi]
    rw [(hs.node_switch x).trans hj, hbefore]
    exact hdown

theorem Tracks.isDown_run (hs : s.Tracks h m) (events : List (Instant × Event)) :
    ((s.run h events).node h).isDown =
      events.foldl (fun down e => e.2.downs down) (s.node h).isDown := by
  induction events generalizing s with
  | nil => rfl
  | cons e events ih =>
    have hat := hs.advanceTo e.1
    have hrest := ih (hat.step e.2)
    rw [hat.isDown_step e.2] at hrest
    exact hrest

/-! ### The node as a plain map -/

/-- **Acknowledged requests.** Callers ask a node with injected faults in any number and order, with
any limits and whatever chance adds, while its faults are switched at any time. The node holds what
the plain map holds that carries out the acknowledged requests in the order of their ends, and every
acknowledged request has been answered from that map. A request is given up if its limit is below
the delay that it found, and else it is acknowledged or refused as it was settled at its start; if
the node was down then, it is refused as unavailable. An event that is not the end of an
acknowledged request leaves the data of the node alone. -/
theorem acknowledged_replay {c : Cluster} (hh : c.fleet.Houses h)
    (hfaulty : (c.fleet.node h).Faulty) (hsorted : (c.fleet.node h).store.Sorted)
    (events : List (Instant × Event)) (hs : s = run h { cluster := c } events) :
    (s.node h).store.find? = replay (c.fleet.node h).store.find? s.ended ∧
    (s.node h).isDown = events.foldl (fun down e => e.2.downs down) (c.fleet.node h).isDown ∧
    (∀ before x after, s.ended = before ++ x :: after → x.Decided ∧
      (∀ reply, x.answer = some (.ok reply) →
        x.request.AnsweredFrom (replay (c.fleet.node h).store.find? before) reply) ∧
      (x.found.isDown = true → x.answer = some (.error (.unavailable h.id)))) ∧
    ∀ t e, (((s.advanceTo t).step h e).node h).store = (s.node h).store ∨
      ∃ x reply, ((s.advanceTo t).step h e).ended = s.ended ++ [x] ∧
        x.answer = some (.ok reply) := by
  have hstart := Tracks.start hh hfaulty hsorted
  have htracks : s.Tracks h (c.fleet.node h).store.find? := hs ▸ hstart.run events
  refine ⟨htracks.data, ?_, fun before x after hsplit => ?_, fun t e =>
    (htracks.advanceTo t).store_step e⟩
  · rw [hs]
    exact hstart.isDown_run events
  · obtain ⟨hdecided, hfound, hid⟩ := htracks.decided x (by rw [hsplit]; simp)
    refine ⟨hdecided, htracks.answers before x after hsplit, fun hdown => ?_⟩
    rw [← hid]
    exact hdecided.answer_of_isDown hfound hdown

/-- A node that takes its time. -/
def slowNode : Cluster where
  fleet := ⟨#[{ id := ⟨7⟩, faults := .injected { latency := .ofMillis 10 } }]⟩
  ring := ⟨fun _ => 5, { replicaCount := 1 }, ⟨⟨[(⟨7⟩, ⟨⟨7⟩, 0⟩)]⟩, 0⟩⟩

/-- A value is stored, a deletion is given up too early, a look-up finds the node down and another
one finds it recovered. -/
def slowEvents : List (Instant × Event) :=
  [(0, .ask (.set "k" "v") {} none), (1, .ask (.delete "k") {} (some (.ofMillis 5))),
    (2, .switch .fail), (3, .ask (.get "k") {} none), (3, .finish 2), (4, .switch .recover),
    (6, .finish 1), (10, .finish 0), (11, .ask (.get "k") {} (some (.ofMillis 10))),
    (21, .finish 0)]

/-- The value is there in the end, since the deletion has not been acknowledged, and the first
look-up is refused. -/
theorem acknowledged_replay_slowNode :
    slowNode.fleet.Houses ⟨⟨7⟩, 0⟩ ∧ (slowNode.fleet.node ⟨⟨7⟩, 0⟩).Faulty ∧
    (slowNode.fleet.node ⟨⟨7⟩, 0⟩).store.Sorted ∧
    ((run ⟨⟨7⟩, 0⟩ { cluster := slowNode } slowEvents).node ⟨⟨7⟩, 0⟩).store.find? "k" = some "v" ∧
    ∃ look remove store again,
      (run ⟨⟨7⟩, 0⟩ { cluster := slowNode } slowEvents).ended = [look, remove, store, again] ∧
      look.answer = some (.error (.unavailable ⟨7⟩)) ∧ remove.Lapses ∧ remove.Decided ∧
      store.Decided := by
  have hh : slowNode.fleet.Houses ⟨⟨7⟩, 0⟩ := by decide
  have hfaulty : (slowNode.fleet.node ⟨⟨7⟩, 0⟩).Faulty := ⟨_, rfl⟩
  have hsorted : (slowNode.fleet.node ⟨⟨7⟩, 0⟩).store.Sorted := List.Pairwise.nil
  obtain ⟨hdata, -, hended, -⟩ := acknowledged_replay hh hfaulty hsorted slowEvents rfl
  refine ⟨hh, hfaulty, hsorted, ?_, ?_⟩
  · rw [hdata]
    rfl
  · refine ⟨_, _, _, _, rfl, ?_, ⟨.ofMillis 5, rfl, by decide⟩, ?_, ?_⟩
    · exact (hended [] _ _ rfl).2.2 rfl
    · exact (hended [_] _ _ rfl).1
    · exact (hended [_, _] _ _ rfl).1

end Session

end ReplicaRing
