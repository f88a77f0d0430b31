import ReplicaRing.Proofs.PlainMembership

/-!
# Requests to nodes that may fail

Any request may be refused, made up or given up, and then no data change. What is said here holds
whatever the faults are, as long as they are candid about the requests that matter: an answer to
such a request comes from the store.

* `Node.Candid` — no rule of a node makes up an answer to requests of certain kinds;
* `Fleet.ServesAtMost` — nodes may be added, faults may change, and at most one request is served;
* `Fleet.Ends` — how a request comes to its end, with the answer that arrives;
* `Flight.Fair` — a request under way to a node that exists, whose answer is not made up;
* `launch_servesAtMost`, `receive_ends` — the two ends of a request;
* `Cluster.AsksHead` — the first node of a list has been asked.
-/

namespace ReplicaRing

variable {on : Operation → Prop}

/-! ### Faults that make nothing up -/

/-- All kinds of requests. -/
abbrev Operation.every : Operation → Prop := fun _ => True

/-- A rule makes up no answer to requests of certain kinds. -/
def Rule.Candid (on : Operation → Prop) (rule : Rule) : Prop := on rule.on → rule.act ≠ .pretend

/-- Faults that make up no answer to requests of certain kinds. Phantom keys are made up. -/
def Faults.Candid (on : Operation → Prop) : Faults → Prop
  | .none => True
  | .injected _ => True
  | .scripted rules phantoms => (∀ rule ∈ rules, rule.Candid on) ∧ (on .keys → phantoms = [])

/-- A node makes up no answer to requests of certain kinds. -/
def Node.Candid (on : Operation → Prop) (n : Node) : Prop := n.faults.Candid on

/-- What becomes of a request is not made up if the request is of certain kinds. -/
def Verdict.Candid (on : Operation → Prop) (r : Request) (v : Verdict) : Prop :=
  on r.operation → v ≠ .pretend

namespace Rule

theorem select_found {r : Request} {rules : List Rule} {rule : Rule}
    (h : (select r rules).1 = some rule) : rule ∈ rules ∧ rule.on = r.operation := by
  induction rules with
  | nil => exact absurd h.symm (Option.some_ne_none rule)
  | cons first rules ih =>
    rw [select] at h
    split at h
    · next happlies =>
      obtain rfl : first = rule := Option.some.inj h
      simp only [applies, Bool.and_eq_true, beq_iff_eq] at happlies
      exact ⟨List.mem_cons_self .., happlies.1.1⟩
    · exact ⟨List.mem_cons_of_mem _ (ih h).1, (ih h).2⟩

theorem candid_select {r : Request} {rules : List Rule} (h : ∀ rule ∈ rules, rule.Candid on) :
    ∀ rule ∈ (select r rules).2, rule.Candid on := by
  induction rules with
  | nil => exact fun rule hrule => absurd hrule List.not_mem_nil
  | cons first rules ih =>
    have hfirst := h first (List.mem_cons_self ..)
    have hrest : ∀ rule ∈ rules, rule.Candid on := fun rule hr => h rule (List.mem_cons_of_mem _ hr)
    rw [select]
    split
    · intro rule hrule
      rcases List.mem_cons.1 hrule with rfl | hrule
      · exact hfirst
      · exact hrest rule hrule
    · intro rule hrule
      rcases List.mem_cons.1 hrule with rfl | hrule
      · exact hfirst
      · exact ih hrest rule hrule

end Rule

namespace Node

variable {n : Node}

/-- A request to a candid node is not made up, and the node stays candid. -/
theorem Candid.begin (h : n.Candid on) (env : Env) (r : Request) :
    (n.begin env r).1.verdict.Candid on r ∧ (n.begin env r).2.Candid on := by
  unfold Node.begin
  split
  · exact ⟨fun _ => by simp [Fate.immediate], h⟩
  · next i _ =>
    refine ⟨fun _ => ?_, h⟩
    simp only [Injection.fate]
    repeat' split
    all_goals simp
  · next rules phantoms hfaults =>
    rw [Candid, hfaults] at h
    refine ⟨fun hon => ?_, Rule.candid_select h.1, h.2⟩
    cases hfound : (Rule.select r rules).1 with
    | none => simp [hfound, Fate.immediate]
    | some rule =>
      obtain ⟨hmem, hkind⟩ := Rule.select_found hfound
      have hact := h.1 rule hmem (hkind ▸ hon)
      simp only [hfound]
      cases hverdict : rule.act with
      | pretend => exact absurd hverdict hact
      | _ => simp [Act.verdict]

theorem Candid.phantoms (h : n.Candid on) (hkeys : on .keys) : n.phantoms = [] := by
  rw [Node.phantoms]
  split
  · next hfaults =>
    rw [Candid, hfaults] at h
    exact h.2 hkeys
  · rfl

/-- Faults other than scripts make nothing up. -/
theorem Candid.mapInjection (h : n.Candid on) (change : Injection → Injection) :
    (n.mapInjection change).Candid on := by
  rw [Node.mapInjection]
  split
  · exact trivial
  · exact h

end Node

/-! ### What a fleet goes through -/

namespace Fleet

variable {f f' f'' : Fleet} {h x : Handle} {r : Request} {served : Option (Handle × Request)}

theorem houses_iff : f.Houses h ↔ (f.nodes[h.slot]?).map Node.id = some h.id := by
  rw [Option.map_eq_some_iff]
  rfl

instance : Decidable (f.Houses h) := decidable_of_iff _ houses_iff.symm

/-- All nodes are candid about requests of certain kinds. -/
def Candid (on : Operation → Prop) (f : Fleet) : Prop := ∀ n ∈ f.nodes, n.Candid on

theorem Candid.node (hf : f.Candid on) (h : Handle) : (f.node h).Candid on := by
  rw [Fleet.node, Array.getD_eq_getD_getElem?]
  cases hn : f.nodes[h.slot]? with
  | none => exact trivial
  | some n => exact hf n (Array.mem_of_getElem? hn)

theorem Candid.replace (hf : f.Candid on) {n : Node} (hn : n.Candid on) :
    (f.replace h n).Candid on := by
  intro n' hn'
  rcases mem_replace hn' with rfl | hn'
  · exact hn
  · exact hf n' hn'

/-- What becomes of a value when at most one request is served. -/
def after (served : Option (Handle × Request)) (x : Handle) (k : String) (old : Option String) :
    Option String :=
  match served with
  | some (h, r) => if x = h then r.effect k old else old
  | none => old

/-- Nodes may be added and faults may change, but at most one request is served. -/
structure ServesAtMost (on : Operation → Prop) (f f' : Fleet) (served : Option (Handle × Request)) :
    Prop where
  houses : ∀ x, f.Houses x → f'.Houses x
  candid : f.Candid on → f'.Candid on
  held : ∀ x, f.Houses x → ∀ k, f'.held x k = after served x k (f.held x k)

theorem ServesAtMost.refl (f : Fleet) : f.ServesAtMost on f none :=
  ⟨fun _ h => h, id, fun _ _ _ => rfl⟩

theorem ServesAtMost.trans (h : f.ServesAtMost on f' none) (h' : f'.ServesAtMost on f'' served) :
    f.ServesAtMost on f'' served where
  houses x hx := h'.houses x (h.houses x hx)
  candid hf := h'.candid (h.candid hf)
  held x hx k := by rw [h'.held x (h.houses x hx) k, h.held x hx k, after]

theorem ServesAtMost.trans_still (h : f.ServesAtMost on f' served)
    (h' : f'.ServesAtMost on f'' none) : f.ServesAtMost on f'' served where
  houses x hx := h'.houses x (h.houses x hx)
  candid hf := h'.candid (h.candid hf)
  held x hx k := by rw [h'.held x (h.houses x hx) k, after, h.held x hx k]

/-- A node is replaced by one with the same data. -/
theorem servesAtMost_replace (hh : f.Houses h) {n : Node} (hid : n.id = h.id)
    (hstore : n.store = (f.node h).store) (hcandid : f.Candid on → n.Candid on) :
    f.ServesAtMost on (f.replace h n) none where
  houses x hx := houses_replace hid hh hx
  candid hf := hf.replace (hcandid hf)
  held x hx k := by
    rw [held, node_replace n hh hx, after]
    split
    · next he => rw [hstore, he, held]
    · rfl

theorem servesAtMost_enlist (f : Fleet) {n : Node} (hn : n.Candid on) :
    f.ServesAtMost on (f.enlist n).2 none where
  houses x hx := houses_enlist n hx
  candid hf := by
    intro n' hn'
    rcases Array.mem_push.1 hn' with hn' | rfl
    · exact hf n' hn'
    · exact hn
  held x hx k := by rw [held, node_enlist n hx, after, held]

/-- A request is served from the store of its node. -/
theorem servesAtMost_serve (hh : f.Houses h) (r : Request) :
    f.ServesAtMost on (f.serve h r).2.1 (some (h, r)) where
  houses x hx := houses_replace (n := (f.node h).serve r |>.2.1) hh.node_id hh hx
  candid hf := hf.replace (n := (f.node h).serve r |>.2.1) (hf.node h)
  held x hx k := by
    rw [held, show (f.serve h r).2.1 = f.replace h ((f.node h).serve r).2.1 from rfl,
      node_replace _ hh hx, after]
    split
    · next he =>
      subst he
      exact Store.find?_serve r _ k
    · rfl

/-- How a request to a node comes to its end. The answer is missing if the request is given up. -/
inductive Ends (on : Operation → Prop) (f f' : Fleet) (h : Handle) (r : Request) :
    Option r.Answer → Prop
  /-- It reaches the store, which answers; only a listing may be made up in part. -/
  | served (reply : r.Reply) (honest : on r.operation → (f.node h).store.Replies r reply)
      (serving : f.ServesAtMost on f' (some (h, r))) : Ends on f f' h r (some (.ok reply))
  | pretended (reply : r.Reply) (dubious : ¬ on r.operation) (serving : f.ServesAtMost on f' none) :
      Ends on f f' h r (some (.ok reply))
  | refused (e : NodeError) (serving : f.ServesAtMost on f' none) :
    Ends on f f' h r (some (.error e))
  | givenUp (serving : f.ServesAtMost on f' none) : Ends on f f' h r none

/-- However a request ends, at most itself is served. -/
theorem Ends.serving {answer? : Option r.Answer} (h' : f.Ends on f' h r answer?) :
    ∃ served, f.ServesAtMost on f' served ∧ ∀ y r', served = some (y, r') → y = h ∧ r' = r := by
  have hnone : ∀ (y : Handle) (r' : Request), none = some (y, r') → y = h ∧ r' = r :=
    fun y r' he => absurd he.symm (Option.some_ne_none _)
  cases h' with
  | served reply honest serving =>
    refine ⟨_, serving, fun y r' he => ?_⟩
    obtain ⟨rfl, rfl⟩ := Prod.mk.inj (Option.some.inj he)
    exact ⟨rfl, rfl⟩
  | pretended reply dubious serving => exact ⟨none, serving, hnone⟩
  | refused e serving => exact ⟨none, serving, hnone⟩
  | givenUp serving => exact ⟨none, serving, hnone⟩

/-- What a node says about a key is what it holds. -/
theorem Ends.found {k : String} {found : Option String}
    (h' : f.Ends on f' h (.get k) (some (.ok found))) (hget : on .get) : f.held h k = found := by
  cases h' with
  | served reply honest serving => exact (honest hget).symm
  | pretended reply dubious serving => exact absurd hget dubious

/-- A value that a node has confirmed is there. -/
theorem Ends.stored {k value : String} (h' : f.Ends on f' h (.set k value) (some (.ok ())))
    (hset : on .set) (hh : f.Houses h) : f'.held h k = some value := by
  cases h' with
  | served reply honest serving =>
    exact ((serving.held h hh k).trans (if_pos rfl)).trans (if_pos rfl)
  | pretended reply dubious serving => exact absurd hset dubious

/-- What happens after a request has ended changes nothing about its end. -/
theorem Ends.trans_still {answer? : Option r.Answer} (h₁ : f.Ends on f' h r answer?)
    (h₂ : f'.ServesAtMost on f'' none) : f.Ends on f'' h r answer? := by
  cases h₁ with
  | served reply honest serving => exact .served reply honest (serving.trans_still h₂)
  | pretended reply dubious serving => exact .pretended reply dubious (serving.trans_still h₂)
  | refused e serving => exact .refused e (serving.trans_still h₂)
  | givenUp serving => exact .givenUp (serving.trans_still h₂)

end Fleet

/-! ### Requests under way -/

/-- A request is under way to a node that exists, and its answer is not made up. -/
structure Flight.Fair (on : Operation → Prop) (f : Fleet) (r : Request) (q : Flight) : Prop where
  houses : f.Houses q.target
  candid : q.verdict.Candid on r

theorem Flight.Fair.mono {f f' : Fleet} {r : Request} {q : Flight} (h : q.Fair on f r)
    (hhouses : ∀ x, f.Houses x → f'.Houses x) : q.Fair on f' r :=
  ⟨hhouses _ h.houses, h.candid⟩

namespace Fleet

variable {f : Fleet} {h : Handle} {r : Request}

/-- Starting a request changes no data. -/
theorem launch_servesAtMost (hf : f.Candid on) (hh : f.Houses h) (env : Env) (now : Instant)
    (r : Request) :
    (f.launch env now h r).1.target = h ∧
      (f.launch env now h r).1.Fair on (f.launch env now h r).2 r ∧
      f.ServesAtMost on (f.launch env now h r).2 none := by
  have hbegin := (hf.node h).begin env r
  have hserving : f.ServesAtMost on (f.launch env now h r).2 none :=
    servesAtMost_replace hh ((Node.begin_id ..).trans hh.node_id) (Node.begin_store ..)
      fun _ => hbegin.2
  exact ⟨rfl, ⟨hserving.houses h hh, hbegin.1⟩, hserving⟩

/-- Starting the requests of a write changes no data. The induction is on the nodes still to be
asked. -/
theorem launchAll_servesAtMost (hf : f.Candid on) (env : Env) (now : Instant) (r : Request)
    (hs : List Handle) (hh : ∀ x ∈ hs, f.Houses x) :
    (Write.launchAll env now r hs f).1.map (·.target) = hs ∧
      (∀ q ∈ (Write.launchAll env now r hs f).1,
        q.Fair on (Write.launchAll env now r hs f).2 r) ∧
      f.ServesAtMost on (Write.launchAll env now r hs f).2 none := by
  induction hs generalizing f with
  | nil => exact ⟨rfl, fun q hq => absurd hq List.not_mem_nil, .refl f⟩
  | cons h hs ih =>
    obtain ⟨-, hfair, hserving⟩ := launch_servesAtMost hf (hh h (List.mem_cons_self ..)) env now r
    obtain ⟨htargets, hflights, hserving'⟩ := ih (hserving.candid hf) fun x hx =>
      hserving.houses x (hh x (List.mem_cons_of_mem _ hx))
    refine ⟨congrArg (h :: ·) htargets, fun q hq => ?_, hserving.trans hserving'⟩
    rcases List.mem_cons.1 hq with rfl | hq
    · exact hfair.mono hserving'.houses
    · exact hflights q hq

/-- The end of a request that has not been given up. -/
theorem conclude_ends (hf : f.Candid on) {q : Flight} (hq : q.Fair on f r) :
    f.Ends on (f.conclude q.target r q.verdict).2.1 q.target r
      (some (f.conclude q.target r q.verdict).1) := by
  have hsame : f.ServesAtMost on (f.replace q.target (f.node q.target)) none :=
    servesAtMost_replace hq.houses hq.houses.node_id rfl fun _ => hf.node _
  cases hv : q.verdict with
  | forward =>
    rw [conclude_forward_fst]
    refine .served _ (fun hon => ?_) (servesAtMost_serve hq.houses r)
    cases r with
    | keys =>
      rw [(hf.node q.target).phantoms hon]
      exact Store.replies_serve _ _
    | set key value => exact trivial
    | get key => exact rfl
    | delete key => exact trivial
    | clear => exact trivial
  | pretend => exact .pretended _ (fun hon => hq.candid hon hv) hsame
  | refuse e => exact .refused e hsame

end Fleet

namespace Cluster

variable {c : Cluster} {h : Handle} {r : Request}

/-- An answer stays what it is when it arrives, but for the order of a listing. -/
theorem ends_arrange {f f' : Fleet} {answer : r.Answer} (h' : f.Ends on f' h r (some answer)) :
    f.Ends on f' h r (some (c.arrange r answer).1) := by
  cases h' with
  | served reply honest serving =>
    by_cases hon : on r.operation
    · obtain ⟨reply', hreply, hrep⟩ := arrange_ok (c := c) r (honest hon)
      rw [hreply]
      exact .served reply' (fun _ => hrep) serving
    · cases r <;> exact .served _ (fun hon' => absurd hon' hon) serving
  | pretended reply dubious serving => cases r <;> exact .pretended _ dubious serving
  | refused e serving =>
    rw [arrange_error]
    exact .refused e serving

/-- **The end of a request.** Either its answer arrives, or it is given up. -/
theorem receive_ends (hf : c.fleet.Candid on) {q : Inquiry} (hq : q.flight.Fair on c.fleet r) :
    c.fleet.Ends on (c.receive q r).2.fleet q.flight.target r (c.receive q r).1 ∧
      (c.receive q r).2.ring = c.ring := by
  cases harr : q.arrives with
  | false =>
    rw [receive_of_not_arrives harr]
    exact ⟨.givenUp (.refl _), rfl⟩
  | true =>
    rw [receive_of_arrives harr]
    obtain ⟨listed, hlisted⟩ := arrange_snd
      (c := { c with fleet := (c.fleet.conclude q.flight.target r q.flight.verdict).2.1 }) r
      (c.fleet.conclude q.flight.target r q.flight.verdict).1
    simp only [report, hlisted, and_true]
    exact ends_arrange (c.fleet.conclude_ends hf hq)

/-- The start of a request. -/
theorem ask_servesAtMost (hf : c.fleet.Candid on) (hh : c.fleet.Houses h) (r : Request)
    (expires : Option Instant) :
    (c.ask h r expires).1.flight.target = h ∧
      (c.ask h r expires).1.flight.Fair on (c.ask h r expires).2.fleet r ∧
      c.fleet.ServesAtMost on (c.ask h r expires).2.fleet none ∧
      (c.ask h r expires).2.ring = c.ring := by
  obtain ⟨ht, hfair, hserving⟩ := Fleet.launch_servesAtMost hf hh c.env c.now r
  exact ⟨ht, hfair, hserving, rfl⟩

/-- The first node of a list of existing nodes has been asked, if there is one. -/
structure AsksHead (on : Operation → Prop) (f : Fleet) (ahead : List Handle) (r : Request)
    (q? : Option Inquiry) : Prop where
  houses : ∀ x ∈ ahead, f.Houses x
  head : q?.map (·.flight.target) = ahead.head?
  fair : ∀ q, q? = some q → q.flight.Fair on f r

theorem AsksHead.mono {f f' : Fleet} {ahead : List Handle} {q? : Option Inquiry}
    (h : AsksHead on f ahead r q?) (hh : ∀ x, f.Houses x → f'.Houses x) :
    AsksHead on f' ahead r q? :=
  ⟨fun x hx => hh x (h.houses x hx), h.head, fun q hq => (h.fair q hq).mono hh⟩

/-- The start of a request to the first node of a list. -/
theorem askHead_servesAtMost (hf : c.fleet.Candid on) {ahead : List Handle}
    (hh : ∀ x ∈ ahead, c.fleet.Houses x) (r : Request) (expires : Option Instant) :
    AsksHead on (c.askHead ahead r expires).2.fleet ahead r (c.askHead ahead r expires).1 ∧
      c.fleet.ServesAtMost on (c.askHead ahead r expires).2.fleet none ∧
      (c.askHead ahead r expires).2.ring = c.ring := by
  cases ahead with
  | nil => exact ⟨⟨hh, rfl, fun q hq => absurd hq.symm (Option.some_ne_none q)⟩, .refl _, rfl⟩
  | cons h ahead =>
    obtain ⟨ht, hfair, hserving, hring⟩ :=
      ask_servesAtMost hf (hh h (List.mem_cons_self ..)) r expires
    refine ⟨⟨fun x hx => hserving.houses x (hh x hx), congrArg some ht, fun q hq => ?_⟩, hserving,
      hring⟩
    obtain rfl := Option.some.inj hq
    exact hfair

end Cluster

end ReplicaRing
