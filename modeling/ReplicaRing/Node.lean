import ReplicaRing.Clock
import ReplicaRing.LogEvent
import ReplicaRing.Store

/-!
# Nodes and their faults

A node is a store behind faults. What the faults do to a request is decided when it starts: how
long it takes, and whether it then reaches the store. A request that is given up before its delay
is over therefore never reaches the store.

* `Injection` — a latency, random failures and an outage on demand;
* `Rule` — a scripted fault for certain requests, a certain number of times;
* `Node.begin` — the start of a request, which fixes its `Fate`;
* `Node.conclude` — its end after the delay.
-/

namespace ReplicaRing

/-- What becomes of a request once its delay is over. -/
inductive Verdict where
  /-- It reaches the store. -/
  | forward
  /-- It is reported as done without reaching the store. -/
  | pretend
  | refuse (error : NodeError)
  deriving DecidableEq, Repr

/-- How long a request takes and what becomes of it. -/
structure Fate where
  delay : Duration
  verdict : Verdict
  deriving DecidableEq, Repr

/-- A request that reaches the store at once. -/
def Fate.immediate : Fate := ⟨.zero, .forward⟩

/-! ### Injected faults -/

/-- How often an injected failure strikes. -/
inductive FailureOdds where
  | never
  | always
  | chance (probability : Float)
  deriving Repr

/-- The odds of a failure rate: at one and above it always strikes, at zero and below and for a
rate that is no number it never does. -/
def FailureOdds.ofRate (rate : Float) : FailureOdds :=
  if 1.0 ≤ rate then .always else if 0.0 < rate then .chance rate else .never

/-- What lies outside of the program: what chance contributes to every request, and how long waits
take. -/
structure Env where
  /-- The wish for additional milliseconds of delay, cut to the jitter of the node. -/
  extra : Nat := 0
  /-- A number drawn from the unit interval. -/
  draw : Float := 0.5
  timer : Timer := .standard

/-- Whether a failure strikes. -/
def FailureOdds.strike (env : Env) : FailureOdds → Bool
  | never => false
  | always => true
  | chance p => env.draw < p

/-- Injected faults of a node. -/
structure Injection where
  /-- Delay of every request. -/
  latency : Duration := .zero
  /-- The most that chance adds to the delay, in whole milliseconds. -/
  jitter : Duration := .zero
  odds : FailureOdds := .never
  /-- Whether every request is refused at once. -/
  down : Bool := false
  deriving Repr

/-- What injected faults do to a request. -/
def Injection.fate (node : NodeId) (env : Env) (i : Injection) : Fate :=
  if i.down then ⟨.zero, .refuse (.unavailable node)⟩
  else
    let delay := i.latency + .ofMillis (min env.extra (i.jitter.nanos / 1000000))
    if i.odds.strike env then ⟨delay, .refuse (.failed node "chaos: random failure")⟩
    else ⟨delay, .forward⟩

/-! ### Scripted faults -/

/-- The kinds of requests. -/
inductive Operation where
  | set
  | get
  | delete
  | clear
  | keys
  deriving DecidableEq, Repr

/-- The kind of a request. -/
def Request.operation : Request → Operation
  | set _ _ => .set
  | get _ => .get
  | delete _ => .delete
  | clear => .clear
  | keys => .keys

/-- The key of a request, empty for one about all keys. -/
def Request.key : Request → String
  | set key _ => key
  | get key => key
  | delete key => key
  | clear => ""
  | keys => ""

/-- What a rule makes of a request. -/
inductive Act where
  | forward
  | pretend
  | unavailable
  | timeout
  | failed (reason : String)
  deriving DecidableEq, Repr

/-- The verdict of an act on a node. -/
def Act.verdict (node : NodeId) : Act → Verdict
  | forward => .forward
  | pretend => .pretend
  | unavailable => .refuse (.unavailable node)
  | timeout => .refuse (.timeout node)
  | failed reason => .refuse (.failed node reason)

/-- A fault for the requests of one kind, perhaps of one key only and a limited number of times. -/
structure Rule where
  on : Operation
  key : Option String := none
  delay : Duration := .zero
  act : Act := .forward
  times : Option Nat := none
  deriving DecidableEq, Repr

namespace Rule

/-- Whether a rule applies to a request. -/
def applies (r : Request) (rule : Rule) : Bool :=
  rule.on == r.operation && rule.key.all (· == r.key) && rule.times != some 0

/-- A rule that has been applied once more. -/
def used (rule : Rule) : Rule := { rule with times := rule.times.map (· - 1) }

/-- The first rule that applies to a request, and the rules once it has been applied. -/
def select (r : Request) : List Rule → Option Rule × List Rule
  | [] => (none, [])
  | rule :: rules =>
    if rule.applies r then (some rule, rule.used :: rules)
    else
      let (found, rest) := select r rules
      (found, rule :: rest)

end Rule

/-- What stands between a node's store and its callers. -/
inductive Faults where
  | none
  | injected (i : Injection)
  /-- Rules, and keys that are listed although the store need not hold them. -/
  | scripted (rules : List Rule) (phantoms : List String)
  deriving Repr

/-- A store at a place on the circle, behind its faults. -/
structure Node where
  id : NodeId
  store : Store := .empty
  faults : Faults := .none
  deriving Repr

/-- Add the elements that a list lacks. -/
def addMissing (listed extra : List String) : List String :=
  extra.foldl (fun acc k => if acc.contains k then acc else acc ++ [k]) listed

/-- Add the phantom keys to a listing; other replies stay as they are. -/
def withPhantoms (phantoms : List String) : (r : Request) → r.Reply → r.Reply
  | .keys, listed => addMissing listed phantoms
  | .set _ _, reply => reply
  | .get _, reply => reply
  | .delete _, reply => reply
  | .clear, reply => reply

namespace Node

/-- What a store reports when it serves a request: only that it was cleared. -/
def serveEvents (n : Node) : Request → List LogEvent
  | .clear => [.cleared n.id n.store.size]
  | _ => []

/-- Serve a request from the store, past all faults. -/
def serve (r : Request) (n : Node) : r.Reply × Node × List LogEvent :=
  let (reply, store) := n.store.serve r
  (reply, { n with store := store }, n.serveEvents r)

/-- Start a request: its fate is fixed, and a rule that it uses is used up by one. -/
def begin (env : Env) (r : Request) (n : Node) : Fate × Node :=
  match n.faults with
  | .none => (.immediate, n)
  | .injected i => (i.fate n.id env, n)
  | .scripted rules phantoms =>
    let (rule, rules) := Rule.select r rules
    let fate : Fate := match rule with
      | some rule => ⟨rule.delay, rule.act.verdict n.id⟩
      | Option.none => .immediate
    (fate, { n with faults := .scripted rules phantoms })

/-- The keys that a node lists besides those of its store. -/
def phantoms (n : Node) : List String :=
  match n.faults with
  | .scripted _ phantoms => phantoms
  | _ => []

/-- End a request whose delay is over. -/
def conclude (r : Request) (v : Verdict) (n : Node) : r.Answer × Node × List LogEvent :=
  match v with
  | .forward =>
    let (reply, n', events) := n.serve r
    (.ok (withPhantoms n.phantoms r reply), n', events)
  | .pretend => (.ok (withPhantoms n.phantoms r r.emptyReply), n, [])
  | .refuse error => (.error error, n, [])

/-- Whether a node is switched off. -/
def isDown (n : Node) : Bool :=
  match n.faults with
  | .injected i => i.down
  | _ => false

/-- Change the injected faults of a node that has any. -/
def mapInjection (f : Injection → Injection) (n : Node) : Node :=
  match n.faults with
  | .injected i => { n with faults := .injected (f i) }
  | _ => n

/-- Refuse every request until the node recovers. -/
def fail (n : Node) : Node := n.mapInjection fun i => { i with down := true }

/-- Serve requests again. -/
def recover (n : Node) : Node := n.mapInjection fun i => { i with down := false }

/-- Set the delay of requests started from now on. -/
def setLatency (latency : Duration) (n : Node) : Node :=
  n.mapInjection fun i => { i with latency := latency }

/-- Set the failure rate of requests started from now on. -/
def setFailureRate (rate : Float) (n : Node) : Node :=
  n.mapInjection fun i => { i with odds := .ofRate rate }

/-- A node with injected faults as a printed value. -/
def debug (n : Node) : String :=
  s!"ChaosNode \x7b id: {n.id.debug}, down: {n.isDown}, .. \x7d"

end Node

end ReplicaRing
