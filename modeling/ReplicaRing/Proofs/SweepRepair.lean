import Mathlib.Data.Finset.Card
import ReplicaRing.Proofs.SweepSteps

/-!
# The repair of one key

A source that holds a key visits the replicas of that key. It passes over itself, over those that
hold the key and over those that fail, and copies its value to all others.

* `Report.plus` — a report with more work counted;
* `Counted` — a property holds of exactly so many things;
* `Sweep.Leads` — a sweep gets from one stage to another in a steady cluster;
* `Steady.repair_key` — the data and the counts after the repair of a key.
-/

namespace ReplicaRing

/-! ### Counts -/

/-- A report with more work counted. -/
def Report.plus (r : Report) (nodes keys copies failures : Nat) : Report :=
  { r with
    nodesScanned := r.nodesScanned + nodes
    keysScanned := r.keysScanned + keys
    copies := r.copies + copies
    failures := r.failures + failures }

@[simp] theorem Report.plus_zero (r : Report) : r.plus 0 0 0 0 = r := rfl

@[simp] theorem Report.plus_plus (r : Report) (a b c d a' b' c' d' : Nat) :
    (r.plus a b c d).plus a' b' c' d' = r.plus (a + a') (b + b') (c + c') (d + d') := by
  simp only [plus, Nat.add_assoc]

/-- A property holds of exactly `n` things. -/
def Counted {α : Type} (P : α → Prop) (n : Nat) : Prop :=
  ∃ F : Finset α, (∀ x, x ∈ F ↔ P x) ∧ F.card = n

namespace Counted

variable {α : Type} {P Q : α → Prop} {m n : Nat}

theorem of_false (h : ∀ x, ¬ P x) : Counted P 0 := ⟨∅, fun x => by simp [h x], rfl⟩

theorem congr (h : Counted P n) (hpq : ∀ x, P x ↔ Q x) : Counted Q n := by
  obtain ⟨F, hF, hn⟩ := h
  exact ⟨F, fun x => (hF x).trans (hpq x), hn⟩

/-- There is only one count. -/
theorem unique (hm : Counted P m) (hn : Counted P n) : m = n := by
  obtain ⟨F, hF, rfl⟩ := hm
  obtain ⟨G, hG, rfl⟩ := hn
  have hsame : F = G := Finset.ext fun x => (hF x).trans (hG x).symm
  rw [hsame]

/-- One thing is counted if it has a property. -/
theorem one (a : α) (p : Prop) [Decidable p] :
    Counted (fun x => x = a ∧ p) (if p then 1 else 0) := by
  by_cases hp : p
  · exact ⟨{a}, fun x => by simp [hp], by simp [hp]⟩
  · exact ⟨∅, fun x => by simp [hp], by simp [hp]⟩

/-- Things of two kinds are counted one kind after the other. -/
theorem or (hp : Counted P m) (hq : Counted Q n) (h : ∀ x, P x → ¬ Q x) :
    Counted (fun x => P x ∨ Q x) (m + n) := by
  classical
  obtain ⟨F, hF, rfl⟩ := hp
  obtain ⟨G, hG, rfl⟩ := hq
  refine ⟨F ∪ G, fun x => by rw [Finset.mem_union, hF, hG], Finset.card_union_of_disjoint ?_⟩
  exact Finset.disjoint_left.2 fun x hx hx' => h x ((hF x).1 hx) ((hG x).1 hx')

/-- Things are counted by their names if different ones have different names. -/
theorem map {β : Type} (hp : Counted P n) (f : α → β) (hf : ∀ x y, f x = f y → x = y) :
    Counted (fun y => ∃ x, P x ∧ f x = y) n := by
  obtain ⟨F, hF, rfl⟩ := hp
  refine ⟨F.map ⟨f, fun x y => hf x y⟩, fun y => ?_, Finset.card_map _⟩
  simp only [Finset.mem_map, hF]
  rfl

/-- The elements of a list with a property are counted one after the other. -/
theorem filter_cons {a : α} {l : List α} [Decidable (P a)] (ha : a ∉ l)
    (hn : Counted (fun x => x ∈ l ∧ P x) n) :
    Counted (fun x => x ∈ a :: l ∧ P x) ((if P a then 1 else 0) + n) := by
  refine ((one a (P a)).or hn ?_).congr fun x => ?_
  · rintro x ⟨rfl, -⟩ hx
    exact ha hx.1
  · rw [List.mem_cons, or_and_right]
    refine or_congr_left (and_congr_right fun hx => ?_)
    rw [hx]

/-- Pairs are counted one second component after the other. -/
theorem cons {β : Type} {P : α → β → Prop} {b : β} {bs : List β} (hb : b ∉ bs)
    (hm : Counted (fun x => P x b) m) (hn : Counted (fun p : α × β => p.2 ∈ bs ∧ P p.1 p.2) n) :
    Counted (fun p : α × β => p.2 ∈ b :: bs ∧ P p.1 p.2) (m + n) := by
  have hpairs := hm.map (fun x => (x, b)) fun x y hxy => congrArg Prod.fst hxy
  refine (hpairs.or hn ?_).congr fun p => ?_
  · rintro _ ⟨x, -, rfl⟩ hx
    exact hb hx.1
  · obtain ⟨x, y⟩ := p
    simp only [Prod.mk.injEq, List.mem_cons]
    constructor
    · rintro (⟨x, hx, rfl, rfl⟩ | hy)
      · exact ⟨.inl rfl, hx⟩
      · exact ⟨.inr hy.1, hy.2⟩
    · rintro ⟨rfl | hy, hx⟩
      · exact .inl ⟨x, hx, rfl, rfl⟩
      · exact .inr ⟨hy, hx⟩

theorem of_nodup {l : List α} (h : l.Nodup) : Counted (· ∈ l) l.length := by
  classical
  exact ⟨l.toFinset, fun x => List.mem_toFinset, List.toFinset_card_of_nodup h⟩

end Counted

theorem mem_cons_and_iff {α : Type} {P : α → Prop} {a : α} {l : List α} (ha : ¬ P a) (x : α) :
    (x ∈ a :: l ∧ P x) ↔ x ∈ l ∧ P x := by
  rw [List.mem_cons, or_and_right]
  refine or_iff_right ?_
  rintro ⟨rfl, hx⟩
  exact ha hx

/-! ### From stage to stage -/

/-- A sweep gets from one stage to another, and the cluster stays steady. -/
structure Sweep.Leads (down : Finset NodeId) (c : Cluster) (s : Sweep) (c' : Cluster) (s' : Sweep) :
    Prop where
  reaches : SweepRun.Reaches (⟨s, none⟩, c) (⟨s', none⟩, c')
  steady : c'.Steady down
  evolves : c.Evolves c'

namespace Sweep

variable {down : Finset NodeId} {c c' c'' : Cluster} {s s' s'' : Sweep}

theorem Leads.refl (hc : c.Steady down) (s : Sweep) : Leads down c s c s :=
  ⟨.refl, hc, .refl c⟩

theorem Leads.trans (h : Leads down c s c' s') (h' : Leads down c' s' c'' s'') :
    Leads down c s c'' s'' :=
  ⟨Relation.ReflTransGen.trans h.reaches h'.reaches, h'.steady, h.evolves.trans h'.evolves⟩

/-- A step at a boundary. -/
theorem Leads.boundary (hc : c.Steady down) (hs : ∀ w, s.stage ≠ .waiting w)
    (hf : s.isFinished = false) :
    ∃ c', Leads down c s c' (s.proceed c.ring false).1 ∧ c'.fleet = c.fleet :=
  ⟨_, ⟨SweepRun.Reaches.tick hf (SweepRun.tick_boundary hs), hc.of_eq rfl rfl rfl,
    .of_eq rfl rfl rfl⟩, rfl⟩

end Sweep

/-! ### The replicas of a key -/

namespace KeyRepair

variable {j : KeyRepair}

theorem next_nil (h : j.ahead = []) : j.next = .betweenKeys j.source j.keys := by
  rw [next, h]
  rfl

theorem next_source {h : Handle} {rest : List Handle} (ha : j.ahead = h :: rest)
    (hid : h.id = j.source.id) : j.next = { j with ahead := rest }.next := by
  rw [next, next, ha, List.dropWhile_cons_of_pos (by simpa using hid)]

theorem next_other {h : Handle} {rest : List Handle} (ha : j.ahead = h :: rest)
    (hid : h.id ≠ j.source.id) :
    j.next = .waiting (.checking { j with ahead := rest } h) := by
  rw [next, ha, List.dropWhile_cons_of_neg (by simpa using hid)]

end KeyRepair

namespace Cluster

variable {down : Finset NodeId} {c : Cluster} {s : Sweep} {j : KeyRepair} {h : Handle}
  {v : String}

/-- The copy to a replica that lacks a key. -/
theorem Steady.copy (hc : c.Steady down) (hs : s.stage = .waiting (.copying j h v))
    (hh : h ∈ c.ring.membership.handles) (hd : h.id ∉ down) :
    ∃ c', Sweep.Leads down c s c'
        { s with stage := j.next, report := s.report.plus 0 0 1 0 } ∧
      ∀ x ∈ c.ring.membership.handles, ∀ k, c'.fleet.held x k =
        if x = h ∧ k = j.key then some v else c.fleet.held x k := by
  obtain ⟨reply, c', hreach, hst, hev, -, hheld⟩ := hc.exchange_ok hs hh hd
  refine ⟨c', ⟨hreach, hst, hev⟩, fun x hx k => ?_⟩
  rw [hheld x hx k]
  show (if x = h then (if k = j.key then some v else c.fleet.held x k) else _) = _
  by_cases hxh : x = h <;> simp [hxh]

/-- A replica that lacks the key of a job gets it, whether or not the value has been read before. -/
theorem Steady.copy_read (hc : c.Steady down) (hs : s.stage = .waiting (.checking j h))
    (hh : h ∈ c.ring.membership.handles) (hd : h.id ∉ down)
    (hsrc : j.source ∈ c.ring.membership.handles) (hup : j.source.id ∉ down)
    (hv : c.fleet.held j.source j.key = some v) (hval : j.value = none ∨ j.value = some v)
    (hlack : c.fleet.held h j.key = none) :
    ∃ c', Sweep.Leads down c s c'
        { s with
          stage := { j with value := some v }.next
          report := s.report.plus 0 0 1 0 } ∧
      ∀ x ∈ c.ring.membership.handles, ∀ k, c'.fleet.held x k =
        if x = h ∧ k = j.key then some v else c.fleet.held x k := by
  obtain ⟨reply, c₁, hreach₁, hst₁, hev₁, hrep₁, hheld₁⟩ := hc.exchange_ok hs hh hd
  obtain rfl : reply = none := hrep₁.trans hlack
  have hsame₁ : ∀ x ∈ c.ring.membership.handles, ∀ k, c₁.fleet.held x k = c.fleet.held x k :=
    fun x hx k => (hheld₁ x hx k).trans (ite_self _)
  have hring₁ := hev₁.ring
  rcases hval with hval | hval
  · -- the value has to be read first
    have hresume : (s.resume (.checking j h) (.ok none)).1 =
        { s with stage := .waiting (.fetching j h) } := by simp only [Sweep.resume, hval]
    rw [hresume] at hreach₁
    obtain ⟨reply, c₂, hreach₂, hst₂, hev₂, hrep₂, hheld₂⟩ :=
      hst₁.exchange_ok (s := { s with stage := .waiting (.fetching j h) }) rfl
        (show j.source ∈ _ by rwa [hring₁]) hup
    obtain rfl : reply = some v := hrep₂.trans ((hsame₁ _ hsrc _).trans hv)
    have hsame₂ : ∀ x ∈ c.ring.membership.handles, ∀ k, c₂.fleet.held x k = c.fleet.held x k :=
      fun x hx k => ((hheld₂ x (by rwa [hring₁]) k).trans (ite_self _)).trans (hsame₁ x hx k)
    have hring₂ : c₂.ring = c.ring := hev₂.ring.trans hring₁
    obtain ⟨c₃, hlead, hheld₃⟩ := hst₂.copy (j := { j with value := some v }) (h := h)
      (v := v) (s := { s with stage := _ }) rfl (by rwa [hring₂]) hd
    refine ⟨c₃, Sweep.Leads.trans ⟨hreach₁, hst₁, hev₁⟩ (.trans ⟨hreach₂, hst₂, hev₂⟩ hlead),
      fun x hx k => ?_⟩
    rw [hheld₃ x (by rwa [hring₂]) k, hsame₂ x hx k]
  · have hresume : (s.resume (.checking j h) (.ok none)).1 =
        { s with stage := .waiting (.copying j h v) } := by simp only [Sweep.resume, hval]
    have hjob : { j with value := some v } = j := by rw [← hval]
    rw [hresume] at hreach₁
    obtain ⟨c₂, hlead, hheld₂⟩ := hst₁.copy (s := { s with stage := .waiting (.copying j h v) })
      rfl (by rwa [hring₁]) hd
    rw [hjob]
    refine ⟨c₂, Sweep.Leads.trans ⟨hreach₁, hst₁, hev₁⟩ hlead, fun x hx k => ?_⟩
    rw [hheld₂ x (by rwa [hring₁]) k, hsame₁ x hx k]

/-- **One replica.** A replica that answers ends up with a value, its own or that of the source, and
one that fails is counted as such. -/
theorem Steady.repair_member (hc : c.Steady down) (hs : s.stage = .waiting (.checking j h))
    (hh : h ∈ c.ring.membership.handles) (hsrc : j.source ∈ c.ring.membership.handles)
    (hup : j.source.id ∉ down) (hv : c.fleet.held j.source j.key = some v)
    (hval : j.value = none ∨ j.value = some v) :
    ∃ c' value, (value = none ∨ value = some v) ∧
      Sweep.Leads down c s c'
        { s with
          stage := { j with value := value }.next
          report := s.report.plus 0 0
            (if h.id ∉ down ∧ c.fleet.held h j.key = none then 1 else 0)
            (if h.id ∈ down then 1 else 0) } ∧
      ∀ x ∈ c.ring.membership.handles, ∀ k, c'.fleet.held x k =
        if x = h ∧ k = j.key ∧ h.id ∉ down ∧ c.fleet.held h j.key = none then some v
        else c.fleet.held x k := by
  by_cases hd : h.id ∈ down
  · obtain ⟨e, c', hreach, hst, hev, hheld⟩ := hc.exchange_error hs hh hd
    refine ⟨c', j.value, hval, ⟨?_, hst, hev⟩, fun x hx k => ?_⟩
    · rw [if_pos hd, if_neg (fun hn => hn.1 hd)]
      exact hreach
    · rw [hheld x hx k, if_neg (fun hn => hn.2.2.1 hd)]
  · cases hold : c.fleet.held h j.key with
    | none =>
      obtain ⟨c', hlead, hheld⟩ := hc.copy_read hs hh hd hsrc hup hv hval hold
      refine ⟨c', some v, .inr rfl, ?_, fun x hx k => ?_⟩
      · simpa [hd] using hlead
      · rw [hheld x hx k]
        simp [hd]
    | some old =>
      obtain ⟨reply, c', hreach, hst, hev, hrep, hheld⟩ := hc.exchange_ok hs hh hd
      obtain rfl : reply = some old := hrep.trans hold
      refine ⟨c', j.value, hval, ⟨?_, hst, hev⟩, fun x hx k => ?_⟩
      · rw [if_neg hd, if_neg (fun hn => Option.some_ne_none old hn.2)]
        exact hreach
      · rw [if_neg (fun hn => Option.some_ne_none old hn.2.2.2)]
        exact (hheld x hx k).trans (ite_self _)

/-- **The replicas of a key.** Every replica ahead that answers ends up with a value. The induction
is on these replicas; a copy to one of them changes nothing for the others. -/
theorem Steady.repair_ahead (ahead : List Handle) (hc : c.Steady down) (hs : s.stage = j.next)
    (hahead : j.ahead = ahead) (hsub : ∀ x ∈ ahead, x ∈ c.ring.membership.handles)
    (hnodup : ahead.Nodup) (hsrc : j.source ∈ c.ring.membership.handles)
    (hup : j.source.id ∉ down) (hv : c.fleet.held j.source j.key = some v)
    (hval : j.value = none ∨ j.value = some v) :
    ∃ c' copies failures, Sweep.Leads down c s c'
        { s with
          stage := .betweenKeys j.source j.keys
          report := s.report.plus 0 0 copies failures } ∧
      (∀ x ∈ c.ring.membership.handles, ∀ k, c'.fleet.held x k =
        if k = j.key ∧ x ∈ ahead ∧ x.id ∉ down ∧ c.fleet.held x j.key = none then some v
        else c.fleet.held x k) ∧
      Counted (fun x => x ∈ ahead ∧ x.id ∉ down ∧ c.fleet.held x j.key = none) copies ∧
      Counted (fun x => x ∈ ahead ∧ x.id ∈ down) failures := by
  induction ahead generalizing c s j with
  | nil =>
    have hs' : s = { s with stage := .betweenKeys j.source j.keys } := by
      rw [← j.next_nil hahead, ← hs]
    refine ⟨c, 0, 0, ?_, fun x _ k => by simp, .of_false (by simp), .of_false (by simp)⟩
    rw [Report.plus_zero, ← hs']
    exact .refl hc s
  | cons a ahead ih =>
    rw [List.nodup_cons] at hnodup
    have ha : a ∈ c.ring.membership.handles := hsub a (List.mem_cons_self ..)
    have hsub' : ∀ x ∈ ahead, x ∈ c.ring.membership.handles :=
      fun x hx => hsub x (List.mem_cons_of_mem _ hx)
    by_cases hid : a.id = j.source.id
    · -- the source itself is passed over: it neither lacks the key nor fails
      obtain rfl : a = j.source := hc.sound.eq_of_id ha hsrc hid
      have hlacks := mem_cons_and_iff (l := ahead)
        (P := fun x => x.id ∉ down ∧ c.fleet.held x j.key = none) (a := j.source)
        fun h => Option.some_ne_none v (hv.symm.trans h.2)
      have hfails := mem_cons_and_iff (l := ahead) (P := fun x => x.id ∈ down) hup
      obtain ⟨c', m, n, hlead, hheld, hm, hn⟩ := ih (j := { j with ahead := ahead }) hc
        (hs.trans (j.next_source hahead rfl)) rfl hsub' hnodup.2 hsrc hup hv hval
      refine ⟨c', m, n, hlead, fun x hx k => ?_, hm.congr fun x => (hlacks x).symm,
        hn.congr fun x => (hfails x).symm⟩
      rw [hheld x hx k]
      simp only [hlacks]
    · obtain ⟨c₁, value, hvalue, hlead₁, hheld₁⟩ :=
        hc.repair_member (j := { j with ahead := ahead }) (hs.trans (j.next_other hahead hid))
          ha hsrc hup hv hval
      have hring : c₁.ring = c.ring := hlead₁.evolves.ring
      have hne : ∀ x, x ∈ ahead ∨ x = j.source → x ≠ a := by
        rintro x (hx | rfl) rfl
        · exact hnodup.1 hx
        · exact hid rfl
      have hkept : ∀ x ∈ c.ring.membership.handles, x ∈ ahead ∨ x = j.source →
          ∀ k, c₁.fleet.held x k = c.fleet.held x k :=
        fun x hx hx' k => (hheld₁ x hx k).trans (if_neg fun h => hne x hx' h.1)
      obtain ⟨c', m, n, hlead, hheld, hm, hn⟩ :=
        ih (s := { s with stage := _, report := _ })
          (j := { j with ahead := ahead, value := value }) hlead₁.steady rfl rfl
          (by rwa [hring]) hnodup.2 (by rwa [hring]) hup
          ((hkept _ hsrc (.inr rfl) _).trans hv) hvalue
      have hlacks : ∀ x ∈ ahead, c₁.fleet.held x j.key = c.fleet.held x j.key :=
        fun x hx => hkept x (hsub' x hx) (.inl hx) _
      refine ⟨c', _, _, ?_, fun x hx k => ?_,
        Counted.filter_cons (P := fun x => x.id ∉ down ∧ c.fleet.held x j.key = none)
          hnodup.1 (hm.congr fun x => and_congr_right fun hx => by rw [hlacks x hx]),
        Counted.filter_cons hnodup.1 hn⟩
      · simpa only [Report.plus_plus, Nat.zero_add] using hlead₁.trans hlead
      · rw [hheld x (by rwa [hring]) k, hheld₁ x hx k]
        by_cases hxa : x = a
        · subst hxa
          simp [hnodup.1]
        · by_cases hxr : x ∈ ahead
          · simp [hxa, hxr, hlacks x hxr]
          · simp [hxa, hxr]

end Cluster

end ReplicaRing
