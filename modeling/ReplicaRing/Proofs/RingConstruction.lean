import ReplicaRing.Proofs.RingChanges

/-!
# The construction of rings

A ring can be built over nodes all at once or over some of them, with the others added one by one.

* `FirstRepeat` — the first node of a list that has the identity of an earlier one;
* `Ring.enter_empty_cases` — nodes can be entered just if there is no such node;
* `Ring.create_ok_iff`, `Ring.create_error_iff` — the exact results of a construction;
* `Membership.Sound.nodes_eq` — a membership is known by its nodes, in whichever order they came;
* `Ring.Proper.addAll` — nodes with new identities can be added one by one;
* `create_exact` — which rings can be built, why others cannot, and that no order matters.
-/

namespace ReplicaRing

/-- Two memberships of the same nodes are equal, but perhaps for their versions. -/
theorem Membership.Sound.nodes_eq {m m' : Membership} (h : m.Sound) (h' : m'.Sound)
    (hperm : m.handles.Perm m'.handles) : m.nodes = m'.nodes := by
  have hsub : ∀ {m m' : Membership}, m.Sound → m'.Sound → m.handles.Perm m'.handles →
      ∀ id x, m.find? id = some x → m'.find? id = some x := by
    intro m m' h h' hperm id x hx
    obtain ⟨hmem, rfl⟩ := Membership.mem_of_find? h hx
    exact h'.find?_of_mem (hperm.mem_iff.1 hmem)
  refine h.sorted.eq_of_find? h'.sorted fun id => Option.ext fun x => ?_
  exact ⟨hsub h h' hperm id x, hsub h' h hperm.symm id x⟩

/-- The first node of a list that has the identity of an earlier one. -/
def FirstRepeat (handles : List Handle) (h : Handle) : Prop :=
  ∃ before after, handles = before ++ h :: after ∧ (before.map Handle.id).Nodup ∧
    h.id ∈ before.map Handle.id

/-- Identities that do not differ repeat. -/
theorem FirstRepeat.exists {handles : List Handle} (h : ¬ (handles.map Handle.id).Nodup) :
    ∃ x, FirstRepeat handles x := by
  induction handles using List.reverseRecOn with
  | nil => exact absurd List.nodup_nil h
  | append_singleton handles x ih =>
    by_cases hnodup : (handles.map Handle.id).Nodup
    · have hmem : x.id ∈ handles.map Handle.id := by
        by_contra hnot
        rw [List.map_append, List.map_singleton, ← List.concat_eq_append] at h
        exact h (hnodup.concat hnot)
      exact ⟨x, handles, [], rfl, hnodup, hmem⟩
    · obtain ⟨y, before, after, rfl, hbefore, hmem⟩ := ih hnodup
      exact ⟨y, before, after ++ [x], by simp, hbefore, hmem⟩

namespace Ring

variable {r : Ring} {handles : List Handle}

/-! ### Nodes all at once -/

/-- Nodes whose identities are new and differ can be entered. -/
theorem enter_of_nodup {nodes : OrderedMap NodeId Handle}
    (hnodup : (handles.map Handle.id).Nodup) (hnew : ∀ x ∈ handles, nodes.find? x.id = none) :
    ∃ out, enter nodes handles = .ok out := by
  induction handles generalizing nodes with
  | nil => exact ⟨nodes, rfl⟩
  | cons x handles ih =>
    obtain ⟨hx, hrest⟩ := List.nodup_cons.1 hnodup
    have hfree : nodes.contains x.id = false := by
      rw [OrderedMap.contains, hnew x (List.mem_cons_self ..)]
      rfl
    rw [enter, hfree]
    refine ih hrest fun y hy => ?_
    have hne : y.id ≠ x.id := fun he => hx (he ▸ List.mem_map_of_mem hy)
    rw [OrderedMap.find?_insert, if_neg hne]
    exact hnew y (List.mem_cons_of_mem _ hy)

theorem enter_empty_of_nodup (hnodup : (handles.map Handle.id).Nodup) :
    ∃ out, enter .empty handles = .ok out := enter_of_nodup hnodup fun _ _ => rfl

theorem enter_append {nodes out : OrderedMap NodeId Handle} {before : List Handle}
    (h : enter nodes before = .ok out) (after : List Handle) :
    enter nodes (before ++ after) = enter out after := by
  induction before generalizing nodes with
  | nil => rw [Except.ok.inj h, List.nil_append]
  | cons x before ih =>
    rw [enter] at h
    rw [List.cons_append, enter]
    split at h
    · cases h
    · next hfree =>
      rw [if_neg hfree]
      exact ih h

theorem empty_sound : (Membership.mk .empty 0).Sound := ⟨List.Pairwise.nil, fun _ he => nomatch he⟩

/-- Entering nodes fails at the first one that has the identity of an earlier one. -/
theorem enter_of_repeat {h : Handle} (hrepeat : FirstRepeat handles h) :
    enter .empty handles = .error (.duplicateNode h.id) := by
  obtain ⟨before, after, rfl, hnodup, hmem⟩ := hrepeat
  obtain ⟨out, hout⟩ := enter_empty_of_nodup hnodup
  obtain ⟨hsound, hperm⟩ := enter_ok hout empty_sound
  have htaken : out.contains h.id = true := by
    obtain ⟨x, hx, hid⟩ := List.mem_map.1 hmem
    exact (Membership.contains_iff hsound).2
      ⟨x, hperm.mem_iff.2 (List.mem_append_left _ hx), hid⟩
  rw [enter_append hout, enter, if_pos htaken]

section Checks

variable {hasher : KeyHasher} {options : RingOptions}

theorem create_of_invalid {e : RingError} (h : options.validate = .error e) :
    create hasher options handles = .error e := by
  rw [create, h]

theorem create_of_short (hvalid : options.validate = .ok ())
    (hshort : handles.length < options.replicaCount) : create hasher options handles =
      .error (.ringTooSmall handles.length options.replicaCount) := by
  rw [create, hvalid]
  exact if_pos hshort

theorem create_of_enough (hvalid : options.validate = .ok ())
    (henough : options.replicaCount ≤ handles.length) : create hasher options handles =
      (enter .empty handles).map fun nodes => ⟨hasher, options, ⟨nodes, 0⟩⟩ := by
  rw [create, hvalid]
  exact if_neg (Nat.not_lt.2 henough)

/-- Options fail with a reason or are valid. -/
theorem validate_cases (options : RingOptions) :
    (∃ reason, options.validate = .error (.invalidOptions reason)) ∨
      options.validate = .ok () := by
  rw [RingOptions.validate]
  split
  · exact .inl ⟨_, rfl⟩
  · exact .inr rfl

/-- Nodes are entered if their identities differ, and else there is a first one that repeats. -/
theorem enter_empty_cases (handles : List Handle) :
    ((handles.map Handle.id).Nodup ∧ ∃ out, enter .empty handles = .ok out) ∨
      ∃ h, FirstRepeat handles h ∧ enter .empty handles = .error (.duplicateNode h.id) := by
  by_cases hnodup : (handles.map Handle.id).Nodup
  · exact .inl ⟨hnodup, enter_empty_of_nodup hnodup⟩
  · obtain ⟨h, hrepeat⟩ := FirstRepeat.exists hnodup
    exact .inr ⟨h, hrepeat, enter_of_repeat hrepeat⟩

/-- Which rings can be built. -/
theorem create_ok_iff : (∃ r, create hasher options handles = .ok r) ↔
    options.validate = .ok () ∧ options.replicaCount ≤ handles.length ∧
      (handles.map Handle.id).Nodup := by
  constructor
  · rintro ⟨r, hr⟩
    obtain ⟨reason, hinvalid⟩ | hvalid := validate_cases options
    · exact nomatch hr.symm.trans (create_of_invalid hinvalid)
    · refine ⟨hvalid, ?_⟩
      by_cases hshort : handles.length < options.replicaCount
      · exact nomatch hr.symm.trans (create_of_short hvalid hshort)
      · obtain ⟨hnodup, -⟩ | ⟨h, -, henter⟩ := enter_empty_cases handles
        · exact ⟨Nat.not_lt.1 hshort, hnodup⟩
        · rw [create_of_enough hvalid (Nat.not_lt.1 hshort), henter] at hr
          exact nomatch hr
  · rintro ⟨hvalid, henough, hnodup⟩
    obtain ⟨out, hout⟩ := enter_empty_of_nodup hnodup
    exact ⟨_, by rw [create_of_enough hvalid henough, hout]; rfl⟩

/-- Why a ring cannot be built. -/
theorem create_error_iff (e : RingError) : create hasher options handles = .error e ↔
    (∃ reason, e = .invalidOptions reason ∧ options.validate = .error e) ∨
    (options.validate = .ok () ∧ handles.length < options.replicaCount ∧
      e = .ringTooSmall handles.length options.replicaCount) ∨
    (options.validate = .ok () ∧ options.replicaCount ≤ handles.length ∧
      ∃ h, FirstRepeat handles h ∧ e = .duplicateNode h.id) := by
  constructor
  · intro he
    obtain ⟨reason, hinvalid⟩ | hvalid := validate_cases options
    · obtain rfl := Except.error.inj (he.symm.trans (create_of_invalid hinvalid))
      exact .inl ⟨reason, rfl, hinvalid⟩
    · by_cases hshort : handles.length < options.replicaCount
      · exact .inr (.inl ⟨hvalid, hshort,
          Except.error.inj (he.symm.trans (create_of_short hvalid hshort))⟩)
      · have henough := Nat.not_lt.1 hshort
        rw [create_of_enough hvalid henough] at he
        obtain ⟨-, out, hout⟩ | ⟨h, hrepeat, henter⟩ := enter_empty_cases handles
        · rw [hout] at he
          exact nomatch he
        · rw [henter] at he
          exact .inr (.inr ⟨hvalid, henough, h, hrepeat, (Except.error.inj he).symm⟩)
  · rintro (⟨reason, rfl, hinvalid⟩ | ⟨hvalid, hshort, rfl⟩ | ⟨hvalid, henough, h, hrepeat, rfl⟩)
    · exact create_of_invalid hinvalid
    · exact create_of_short hvalid hshort
    · rw [create_of_enough hvalid henough, enter_of_repeat hrepeat]
      rfl

end Checks

/-! ### Nodes one by one -/

/-- Adding a node with a new identity. -/
theorem Proper.add_of_new {h : Handle} (hr : r.Proper) (hnew : r.membership.find? h.id = none) :
    ∃ r', r.add h = .ok r' ∧ r'.Proper ∧
      r.Becomes r' (Function.update r.membership.find? h.id (some h)) ∧
      r'.membership.handles.Perm (h :: r.membership.handles) := by
  obtain ⟨htaken, -⟩ | ⟨-, r', hadd, hbecomes⟩ := hr.add_cases h
  · rw [Membership.contains, OrderedMap.contains, ← Membership.find?, hnew] at htaken
    cases htaken
  · refine ⟨r', hadd, (hr.changes (.inl ⟨h, hadd⟩)).1, hbecomes, ?_⟩
    obtain ⟨e, he⟩ | ⟨hok, -, -⟩ := r.add_cases h
    · cases he.symm.trans hadd
    · rw [Except.ok.inj (hadd.symm.trans hok)]
      exact Membership.handles_insert hnew _

/-- **Additions.** Nodes whose identities are new and differ can be added one by one. -/
theorem Proper.addAll {rest : List Handle} (hr : r.Proper)
    (hnodup : (rest.map Handle.id).Nodup) (hnew : ∀ x ∈ rest, r.membership.find? x.id = none) :
    ∃ r', rest.foldlM add r = .ok r' ∧ r'.Proper ∧ r'.hasher = r.hasher ∧ r'.options = r.options ∧
      r'.membership.version = r.membership.version + rest.length ∧
      r'.membership.handles.Perm (rest ++ r.membership.handles) := by
  induction rest generalizing r with
  | nil => exact ⟨r, rfl, hr, rfl, rfl, rfl, .refl _⟩
  | cons x rest ih =>
    obtain ⟨hx, hrest⟩ := List.nodup_cons.1 hnodup
    obtain ⟨r₁, hadd, hr₁, hbecomes, hperm₁⟩ := hr.add_of_new (hnew x (List.mem_cons_self ..))
    have hnew₁ : ∀ y ∈ rest, r₁.membership.find? y.id = none := fun y hy => by
      have hne : y.id ≠ x.id := fun he => hx (he ▸ List.mem_map_of_mem hy)
      rw [hbecomes.found, Function.update_of_ne hne]
      exact hnew y (List.mem_cons_of_mem _ hy)
    obtain ⟨r', hfold, hr', hhasher, hoptions, hversion, hperm⟩ := ih hr₁ hrest hnew₁
    refine ⟨r', ?_, hr', hhasher.trans hbecomes.hasher, hoptions.trans hbecomes.options, ?_,
      (hperm.trans (hperm₁.append_left rest)).trans List.perm_middle⟩
    · rw [List.foldlM_cons, hadd]
      exact hfold
    · rw [hversion, hbecomes.version, List.length_cons]
      omega

/-! ### Any order -/

/-- A ring in order is known by its hasher, its options, its version and its nodes. -/
theorem Proper.eq_of_perm {r' : Ring} (hr : r.Proper) (hr' : r'.Proper)
    (hhasher : r'.hasher = r.hasher) (hoptions : r'.options = r.options)
    (hperm : r'.membership.handles.Perm r.membership.handles) :
    r' = { r with membership := ⟨r.membership.nodes, r'.membership.version⟩ } := by
  have hnodes := hr'.sound.nodes_eq hr.sound hperm
  obtain ⟨hasher, options, nodes, version⟩ := r'
  cases hhasher
  cases hoptions
  cases hnodes
  rfl

/-- Some nodes entered in any order and the others added in any order make the same ring as all of
them entered. -/
theorem create_split {hasher : KeyHasher} {options : RingOptions} {first rest : List Handle}
    (h : create hasher options handles = .ok r) (hperm : (first ++ rest).Perm handles)
    (henough : options.replicaCount ≤ first.length) :
    ∃ r', create hasher options first = .ok r' ∧
      rest.foldlM add r' = .ok { r with membership := ⟨r.membership.nodes, rest.length⟩ } := by
  obtain ⟨hvalid, -, hnodup⟩ := create_ok_iff.1 ⟨r, h⟩
  rw [← (hperm.map Handle.id).nodup_iff, List.map_append] at hnodup
  obtain ⟨hfirst, hrest, hapart⟩ := List.nodup_append.1 hnodup
  obtain ⟨r', h'⟩ := create_ok_iff.2 ⟨hvalid, henough, hfirst⟩
  obtain ⟨hr, hhasher, hoptions, -⟩ := proper_of_create h
  obtain ⟨hr', hhasher', hoptions', hversion'⟩ := proper_of_create h'
  obtain ⟨-, -, -, -, -, hhandles⟩ := create_ok h
  obtain ⟨-, -, -, -, -, hhandles'⟩ := create_ok h'
  have hnew : ∀ x ∈ rest, r'.membership.find? x.id = none := fun x hx => by
    by_contra hne
    obtain ⟨y, hy⟩ := Option.ne_none_iff_exists'.1 hne
    obtain ⟨hmem, hid⟩ := Membership.mem_of_find? hr'.sound hy
    exact hapart _ (List.mem_map_of_mem (hhandles'.mem_iff.1 hmem)) _ (List.mem_map_of_mem hx) hid
  obtain ⟨r'', hfold, hr'', hhasher'', hoptions'', hversion'', hall⟩ := hr'.addAll hrest hnew
  refine ⟨r', h', hfold.trans (congrArg Except.ok ?_)⟩
  have hsame : r''.membership.handles.Perm r.membership.handles :=
    ((hall.trans (hhandles'.append_left rest)).trans List.perm_append_comm).trans
      (hperm.trans hhandles.symm)
  rw [hr.eq_of_perm hr'' (hhasher''.trans (hhasher'.trans hhasher.symm))
    (hoptions''.trans (hoptions'.trans hoptions.symm)) hsame, hversion'', hversion', Nat.zero_add]

/-- The order in which nodes are entered does not matter. -/
theorem create_perm {hasher : KeyHasher} {options : RingOptions} {handles' : List Handle}
    (h : create hasher options handles = .ok r) (hperm : handles'.Perm handles) :
    create hasher options handles' = .ok r := by
  obtain ⟨-, henough, -⟩ := create_ok_iff.1 ⟨r, h⟩
  have hall : (handles' ++ []).Perm handles := by rwa [List.append_nil]
  obtain ⟨r', h', hnone⟩ := create_split h hall (hperm.length_eq ▸ henough)
  rw [h', Except.ok.inj hnone, List.length_nil, ← create_version h]

/-- **Rings that can be built.** A ring is built over nodes just if its options are valid, the nodes
are at least as many as a key has replicas, and their identities differ. If it is not built, then
the reason is the first of these that fails, and of the identities that do not differ it is the
first that repeats. If it is built, then just over these nodes, and no order matters: the same ring
comes of the nodes in any order, and of any of them that are enough for the replicas of a key if
the others are added in any order, which the version counts. -/
theorem create_exact (hasher : KeyHasher) (options : RingOptions) (handles : List Handle) :
    ((∃ r, create hasher options handles = .ok r) ↔ options.validate = .ok () ∧
      options.replicaCount ≤ handles.length ∧ (handles.map Handle.id).Nodup) ∧
    (∀ e, create hasher options handles = .error e ↔
      (∃ reason, e = .invalidOptions reason ∧ options.validate = .error e) ∨
      (options.validate = .ok () ∧ handles.length < options.replicaCount ∧
        e = .ringTooSmall handles.length options.replicaCount) ∨
      (options.validate = .ok () ∧ options.replicaCount ≤ handles.length ∧
        ∃ h, FirstRepeat handles h ∧ e = .duplicateNode h.id)) ∧
    ∀ r, create hasher options handles = .ok r →
      r.membership.handles.Perm handles ∧ r.membership.version = 0 ∧
      (∀ handles', handles'.Perm handles → create hasher options handles' = .ok r) ∧
      ∀ first rest, (first ++ rest).Perm handles → options.replicaCount ≤ first.length →
        ∃ r', create hasher options first = .ok r' ∧
          rest.foldlM add r' = .ok { r with membership := ⟨r.membership.nodes, rest.length⟩ } := by
  refine ⟨create_ok_iff, create_error_iff, fun r hr => ?_⟩
  obtain ⟨-, -, -, -, -, hhandles⟩ := create_ok hr
  exact ⟨hhandles, create_version hr, fun handles' hperm => create_perm hr hperm,
    fun first rest hperm henough => create_split hr hperm henough⟩

/-- Three nodes make one ring in two orders, and also if one of them is added to the others. With
two of them repeated, the second one is to blame, for it repeats first. -/
theorem create_exact_trio :
    (∃ r r', create (fun _ => 5) { replicaCount := 2 } [⟨⟨30⟩, 0⟩, ⟨⟨10⟩, 1⟩, ⟨⟨20⟩, 2⟩] = .ok r ∧
      create (fun _ => 5) { replicaCount := 2 } [⟨⟨10⟩, 1⟩, ⟨⟨20⟩, 2⟩, ⟨⟨30⟩, 0⟩] = .ok r ∧
      create (fun _ => 5) { replicaCount := 2 } [⟨⟨10⟩, 1⟩, ⟨⟨20⟩, 2⟩] = .ok r' ∧
      [⟨⟨30⟩, 0⟩].foldlM add r' = .ok { r with membership := ⟨r.membership.nodes, 1⟩ }) ∧
    create (fun _ => 5) { replicaCount := 2 }
        [⟨⟨30⟩, 0⟩, ⟨⟨10⟩, 1⟩, ⟨⟨20⟩, 2⟩, ⟨⟨10⟩, 3⟩, ⟨⟨30⟩, 4⟩] = .error (.duplicateNode ⟨10⟩) := by
  constructor
  · obtain ⟨hbuilt, -, hany⟩ := create_exact (fun _ => 5) { replicaCount := 2 }
      [⟨⟨30⟩, 0⟩, ⟨⟨10⟩, 1⟩, ⟨⟨20⟩, 2⟩]
    obtain ⟨r, hr⟩ := hbuilt.2 (by decide)
    obtain ⟨-, -, hperm, hsplit⟩ := hany r hr
    obtain ⟨r', hr', hadd⟩ := hsplit [⟨⟨10⟩, 1⟩, ⟨⟨20⟩, 2⟩] [⟨⟨30⟩, 0⟩] (by decide) (by decide)
    exact ⟨r, r', hr, hperm _ (by decide), hr', hadd⟩
  · exact ((create_exact ..).2.1 _).2 (.inr (.inr ⟨by decide, by decide, ⟨⟨10⟩, 3⟩,
      ⟨[⟨⟨30⟩, 0⟩, ⟨⟨10⟩, 1⟩, ⟨⟨20⟩, 2⟩], [⟨⟨30⟩, 4⟩], rfl, by decide, by decide⟩, rfl⟩))

end Ring

end ReplicaRing
