import Mathlib.Data.Finset.Card
import Mathlib.Data.Finset.Dedup
import ReplicaRing.Config
import ReplicaRing.Proofs.RingConstruction

/-!
# Configurations that can start

The configuration of a host and the options of the ring that it builds are checked in two places.

* `Config.fault?_eq_none_iff` — which configurations are accepted, in terms of the options;
* `SharedSetting`, `Config.fault?_of_ringOptions` — the two checks blame the same setting;
* `Ring.distinct_size`, `Ring.createRandom_of_enough` — enough draws make a ring of the size that is
  asked for;
* `validators_agree` — what is accepted can start, at its full size.
-/

namespace ReplicaRing

/-! ### Two checks of the same settings -/

namespace Config

theorem toNat_eq_zero {n : UInt64} : n.toNat = 0 ↔ n = 0 := UInt64.toNat_inj (b := 0)

/-- The first fault of the options, in the settings of the configuration. -/
theorem fault?_ringOptions (c : Config) : c.ringOptions.fault? =
    if c.ring.replicaCount = 0 then some .noReplicas
    else if c.ring.writeQuorum = 0 ∨ c.ring.replicaCount < c.ring.writeQuorum then
      some (.writeQuorum c.ring.writeQuorum.toNat c.ring.replicaCount.toNat)
    else if c.ring.readQuorum = 0 ∨ c.ring.replicaCount < c.ring.readQuorum then
      some (.readQuorum c.ring.readQuorum.toNat c.ring.replicaCount.toNat)
    else if c.ring.opTimeoutMs = 0 then some .noTimeout
    else none := by
  have htimeout : c.ring.opTimeoutMs.toNat * 1000000 = 0 ↔ c.ring.opTimeoutMs = 0 := by
    rw [Nat.mul_eq_zero, toNat_eq_zero]
    simp
  simp only [RingOptions.fault?, ringOptions, Duration.ofMillis, htimeout, toNat_eq_zero,
    UInt64.lt_iff_toNat_lt]

/-- **Accepted configurations.** The options are valid, there are nodes for all replicas, and
sweeps do not follow without a pause. -/
theorem fault?_eq_none_iff (c : Config) : c.fault? = none ↔ c.ringOptions.fault? = none ∧
    c.ring.replicaCount ≤ c.ring.ringSize ∧ 0 < c.repair.intervalSecs := by
  rw [fault?_ringOptions, fault?, ← UInt64.not_lt, UInt64.pos_iff_ne_zero]
  repeat' split
  all_goals simp_all

end Config

/-! ### Blame -/

/-- A setting that is checked in the options of a ring and in the configuration of a host. -/
inductive SharedSetting where
  | replicaCount
  | writeQuorum
  | readQuorum
  | opTimeout
  deriving DecidableEq, Repr

namespace SharedSetting

/-- The name of a setting among the options of a ring. -/
def name : SharedSetting → String
  | replicaCount => "replica_count"
  | writeQuorum => "write_quorum"
  | readQuorum => "read_quorum"
  | opTimeout => "op_timeout"

/-- The name of a setting in the configuration of a host. -/
def path : SharedSetting → String
  | replicaCount => "ring.replica_count"
  | writeQuorum => "ring.write_quorum"
  | readQuorum => "ring.read_quorum"
  | opTimeout => "ring.op_timeout_ms"

end SharedSetting

namespace OptionsFault

/-- The setting that a fault is about. -/
def setting : OptionsFault → SharedSetting
  | noReplicas => .replicaCount
  | writeQuorum _ _ => .writeQuorum
  | readQuorum _ _ => .readQuorum
  | noTimeout => .opTimeout

/-- What is wrong with the setting. -/
def complaint : OptionsFault → String
  | noReplicas => " must be > 0"
  | writeQuorum w n => s!" ({w}) must be in 1..={n}"
  | readQuorum r n => s!" ({r}) must be in 1..={n}"
  | noTimeout => " must be > 0"

theorem message_eq (fault : OptionsFault) :
    fault.message = fault.setting.name ++ fault.complaint := by
  cases fault with
  | noReplicas => rfl
  | writeQuorum w n =>
    simp only [complaint, ← String.append_assoc]
    rfl
  | readQuorum r n =>
    simp only [complaint, ← String.append_assoc]
    rfl
  | noTimeout => rfl

end OptionsFault

/-- A fault of the options and a fault of the configuration that are about the same setting and
show the same figures. -/
inductive OptionsFault.Matches : OptionsFault → ConfigFault → Prop where
  | noReplicas : Matches .noReplicas .noReplicas
  | writeQuorum (w n : UInt64) : Matches (.writeQuorum w.toNat n.toNat) (.writeQuorum w n)
  | readQuorum (r n : UInt64) : Matches (.readQuorum r.toNat n.toNat) (.readQuorum r n)
  | noTimeout : Matches .noTimeout .noTimeout

/-- Both faults are worded alike, with the name that the setting has in either place. -/
theorem OptionsFault.Matches.message {f : OptionsFault} {g : ConfigFault} (h : f.Matches g) :
    g.message = f.setting.path ++ f.complaint := by
  cases h with
  | noReplicas => rfl
  | writeQuorum w n =>
    simp only [complaint, ← String.append_assoc]
    rfl
  | readQuorum r n =>
    simp only [complaint, ← String.append_assoc]
    rfl
  | noTimeout => rfl

/-- **Blame.** If there are nodes for all replicas, then a configuration whose options are rejected
is rejected for the same setting. -/
theorem Config.fault?_of_ringOptions {c : Config} {f : OptionsFault}
    (henough : c.ring.replicaCount ≤ c.ring.ringSize) (hf : c.ringOptions.fault? = some f) :
    ∃ g, c.fault? = some g ∧ f.Matches g := by
  rw [fault?_ringOptions] at hf
  rw [fault?, if_neg (UInt64.not_lt.2 henough)]
  by_cases hreplicas : c.ring.replicaCount = 0
  · rw [if_pos hreplicas] at hf ⊢
    exact ⟨_, rfl, Option.some.inj hf ▸ .noReplicas⟩
  rw [if_neg hreplicas] at hf ⊢
  by_cases hwrite : c.ring.writeQuorum = 0 ∨ c.ring.replicaCount < c.ring.writeQuorum
  · rw [if_pos hwrite] at hf ⊢
    exact ⟨_, rfl, Option.some.inj hf ▸ .writeQuorum ..⟩
  rw [if_neg hwrite] at hf ⊢
  by_cases hread : c.ring.readQuorum = 0 ∨ c.ring.replicaCount < c.ring.readQuorum
  · rw [if_pos hread] at hf ⊢
    exact ⟨_, rfl, Option.some.inj hf ▸ .readQuorum ..⟩
  rw [if_neg hread] at hf ⊢
  by_cases htimeout : c.ring.opTimeoutMs = 0
  · rw [if_pos htimeout] at hf ⊢
    exact ⟨_, rfl, Option.some.inj hf ▸ .noTimeout⟩
  · rw [if_neg htimeout] at hf
    exact nomatch hf

/-! ### Rings at random places -/

theorem OrderedMap.card_keys {found : OrderedMap NodeId Unit} (h : found.Sorted) :
    found.keys.toFinset.card = found.size := by
  rw [List.toFinset_card_of_nodup h.keys_nodup, keys, List.length_map]
  rfl

theorem OrderedMap.toFinset_keys_insert (found : OrderedMap NodeId Unit) (id : NodeId) :
    (found.insert id ()).keys.toFinset = Insert.insert id found.keys.toFinset := by
  ext k
  rw [List.mem_toFinset, Finset.mem_insert, List.mem_toFinset, mem_keys_iff, mem_keys_iff,
    find?_insert]
  by_cases hk : k = id <;> simp [hk]

namespace Ring

/-- The identities that have been drawn, if they are as many as are asked for. -/
theorem distinct_size {size : Nat} {draws : List NodeId} {found : OrderedMap NodeId Unit}
    (hsorted : found.Sorted) (hroom : found.size ≤ size)
    (henough : size ≤ (found.keys ++ draws).toFinset.card) :
    (distinct size draws found).Sorted ∧ (distinct size draws found).size = size := by
  induction draws generalizing found with
  | nil =>
    rw [List.append_nil, OrderedMap.card_keys hsorted] at henough
    exact ⟨hsorted, Nat.le_antisymm hroom henough⟩
  | cons id draws ih =>
    rw [distinct]
    split
    · next hfull => exact ⟨hsorted, Nat.le_antisymm hroom hfull⟩
    · next hfull =>
      have hkeys := found.toFinset_keys_insert id
      have hinsert := hsorted.insert id ()
      refine ih hinsert ?_ ?_
      · have hle := Finset.card_insert_le id found.keys.toFinset
        rw [← hkeys, OrderedMap.card_keys hinsert, OrderedMap.card_keys hsorted] at hle
        omega
      · -- the identity has only moved from the draws to what has been found
        rw [List.toFinset_append, hkeys, Finset.insert_union, ← Finset.union_insert,
          ← List.toFinset_cons, ← List.toFinset_append]
        exact henough

variable {hasher : KeyHasher} {options : RingOptions} {size slot : Nat} {draws : List NodeId}

/-- New nodes at random places have different identities and are as many as are asked for. -/
theorem randomHandles_of_enough (slot : Nat) (henough : size ≤ draws.toFinset.card) :
    ((randomHandles size slot draws).map Handle.id).Nodup ∧
      (randomHandles size slot draws).length = size := by
  have hempty : (OrderedMap.empty : OrderedMap NodeId Unit).Sorted := List.Pairwise.nil
  obtain ⟨hsorted, hsize⟩ := distinct_size hempty (Nat.zero_le size) henough
  have hids : (randomHandles size slot draws).map Handle.id =
      (distinct size draws .empty).keys := by
    rw [randomHandles, List.map_map]
    exact List.zipIdx_map_fst 0 _
  have hlength := congrArg List.length hids
  rw [List.length_map, OrderedMap.keys, List.length_map] at hlength
  exact ⟨hids ▸ hsorted.keys_nodup, hlength.trans hsize⟩

/-- **Rings at random places.** With valid options and nodes for all replicas, a ring of the size
that is asked for is built as soon as enough different identities have been drawn. -/
theorem createRandom_of_enough (hvalid : options.validate = .ok ())
    (hreplicas : options.replicaCount ≤ size) (henough : size ≤ draws.toFinset.card) :
    ∃ r, createRandom hasher options size slot draws = .ok (r, randomHandles size slot draws) ∧
      r.options = options ∧ r.membership.size = size := by
  obtain ⟨hnodup, hlength⟩ := randomHandles_of_enough slot henough
  obtain ⟨r, hr⟩ : ∃ r, create hasher options (randomHandles size slot draws) = .ok r :=
    create_ok_iff.2 ⟨hvalid, hlength.symm ▸ hreplicas, hnodup⟩
  obtain ⟨-, hoptions, -, -, -, hperm⟩ := create_ok hr
  refine ⟨r, ?_, hoptions, ?_⟩
  · rw [createRandom, if_neg (Nat.not_lt.2 hreplicas)]
    dsimp only
    rw [hr]
    rfl
  · rw [Membership.size_eq, hperm.length_eq, hlength]

end Ring

namespace Config

variable {c : Config}

theorem validate_ok_iff : c.validate = .ok c ↔ c.fault? = none := by
  rw [validate]
  cases c.fault? <;> simp

theorem ringOptions_ok_iff : c.ringOptions.validate = .ok () ↔ c.ringOptions.fault? = none := by
  rw [RingOptions.validate]
  cases c.ringOptions.fault? <;> simp

/-- **Accepted configurations can start.** A configuration is accepted just if the options of its
ring are, there are nodes for all replicas, and sweeps do not follow without a pause. If there are
nodes for all replicas and the options are rejected, then both checks blame the same setting with
the same complaint. And of every accepted configuration comes a ring, with as many nodes as the
configuration says, as soon as so many different identities have been drawn. -/
theorem validators_agree (c : Config) :
    (c.validate = .ok c ↔ c.ringOptions.validate = .ok () ∧
      c.ring.replicaCount ≤ c.ring.ringSize ∧ 0 < c.repair.intervalSecs) ∧
    (c.ring.replicaCount ≤ c.ring.ringSize → ∀ e, c.ringOptions.validate = .error e →
      ∃ (f : OptionsFault) (g : ConfigFault), e = .invalidOptions f.message ∧
        c.validate = .error (.invalid g) ∧ f.Matches g ∧
        f.message = f.setting.name ++ f.complaint ∧
        g.message = f.setting.path ++ f.complaint) ∧
    (c.validate = .ok c → ∀ hasher slot draws, c.ring.ringSize.toNat ≤ draws.toFinset.card →
      ∃ r handles, Ring.createRandom hasher c.ringOptions c.ring.ringSize.toNat slot draws =
        .ok (r, handles) ∧ r.options = c.ringOptions ∧
        r.membership.size = c.ring.ringSize.toNat) := by
  have haccepted : c.validate = .ok c ↔ c.ringOptions.validate = .ok () ∧
      c.ring.replicaCount ≤ c.ring.ringSize ∧ 0 < c.repair.intervalSecs := by
    rw [validate_ok_iff, ringOptions_ok_iff, fault?_eq_none_iff]
  refine ⟨haccepted, fun henough e he => ?_, fun hc hasher slot draws hdraws => ?_⟩
  · rw [RingOptions.validate] at he
    split at he
    · next f hf =>
      obtain ⟨g, hg, hmatches⟩ := fault?_of_ringOptions henough hf
      refine ⟨f, g, (Except.error.inj he).symm, ?_, hmatches, f.message_eq, hmatches.message⟩
      rw [validate, hg]
    · cases he
  · obtain ⟨hvalid, henough, -⟩ := haccepted.1 hc
    obtain ⟨r, hr, hoptions, hsize⟩ := Ring.createRandom_of_enough hvalid
      (UInt64.le_iff_toNat_le.1 henough) hdraws
    exact ⟨r, _, hr, hoptions, hsize⟩

/-- A configuration that asks for more acknowledgements than a key has replicas. -/
def overdemanding : Config := { ring := { writeQuorum := 4 } }

/-- The default configuration makes a ring of ten nodes, and for the other one both checks blame
the write quorum. -/
theorem validators_agree_overdemanding :
    (∃ r handles, Ring.createRandom KeyHasher.sha1 (ringOptions {}) 10 0
      ((List.range 12).map fun i => ⟨UInt64.ofNat i⟩) = .ok (r, handles) ∧
        r.membership.size = 10) ∧
    ∃ (f : OptionsFault) (g : ConfigFault), overdemanding.validate = .error (.invalid g) ∧
      f.Matches g ∧ f.message = "write_quorum (4) must be in 1..=3" := by
  constructor
  · obtain ⟨-, -, hstarts⟩ := validators_agree {}
    obtain ⟨r, handles, hr, -, hsize⟩ := hstarts (by decide) KeyHasher.sha1 0
      ((List.range 12).map fun i => ⟨UInt64.ofNat i⟩) (by decide)
    exact ⟨r, handles, hr, hsize⟩
  · obtain ⟨-, hblames, -⟩ := validators_agree overdemanding
    obtain ⟨f, g, he, hg, hmatches, -⟩ := hblames (by decide)
      (.invalidOptions "write_quorum (4) must be in 1..=3") (by decide)
    exact ⟨f, g, hg, hmatches, (RingError.invalidOptions.inj he).symm⟩

end Config

end ReplicaRing
