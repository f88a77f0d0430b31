import ReplicaRing.Digest.Sha1
import ReplicaRing.OrderedMap

/-!
# Key hashers

A key hasher sends every key to a position on the circle. Any function will do.

* `KeyHasher.sha1` — the first eight bytes of the SHA-1 digest, least significant first;
* `KeyHasher.pinned` — chosen positions for chosen keys over another hasher.
-/

namespace ReplicaRing

/-- A position for every key. -/
abbrev KeyHasher := String → UInt64

namespace KeyHasher

/-- Bytes read as a number, least significant first. -/
def littleEndian (bytes : List UInt8) : UInt64 :=
  bytes.foldr (fun b acc => (acc <<< 8) ||| b.toUInt64) 0

/-- The first eight digest bytes of the key, least significant first. -/
def sha1 : KeyHasher := fun key =>
  littleEndian ((Sha1.digest key.toUTF8.toList).take 8)

/-- The pinned position of a key that has one, the position under `fallback` for all others. -/
def pinned (pins : OrderedMap String UInt64) (fallback : KeyHasher) : KeyHasher := fun key =>
  (pins.find? key).getD (fallback key)

end KeyHasher

end ReplicaRing
