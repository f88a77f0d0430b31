/-!
# FNV-1a

A 64-bit fingerprint of a byte string, quick to compute and easy to collide with.

* `Fnv1a.absorb` — one byte worked into the state;
* `Fnv1a.hash` — the state after all bytes.
-/

namespace ReplicaRing.Fnv1a

/-- The state before the first byte. -/
def offsetBasis : UInt64 := 0xcbf29ce484222325

/-- The factor of every byte. -/
def prime : UInt64 := 0x100000001b3

/-- Work a byte into the state. -/
def absorb (state : UInt64) (byte : UInt8) : UInt64 := (state ^^^ byte.toUInt64) * prime

/-- The fingerprint of a byte string. -/
def hash (bytes : List UInt8) : UInt64 := bytes.foldl absorb offsetBasis

end ReplicaRing.Fnv1a
