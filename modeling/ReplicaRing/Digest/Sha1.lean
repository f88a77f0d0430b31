/-!
# SHA-1

The 160-bit digest of a byte string.

* `Sha1.pad` — the message, a marker, zeros and the bit length, filling whole blocks;
* `Sha1.schedule` — the eighty words of a block's rounds;
* `Sha1.compress` — one block worked into the chaining state;
* `Sha1.digest` — the twenty bytes of the final state.
-/

namespace ReplicaRing.Sha1

/-- The five chaining words. -/
structure State where
  a : UInt32
  b : UInt32
  c : UInt32
  d : UInt32
  e : UInt32
  deriving DecidableEq, Repr

/-- The state before the first block. -/
def State.initial : State := ⟨0x67452301, 0xEFCDAB89, 0x98BADCFE, 0x10325476, 0xC3D2E1F0⟩

/-- Wordwise addition, which closes a block. -/
def State.add (s t : State) : State := ⟨s.a + t.a, s.b + t.b, s.c + t.c, s.d + t.d, s.e + t.e⟩

/-- Rotation to the left by `n` bits, `0 < n < 32`. -/
def rotate (x n : UInt32) : UInt32 := (x <<< n) ||| (x >>> (32 - n))

/-- The lowest `count` bytes of a number, most significant first. -/
def bigEndian : Nat → Nat → List UInt8
  | 0, _ => []
  | count + 1, n => bigEndian count (n / 256) ++ [UInt8.ofNat n]

/-- The message with its marker byte, the zeros up to eight bytes before a block's end, and its
length in bits. -/
def pad (message : List UInt8) : List UInt8 :=
  message ++ 0x80 :: List.replicate ((119 - message.length % 64) % 64) 0 ++
    bigEndian 8 (8 * message.length)

/-- Bytes read as big-endian words; up to three left-over bytes are dropped. -/
def words : List UInt8 → List UInt32
  | p :: q :: r :: s :: rest =>
    ((p.toUInt32 <<< 24) ||| (q.toUInt32 <<< 16) ||| (r.toUInt32 <<< 8) ||| s.toUInt32) ::
      words rest
  | _ => []

/-- The words of a block, extended to one word for each round. -/
def schedule (block : List UInt32) : Array UInt32 :=
  (List.range 64).foldl
    (fun w t => w.push (rotate (w.getD (t + 13) 0 ^^^ w.getD (t + 8) 0 ^^^ w.getD (t + 2) 0 ^^^
      w.getD t 0) 1))
    block.toArray

/-- The round function and constant of round `t`. -/
def mix (t : Nat) (b c d : UInt32) : UInt32 × UInt32 :=
  if t < 20 then ((b &&& c) ||| (~~~b &&& d), 0x5A827999)
  else if t < 40 then (b ^^^ c ^^^ d, 0x6ED9EBA1)
  else if t < 60 then ((b &&& c) ||| (b &&& d) ||| (c &&& d), 0x8F1BBCDC)
  else (b ^^^ c ^^^ d, 0xCA62C1D6)

/-- Round `t` on the word `w`. -/
def round (t : Nat) (w : UInt32) (s : State) : State :=
  let (f, k) := mix t s.b s.c s.d
  ⟨rotate s.a 5 + f + s.e + k + w, s.a, rotate s.b 30, s.c, s.d⟩

/-- Work one block of sixteen words into the state. -/
def compress (s : State) (block : List UInt32) : State :=
  let w := schedule block
  s.add ((List.range 80).foldl (fun r t => round t (w.getD t 0) r) s)

/-- The blocks of sixteen words of a padded message. -/
def blocks (ws : List UInt32) : List (List UInt32) :=
  (List.range (ws.length / 16)).map fun i => (ws.drop (16 * i)).take 16

/-- The digest of a message. -/
def digest (message : List UInt8) : List UInt8 :=
  let s := (blocks (words (pad message))).foldl compress State.initial
  [s.a, s.b, s.c, s.d, s.e].flatMap fun word => bigEndian 4 word.toNat

end ReplicaRing.Sha1
