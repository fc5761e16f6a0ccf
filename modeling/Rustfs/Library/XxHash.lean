import Mathlib.Init

/-!
# The 64-bit xxHash

`xxh64` over a list of bytes, as its published description computes it. Proofs
take the hash as a parameter; this function stands for it where something is
evaluated on fixed bytes.
-/

namespace Rustfs.Library.XxHash

def prime1 : UInt64 := 0x9e3779b185ebca87
def prime2 : UInt64 := 0xc2b2ae3d27d4eb4f
def prime3 : UInt64 := 0x165667b19e3779f9
def prime4 : UInt64 := 0x85ebca77c2b2ae63
def prime5 : UInt64 := 0x27d4eb2f165667c5

def rotl (value : UInt64) (bits : UInt64) : UInt64 := (value <<< bits) ||| (value >>> (64 - bits))

/-- The little-endian value of the bytes. -/
def lane (bytes : List UInt8) : UInt64 :=
  bytes.foldr (fun byte value => (value <<< 8) ||| byte.toUInt64) 0

def round (acc input : UInt64) : UInt64 := rotl (acc + input * prime2) 31 * prime1

def mergeRound (acc value : UInt64) : UInt64 := (acc ^^^ round 0 value) * prime1 + prime4

structure Accumulators where
  v1 : UInt64
  v2 : UInt64
  v3 : UInt64
  v4 : UInt64

def stripes : (count : Nat) → Accumulators → List UInt8 → Accumulators
  | 0, acc, _ => acc
  | count + 1, acc, bytes =>
    stripes count
      { v1 := round acc.v1 (lane (bytes.take 8))
        v2 := round acc.v2 (lane ((bytes.drop 8).take 8))
        v3 := round acc.v3 (lane ((bytes.drop 16).take 8))
        v4 := round acc.v4 (lane ((bytes.drop 24).take 8)) }
      (bytes.drop 32)

def Accumulators.converge (acc : Accumulators) : UInt64 :=
  [acc.v1, acc.v2, acc.v3, acc.v4].foldl mergeRound
    (rotl acc.v1 1 + rotl acc.v2 7 + rotl acc.v3 12 + rotl acc.v4 18)

def words : (count : Nat) → UInt64 → List UInt8 → UInt64
  | 0, hash, _ => hash
  | count + 1, hash, bytes =>
    words count (rotl (hash ^^^ round 0 (lane (bytes.take 8))) 27 * prime1 + prime4) (bytes.drop 8)

def halfWord (hash : UInt64) (bytes : List UInt8) : UInt64 :=
  rotl (hash ^^^ lane bytes * prime1) 23 * prime2 + prime3

def tailByte (hash : UInt64) (byte : UInt8) : UInt64 :=
  rotl (hash ^^^ byte.toUInt64 * prime5) 11 * prime1

/-- The bytes behind the last full stripe. -/
def finish (hash : UInt64) (bytes : List UInt8) : UInt64 :=
  let eights := bytes.length / 8
  let rest := bytes.drop (eights * 8)
  let hash := words eights hash bytes
  if 4 ≤ rest.length then (rest.drop 4).foldl tailByte (halfWord hash (rest.take 4))
  else rest.foldl tailByte hash

def avalanche (hash : UInt64) : UInt64 :=
  let hash := (hash ^^^ (hash >>> 33)) * prime2
  let hash := (hash ^^^ (hash >>> 29)) * prime3
  hash ^^^ (hash >>> 32)

def xxh64 (seed : UInt64) (bytes : List UInt8) : UInt64 :=
  let full := bytes.length / 32
  let start := if full = 0 then seed + prime5
    else (stripes full ⟨seed + prime1 + prime2, seed + prime2, seed, seed - prime1⟩ bytes).converge
  avalanche (finish (start + UInt64.ofNat bytes.length) (bytes.drop (full * 32)))

example : xxh64 0 [] = 0xef46db3751d8e999 := by decide

example : xxh64 0 [0x61, 0x62, 0x63] = 0x44bc2cf5ad770999 := by decide

end Rustfs.Library.XxHash
