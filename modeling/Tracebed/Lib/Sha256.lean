import Tracebed.Lib.PyText

/-!
# SHA-256

The hash function of FIPS 180-4 on byte strings. Words are natural numbers below `2 ^ 32`,
so that the kernel computes with its own arithmetic.
-/

open Py

namespace Sha256

/-- `2 ^ 32`. -/
def wordMod : ℕ := 4294967296

/-- Rotation of a word to the right. -/
def rotr (x n : ℕ) : ℕ := ((x >>> n) ||| (x <<< (32 - n))) % wordMod

/-- The eight working variables. -/
structure State where
  a : ℕ
  b : ℕ
  c : ℕ
  d : ℕ
  e : ℕ
  f : ℕ
  g : ℕ
  h : ℕ

/-- The initial hash value. -/
def State.initial : State :=
  ⟨0x6a09e667, 0xbb67ae85, 0x3c6ef372, 0xa54ff53a, 0x510e527f, 0x9b05688c, 0x1f83d9ab,
    0x5be0cd19⟩

def roundConstants : List ℕ := [
  0x428a2f98, 0x71374491, 0xb5c0fbcf, 0xe9b5dba5, 0x3956c25b, 0x59f111f1, 0x923f82a4, 0xab1c5ed5,
  0xd807aa98, 0x12835b01, 0x243185be, 0x550c7dc3, 0x72be5d74, 0x80deb1fe, 0x9bdc06a7, 0xc19bf174,
  0xe49b69c1, 0xefbe4786, 0x0fc19dc6, 0x240ca1cc, 0x2de92c6f, 0x4a7484aa, 0x5cb0a9dc, 0x76f988da,
  0x983e5152, 0xa831c66d, 0xb00327c8, 0xbf597fc7, 0xc6e00bf3, 0xd5a79147, 0x06ca6351, 0x14292967,
  0x27b70a85, 0x2e1b2138, 0x4d2c6dfc, 0x53380d13, 0x650a7354, 0x766a0abb, 0x81c2c92e, 0x92722c85,
  0xa2bfe8a1, 0xa81a664b, 0xc24b8b70, 0xc76c51a3, 0xd192e819, 0xd6990624, 0xf40e3585, 0x106aa070,
  0x19a4c116, 0x1e376c08, 0x2748774c, 0x34b0bcb5, 0x391c0cb3, 0x4ed8aa4a, 0x5b9cca4f, 0x682e6ff3,
  0x748f82ee, 0x78a5636f, 0x84c87814, 0x8cc70208, 0x90befffa, 0xa4506ceb, 0xbef9a3f7, 0xc67178f2]

def round (s : State) (k w : ℕ) : State :=
  let choice := (s.e &&& s.f) ^^^ ((wordMod - 1 ^^^ s.e) &&& s.g)
  let majority := (s.a &&& s.b) ^^^ (s.a &&& s.c) ^^^ (s.b &&& s.c)
  let t1 := s.h + (rotr s.e 6 ^^^ rotr s.e 11 ^^^ rotr s.e 25) + choice + k + w
  let t2 := (rotr s.a 2 ^^^ rotr s.a 13 ^^^ rotr s.a 22) + majority
  ⟨(t1 + t2) % wordMod, s.a, s.b, s.c, (s.d + t1) % wordMod, s.e, s.f, s.g⟩

/-- The message schedule, from a window of sixteen words. -/
def schedule : ℕ → List ℕ → List ℕ
  | n + 1, w :: rest =>
    let w1 := rest.getD 0 0
    let w14 := rest.getD 13 0
    let s0 := rotr w1 7 ^^^ rotr w1 18 ^^^ (w1 >>> 3)
    let s1 := rotr w14 17 ^^^ rotr w14 19 ^^^ (w14 >>> 10)
    w :: schedule n (rest ++ [(w + s0 + rest.getD 8 0 + s1) % wordMod])
  | _, _ => []

def rounds : List ℕ → List ℕ → State → State
  | k :: ks, w :: ws, s => rounds ks ws (round s k w)
  | _, _, s => s

/-- The hash value after one block. -/
def compress (s : State) (block : List ℕ) : State :=
  let t := rounds roundConstants (schedule 64 block) s
  ⟨(s.a + t.a) % wordMod, (s.b + t.b) % wordMod, (s.c + t.c) % wordMod, (s.d + t.d) % wordMod,
    (s.e + t.e) % wordMod, (s.f + t.f) % wordMod, (s.g + t.g) % wordMod, (s.h + t.h) % wordMod⟩

/-- The big-endian words of a byte string. -/
def words : Bytes → List ℕ
  | a :: b :: c :: d :: rest => ofBytesBE [a, b, c, d] :: words rest
  | _ => []

/-- The hash value after a number of blocks. -/
def blocks : ℕ → List ℕ → State → State
  | 0, _, s => s
  | n + 1, ws, s => blocks n (ws.drop 16) (compress s (ws.take 16))

/-- The message padded to whole blocks. -/
def pad (m : Bytes) : Bytes :=
  m ++ 0x80 :: (List.replicate ((119 - m.length % 64) % 64) 0 ++ toBytesBE 8 (8 * m.length))

/-- `hashlib.sha256(m).digest()`. -/
def sha256 (m : Bytes) : Bytes :=
  let ws := words (pad m)
  let s := blocks (ws.length / 16) ws State.initial
  [s.a, s.b, s.c, s.d, s.e, s.f, s.g, s.h].flatMap (toBytesBE 4)

/-- **A digest has 32 bytes.** -/
@[simp] theorem sha256_length (m : Bytes) : (sha256 m).length = 32 := by
  simp [sha256]

/-- The digest of `abc`. -/
example : sha256 [0x61, 0x62, 0x63] = toBytesBE 32
    0xba7816bf8f01cfea414140de5dae2223b00361a396177a9cb410ff61f20015ad := by
  decide +kernel

end Sha256
