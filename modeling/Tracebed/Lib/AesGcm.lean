import Tracebed.Lib.XorShares

/-!
# AES-256-GCM

Authenticated encryption with a 256-bit key, a 96-bit nonce and a 128-bit tag (FIPS 197 and
NIST SP 800-38D). A block is four big-endian words of 32 bits where the cipher works on it,
and one number below `2 ^ 128` where the tag is computed.
-/

open Py

namespace AesGcm

variable (ks : List ℕ) (nonce text : Bytes)

/-! ### The block cipher -/

/-- The S-box, with the image of `x` in bits `8 x` to `8 x + 7`. -/
def sbox : ℕ :=
  (0x16bb54b00f2d99416842e6bf0d89a18cdf2855cee9871e9b948ed9691198f8e1 <<< 1792) |||
  (0x9e1dc186b95735610ef6034866b53e708a8bbd4b1f74dde8c6b4a61c2e2578ba <<< 1536) |||
  (0x08ae7a65eaf4566ca94ed58d6d37c8e779e4959162acd3c25c2406490a3a32e0 <<< 1280) |||
  (0xdb0b5ede14b8ee4688902a22dc4f816073195d643d7ea7c41744975fec130ccd <<< 1024) |||
  (0xd2f3ff1021dab6bcf5389d928f40a351a89f3c507f02f94585334d43fbaaefd0 <<< 768) |||
  (0xcf584c4a39becb6a5bb1fc20ed00d153842fe329b3d63b52a05a6e1b1a2c8309 <<< 512) |||
  (0x75b227ebe28012079a059618c323c7041531d871f1e5a534ccf73f362693fdb7 <<< 256) |||
  0xc072a49cafa2d4adf04759fa7dc982ca76abd7fe2b670130c56f6bf27b777c63

def subByte (x : ℕ) : ℕ := (sbox >>> (8 * x)) &&& 255

/-- The word of four bytes. -/
def ofBytes (a b c d : ℕ) : ℕ := (a <<< 24) ||| (b <<< 16) ||| (c <<< 8) ||| d

/-- The S-box on the bytes of a diagonal: row `i` comes from the `i`-th word. This is
`SubBytes` after `ShiftRows`, one column at a time. -/
def subDiagonal (a b c d : ℕ) : ℕ :=
  ofBytes (subByte (a >>> 24)) (subByte ((b >>> 16) &&& 255)) (subByte ((c >>> 8) &&& 255))
    (subByte (d &&& 255))

/-- Rotation of a word to the left by whole bytes. -/
def rotl (w n : ℕ) : ℕ := ((w <<< n) ||| (w >>> (32 - n))) &&& 0xffffffff

/-- Every byte of a word doubled in the field of the cipher. -/
def double (w : ℕ) : ℕ :=
  ((w &&& 0x7f7f7f7f) <<< 1) ^^^ (((w >>> 7) &&& 0x01010101) * 0x1b)

/-- `MixColumns` on one column. -/
def mixColumn (w : ℕ) : ℕ := double (w ^^^ rotl w 8) ^^^ rotl w 8 ^^^ rotl w 16 ^^^ rotl w 24

/-- The key expansion from word `i` on, given the last eight words. -/
def expandFrom : ℕ → ℕ → List ℕ → List ℕ
  | 0, _, _ => []
  | n + 1, i, window =>
    let last := window.getD 7 0
    let t := if i % 8 = 0 then
        subDiagonal (rotl last 8) (rotl last 8) (rotl last 8) (rotl last 8) ^^^
          (1 <<< (23 + i / 8))
      else if i % 8 = 4 then subDiagonal last last last last
      else last
    let w := window.getD 0 0 ^^^ t
    w :: expandFrom n (i + 1) (window.drop 1 ++ [w])

/-- The words of a byte string. -/
def words : Bytes → List ℕ
  | a :: b :: c :: d :: rest => ofBytesBE [a, b, c, d] :: words rest
  | _ => []

def expandKey (key : Bytes) : List ℕ := words key ++ expandFrom 52 8 (words key)

/-- The rounds after the first key addition. The last one does not mix columns. -/
def rounds : List ℕ → (a b c d : ℕ) → ℕ
  | [k0, k1, k2, k3], a, b, c, d =>
    ((subDiagonal a b c d ^^^ k0) <<< 96) ||| ((subDiagonal b c d a ^^^ k1) <<< 64) |||
      ((subDiagonal c d a b ^^^ k2) <<< 32) ||| (subDiagonal d a b c ^^^ k3)
  | k0 :: k1 :: k2 :: k3 :: ks, a, b, c, d =>
    rounds ks (mixColumn (subDiagonal a b c d) ^^^ k0) (mixColumn (subDiagonal b c d a) ^^^ k1)
      (mixColumn (subDiagonal c d a b) ^^^ k2) (mixColumn (subDiagonal d a b c) ^^^ k3)
  | _, _, _, _, _ => 0

def cipher (block : ℕ) : ℕ :=
  match ks with
  | k0 :: k1 :: k2 :: k3 :: rest =>
    rounds rest ((block >>> 96) ^^^ k0) (((block >>> 64) &&& 0xffffffff) ^^^ k1)
      (((block >>> 32) &&& 0xffffffff) ^^^ k2) ((block &&& 0xffffffff) ^^^ k3)
  | _ => 0

/-! ### Counter mode -/

/-- The keystream of `n` blocks, from a counter value on. -/
def keystream (ks : List ℕ) (fixed : ℕ) : ℕ → ℕ → Bytes
  | 0, _ => []
  | n + 1, counter =>
    toBytesBE 16 (cipher ks ((fixed <<< 32) ||| (counter % 4294967296))) ++
      keystream ks fixed n (counter + 1)

/-- A text encrypted or decrypted in counter mode. -/
def ctr : Bytes :=
  xorBytes ((keystream ks (ofBytesBE nonce) ((text.length + 15) / 16) 2).take text.length) text

/-! ### The tag -/

/-- Multiplication in the field of the hash: the bits of `x` from the highest on. -/
def mulFrom : ℕ → (x z v : ℕ) → ℕ
  | 0, _, z, _ => z
  | n + 1, x, z, v =>
    mulFrom n x (if x.testBit n then z ^^^ v else z)
      (if v.testBit 0 then (v >>> 1) ^^^ (0xe1 <<< 120) else v >>> 1)

/-- One block absorbed into the hash. -/
def absorb (h y block : ℕ) : ℕ := mulFrom 128 (y ^^^ block) 0 h

/-- The bytes of a text absorbed block by block, the last block filled with zeros. -/
def absorbBytes (h : ℕ) : ℕ → Bytes → ℕ → ℕ
  | 0, _, y => y
  | n + 1, text, y =>
    let block := text.take 16
    absorbBytes h n (text.drop 16)
      (absorb h y (ofBytesBE block <<< (8 * (16 - block.length))))

def tag (aad : Bytes) : Bytes :=
  let h := cipher ks 0
  let y := absorbBytes h ((aad.length + 15) / 16) aad 0
  let y := absorbBytes h ((text.length + 15) / 16) text y
  let y := absorb h y (((8 * aad.length) <<< 64) ||| (8 * text.length))
  toBytesBE 16 (y ^^^ cipher ks ((ofBytesBE nonce <<< 32) ||| 1))

/-! ### Authenticated encryption -/

/-- Key and nonce have the sizes of this mode. -/
def sizesOk (key nonce : Bytes) : Bool := key.length = 32 && nonce.length = 12

/-- Encryption: the ciphertext followed by the tag. -/
def encrypt (key nonce plaintext aad : Bytes) : Option Bytes :=
  if sizesOk key nonce then
    let ks := expandKey key
    let text := ctr ks nonce plaintext
    some (text ++ tag ks nonce text aad)
  else none

/-- Decryption, refused unless the tag is the one of the text. -/
def decrypt (key nonce ciphertext aad : Bytes) : Option Bytes :=
  if sizesOk key nonce && 16 ≤ ciphertext.length then
    let ks := expandKey key
    let text := ciphertext.take (ciphertext.length - 16)
    if ciphertext.drop (ciphertext.length - 16) = tag ks nonce text aad then
      some (ctr ks nonce text)
    else none
  else none

@[simp] theorem keystream_length (fixed n counter : ℕ) :
    (keystream ks fixed n counter).length = 16 * n := by
  induction n generalizing counter with
  | zero => rfl
  | succ n ih => rw [keystream, List.length_append, ih, toBytesBE_length]; omega

@[simp] theorem tag_length (aad : Bytes) :
    (tag ks nonce text aad).length = 16 := toBytesBE_length _ _

theorem keystream_take_length (fixed : ℕ) (text : Bytes) :
    ((keystream ks fixed ((text.length + 15) / 16) 2).take text.length).length = text.length := by
  rw [List.length_take, keystream_length]
  omega

@[simp] theorem ctr_length : (ctr ks nonce text).length = text.length := by
  have hlen := keystream_take_length ks (ofBytesBE nonce) text
  rw [ctr, xorBytes_length hlen, hlen]

/-- Counter mode undoes itself. -/
theorem ctr_ctr : ctr ks nonce (ctr ks nonce text) = text := by
  rw [ctr, ctr_length]
  exact xorBytes_xorBytes_cancel (keystream_take_length ks _ text)

/-- **A ciphertext is its plaintext plus sixteen bytes.** -/
theorem encrypt_length {key nonce p aad c : Bytes} (h : encrypt key nonce p aad = some c) :
    c.length = p.length + 16 := by
  rw [encrypt] at h
  split_ifs at h with hsizes
  cases h
  rw [List.length_append, ctr_length, tag_length]

/-- **Decryption gives the plaintext back.** -/
theorem decrypt_encrypt {key nonce p aad c : Bytes} (h : encrypt key nonce p aad = some c) :
    decrypt key nonce c aad = some p := by
  have hlen := encrypt_length h
  rw [encrypt] at h
  split_ifs at h with hsizes
  cases h
  have htext : (ctr (expandKey key) nonce p).length = p.length := ctr_length _ _ _
  rw [decrypt, hlen, Nat.add_sub_cancel]
  rw [if_pos (by rw [hsizes, Bool.true_and]; exact decide_eq_true (Nat.le_add_left 16 _))]
  rw [← htext, List.take_left, List.drop_left, if_pos rfl, ctr_ctr]

/-- A published test vector: an all-zero key, nonce and block. -/
example : encrypt (toBytesBE 32 0) (toBytesBE 12 0) (toBytesBE 16 0) [] =
    some (toBytesBE 32 0xcea7403d4d606b6e074ec5d3baf39d18d0d1c8a799996bf0265b98b5d48ab919) := by
  decide +kernel

end AesGcm
