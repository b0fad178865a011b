import Tracebed.Lib.JsonLoads

/-!
# Exceptions, Primitives and Canonical JSON

What the write path shares: the exceptions the source raises, the cryptographic primitives it
imports, and the serialiser of everything hashed or authenticated (`domain/canonical.py`).

SHA-256 and AES-GCM are parameters. `Primitives.Lawful` states the documented behaviour the
results rely on: digests are 32 bytes long, a ciphertext is its plaintext plus a 16-byte tag, and
decryption under the same key, nonce and associated data gives the plaintext back.
-/

open Py

namespace Tracebed

/-- The exceptions the modelled code raises or lets through. -/
inductive PyError
  | valueError (msg : String)
  | typeError (msg : String)
  | runtimeError (msg : String)
  | notFound (msg : String)
  | tombstoned (msg : String)
  | keyBindingMismatch (msg : String)
  | keyMaterialUnavailable (msg : String)
  | masterKeyMissing (msg : String)
  | invalidTag
  | erasureFenced
  | erasureSnapshotStale
  | activityBusy
  | projectInactive
  | operationalError
  | osError
  deriving DecidableEq

/-- SHA-256 and AES-256-GCM. Encryption raises on a key of a wrong size; decryption raises
on that and on a failed authentication. -/
structure Primitives where
  sha256 : Bytes → Bytes
  aesgcmEncrypt : (key nonce plaintext aad : Bytes) → Except PyError Bytes
  aesgcmDecrypt : (key nonce ciphertext aad : Bytes) → Except PyError Bytes

/-- The documented behaviour of the primitives. -/
structure Primitives.Lawful (P : Primitives) : Prop where
  sha256_length : ∀ b, (P.sha256 b).length = 32
  encrypt_length : ∀ {key nonce p aad c}, P.aesgcmEncrypt key nonce p aad = .ok c →
    c.length = p.length + 16
  decrypt_encrypt : ∀ {key nonce p aad c}, P.aesgcmEncrypt key nonce p aad = .ok c →
    P.aesgcmDecrypt key nonce c aad = .ok p

/-- An exception unless a test passes. -/
def require (b : Bool) (e : PyError) : Except PyError Unit := if b then .ok () else .error e

/-- A value, or the exception that stands for its absence. -/
def orRaise {α : Type} (x : Option α) (e : PyError) : Except PyError α :=
  match x with
  | some a => .ok a
  | none => .error e

variable {e : PyError}

@[simp] theorem require_eq_ok {b : Bool} {u : Unit} : require b e = .ok u ↔ b = true := by
  cases b <;> simp [require]

@[simp] theorem orRaise_eq_ok {α : Type} {x : Option α} {a : α} :
    orRaise x e = .ok a ↔ x = some a := by
  cases x <;> simp [orRaise]

/-- `bytes` compared lexicographically: `a <= b`. -/
def bytesLe (a b : Bytes) : Bool := strLe (a.map UInt8.toNat) (b.map UInt8.toNat)

theorem bytesLe_total (a b : Bytes) : bytesLe a b = true ∨ bytesLe b a = true := strLe_total _ _

theorem bytesLe_trans {a b c : Bytes} (hab : bytesLe a b = true) (hbc : bytesLe b c = true) :
    bytesLe a c = true := strLe_trans hab hbc

theorem bytesLe_antisymm {a b : Bytes} (hab : bytesLe a b = true) (hba : bytesLe b a = true) :
    a = b :=
  List.map_injective_iff.mpr (fun _ _ h => UInt8.toNat.inj h) (strLe_antisymm hab hba)

instance : Std.Total fun a b : Bytes => bytesLe a b = true := ⟨bytesLe_total⟩

instance : IsTrans Bytes fun a b => bytesLe a b = true := ⟨fun _ _ _ => bytesLe_trans⟩

/-- The options of `canonical_json`. -/
def canonicalOptions : Json.DumpOptions := ⟨false, true, false⟩

/-- `canonical_json(obj)`: sorted keys, no whitespace, UTF-8, no NaN or infinity. A lone
surrogate fails in the final `encode`. -/
def canonicalJson (v : Json) : Except PyError Bytes := do
  let text ← orRaise (Json.dumps canonicalOptions v)
    (.valueError "canonical_json: not JSON-canonicalisable")
  orRaise (utf8Encode text) (.valueError "surrogates not allowed")

end Tracebed
