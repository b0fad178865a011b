import Tracebed.Lib.PyText

/-!
# UUIDs

`UUID` is Python's `uuid.UUID`: a 128-bit integer with the textual form
`8-4-4-4-12` in lower-case hexadecimal. `UUID.parse` reads the hexadecimal digits of a
text whose hyphens have been removed; the further spellings the constructor tolerates
(braces, the `urn:` prefix, digit separators), which `str` never writes, are refused here.
-/

open List

namespace Py

/-- A Python `uuid.UUID`. -/
structure UUID where
  int : BitVec 128
  deriving DecidableEq

namespace UUID

variable (u : UUID)

/-- `uuid.bytes`: sixteen bytes, most significant first. -/
def bytes : Bytes := toBytesBE 16 u.int.toNat

/-- `str(uuid)`. -/
def str : PyStr :=
  let h := hexDigits 32 u.int.toNat
  h.take 8 ++ 45 :: ((h.drop 8).take 4 ++ 45 :: ((h.drop 12).take 4 ++
    45 :: ((h.drop 16).take 4 ++ 45 :: h.drop 20)))

/-- `UUID(text)`; `none` is the `ValueError`. -/
def parse (s : PyStr) : Option UUID :=
  let h := s.filter (· ≠ 45)
  if h.length = 32 then (ofHex h).map fun n => ⟨BitVec.ofNat 128 n⟩ else none

/-- `uuid4()` from sixteen random bytes: the version and variant bits are forced. -/
def ofRandom (b : Bytes) : UUID :=
  let n := BitVec.ofNat 128 (ofBytesBE b)
  ⟨(n &&& ~~~(0xF000C000000000000000#128)) ||| 0x40008000000000000000#128⟩

/-- Removing the hyphens of the text leaves the 32 digits. -/
theorem filter_str : u.str.filter (· ≠ 45) = hexDigits 32 u.int.toNat := by
  set h := hexDigits 32 u.int.toNat with hh
  have hkeep : ∀ l : PyStr, (∀ c ∈ l, c ∈ h) → l.filter (· ≠ 45) = l := by
    intro l hl
    refine filter_eq_self.mpr fun c hc => ?_
    have := mem_hexDigits (hh ▸ hl c hc)
    rw [decide_eq_true_eq]
    omega
  have hd : ∀ k : ℕ, ∀ c ∈ h.drop k, c ∈ h := fun k c hc => mem_of_mem_drop hc
  have ht : ∀ k j : ℕ, ∀ c ∈ (h.drop k).take j, c ∈ h :=
    fun k j c hc => hd k c (mem_of_mem_take hc)
  have h45 : decide ((45 : ℕ) ≠ 45) = false := rfl
  simp only [str, filter_append, filter_cons, h45, Bool.false_eq_true, if_false]
  rw [hkeep _ (fun c hc => mem_of_mem_take hc), hkeep _ (ht 8 4), hkeep _ (ht 12 4),
    hkeep _ (ht 16 4), hkeep _ (hd 20)]
  have e16 : (h.drop 16).take 4 ++ h.drop 20 = h.drop 16 := by
    rw [show h.drop 20 = (h.drop 16).drop 4 by rw [drop_drop], take_append_drop]
  have e12 : (h.drop 12).take 4 ++ h.drop 16 = h.drop 12 := by
    rw [show h.drop 16 = (h.drop 12).drop 4 by rw [drop_drop], take_append_drop]
  have e8 : (h.drop 8).take 4 ++ h.drop 12 = h.drop 8 := by
    rw [show h.drop 12 = (h.drop 8).drop 4 by rw [drop_drop], take_append_drop]
  rw [e16, e12, e8, take_append_drop]

/-- **The text of a UUID parses to it.** -/
theorem parse_str : parse u.str = some u := by
  have hlt : u.int.toNat < 16 ^ 32 := u.int.isLt
  simp only [parse]
  rw [filter_str, if_pos (hexDigits_length _ _), ofHex_hexDigits hlt, Option.map_some,
    BitVec.ofNat_toNat, BitVec.setWidth_eq]

theorem str_inj {u v : UUID} (h : u.str = v.str) : u = v := by
  rw [← Option.some_inj, ← parse_str, ← parse_str, h]

theorem bytes_inj {u v : UUID} (h : u.bytes = v.bytes) : u = v := by
  have hint : u.int.toNat = v.int.toNat := toBytesBE_inj u.int.isLt v.int.isLt h
  exact congrArg UUID.mk (BitVec.eq_of_toNat_eq hint)

@[simp] theorem bytes_length : u.bytes.length = 16 := toBytesBE_length _ _

/-- The text of a UUID has 36 characters. -/
theorem str_length : u.str.length = 36 := by
  simp [str, hexDigits_length]

theorem str_isHexText {u : UUID} {c : ℕ} (h : c ∈ u.str) :
    48 ≤ c ∧ c ≤ 57 ∨ 97 ≤ c ∧ c ≤ 102 ∨ c = 45 := by
  by_cases hc : c = 45
  · exact .inr (.inr hc)
  · have hmem : c ∈ u.str.filter (· ≠ 45) :=
      mem_filter.mpr ⟨h, decide_eq_true hc⟩
    rw [filter_str] at hmem
    rcases mem_hexDigits hmem with h | h
    · exact .inl h
    · exact .inr (.inl h)

end UUID

end Py
