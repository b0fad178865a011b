import Tracebed.Lib.PyText

/-!
# Canonical Base64

`b64encode` is `base64.b64encode(data).decode("ascii")`. `b64decodeCanonical` is the strict
reading of untrusted text: decode with `validate=True`, encode again, and refuse the text
unless the encoding is the text itself. The decoder inside it, `b64decode`, reads groups of
four characters with the padding at the end; the further spellings the standard decoder
tolerates are refused by the comparison in either case. Encoded data reads back
(`b64decodeCanonical_b64encode`).
-/

open Option List

namespace Py

/-- The character of a six-bit value. -/
def b64Char (n : ℕ) : ℕ :=
  if n < 26 then 65 + n
  else if n < 52 then 71 + n
  else if n < 62 then n - 4
  else if n = 62 then 43
  else 47

/-- The six-bit value of a character of the standard alphabet. -/
def b64Val (c : ℕ) : Option ℕ :=
  if 65 ≤ c ∧ c ≤ 90 then some (c - 65)
  else if 97 ≤ c ∧ c ≤ 122 then some (c - 71)
  else if 48 ≤ c ∧ c ≤ 57 then some (c + 4)
  else if c = 43 then some 62
  else if c = 47 then some 63
  else none

/-- `base64.b64encode(data).decode("ascii")`. -/
def b64encode : Bytes → PyStr
  | [] => []
  | [a] => [b64Char (a.toNat / 4), b64Char (a.toNat % 4 * 16), 61, 61]
  | [a, b] =>
    [b64Char (a.toNat / 4), b64Char (a.toNat % 4 * 16 + b.toNat / 16),
      b64Char (b.toNat % 16 * 4), 61]
  | a :: b :: c :: rest =>
    b64Char (a.toNat / 4) :: b64Char (a.toNat % 4 * 16 + b.toNat / 16) ::
      b64Char (b.toNat % 16 * 4 + c.toNat / 64) :: b64Char (c.toNat % 64) :: b64encode rest

/-- The bytes of groups of four characters, the last of which may be padded. -/
def b64decode : PyStr → Option Bytes
  | [] => some []
  | w :: x :: y :: z :: rest =>
    if y = 61 ∧ z = 61 ∧ rest = [] then
      (b64Val w).bind fun p => (b64Val x).map fun q => [UInt8.ofNat (p * 4 + q / 16)]
    else if z = 61 ∧ rest = [] then
      (b64Val w).bind fun p => (b64Val x).bind fun q => (b64Val y).map fun r =>
        [UInt8.ofNat (p * 4 + q / 16), UInt8.ofNat (q % 16 * 16 + r / 4)]
    else
      (b64Val w).bind fun p => (b64Val x).bind fun q => (b64Val y).bind fun r =>
        (b64Val z).bind fun s => (b64decode rest).map fun tail =>
          UInt8.ofNat (p * 4 + q / 16) :: UInt8.ofNat (q % 16 * 16 + r / 4) ::
            UInt8.ofNat (r % 4 * 64 + s) :: tail
  | _ => none

/-- The strict reading of Base64 text; `none` is the exception. -/
def b64decodeCanonical (s : PyStr) : Option Bytes :=
  match b64decode s with
  | some d => if b64encode d = s then some d else none
  | none => none

/-- The state machine of `base64.b64decode(data)` without validation: `quad` characters of
the current group are read and `left` holds the bits not written yet. Characters outside the
alphabet are skipped, and what follows a complete padding is not read. -/
def b64decodeFrom (quad left pads : ℕ) : PyStr → Option Bytes
  | [] => if quad = 0 then some [] else none
  | c :: s =>
    if c = 61 then
      if 2 ≤ quad ∧ 4 ≤ quad + (pads + 1) then some []
      else b64decodeFrom quad left (if 2 ≤ quad then pads + 1 else pads) s
    else
      match b64Val c, quad with
      | none, _ => b64decodeFrom quad left pads s
      | some v, 0 => b64decodeFrom 1 v 0 s
      | some v, 1 =>
        (b64decodeFrom 2 (v % 16) 0 s).map (UInt8.ofNat (left * 4 + v / 16) :: ·)
      | some v, 2 =>
        (b64decodeFrom 3 (v % 4) 0 s).map (UInt8.ofNat (left * 16 + v / 4) :: ·)
      | some v, _ => (b64decodeFrom 0 0 0 s).map (UInt8.ofNat (left * 64 + v) :: ·)

/-- `base64.b64decode(data)`; `none` is the exception. -/
def b64decodeLenient (s : PyStr) : Option Bytes := b64decodeFrom 0 0 0 s

variable {n : ℕ}

theorem b64Val_b64Char (h : n < 64) : b64Val (b64Char n) = some n := by
  unfold b64Char b64Val
  split_ifs <;> first | omega | (congr 1; omega)

theorem b64Char_ne_pad (h : n < 64) : b64Char n ≠ 61 := by
  unfold b64Char
  split_ifs <;> omega

/-- A byte is the number its bits denote. -/
theorem ofNat_eq_of_toNat {a : UInt8} (h : n = a.toNat) : UInt8.ofNat n = a := by
  rw [h, UInt8.ofNat_toNat]

theorem b64decode_b64encode (d : Bytes) : b64decode (b64encode d) = some d := by
  induction d using b64encode.induct with
  | case1 => rfl
  | case2 a =>
    have ha := a.toNat_lt
    simp only [b64encode, b64decode, if_true, b64Val_b64Char (show a.toNat / 4 < 64 by omega),
      b64Val_b64Char (show a.toNat % 4 * 16 < 64 by omega), bind_some, map_some, Option.some.injEq,
      cons.injEq, and_true]
    exact ofNat_eq_of_toNat (by omega)
  | case3 a b =>
    have ha := a.toNat_lt
    have hb := b.toNat_lt
    have hpad := b64Char_ne_pad (show b.toNat % 16 * 4 < 64 by omega)
    simp only [b64encode, b64decode, hpad, if_false, if_true,
      b64Val_b64Char (show a.toNat / 4 < 64 by omega),
      b64Val_b64Char (show a.toNat % 4 * 16 + b.toNat / 16 < 64 by omega),
      b64Val_b64Char (show b.toNat % 16 * 4 < 64 by omega), bind_some,
      map_some, Option.some.injEq, cons.injEq, and_true]
    exact ⟨ofNat_eq_of_toNat (by omega), ofNat_eq_of_toNat (by omega)⟩
  | case4 a b c rest ih =>
    have ha := a.toNat_lt
    have hb := b.toNat_lt
    have hc := c.toNat_lt
    have hpad := b64Char_ne_pad (show c.toNat % 64 < 64 by omega)
    simp only [b64encode, b64decode, hpad, false_and, and_false, if_false,
      b64Val_b64Char (show a.toNat / 4 < 64 by omega),
      b64Val_b64Char (show a.toNat % 4 * 16 + b.toNat / 16 < 64 by omega),
      b64Val_b64Char (show b.toNat % 16 * 4 + c.toNat / 64 < 64 by omega),
      b64Val_b64Char (show c.toNat % 64 < 64 by omega), ih, bind_some,
      map_some, Option.some.injEq, cons.injEq, and_true]
    exact ⟨ofNat_eq_of_toNat (by omega), ofNat_eq_of_toNat (by omega), ofNat_eq_of_toNat (by omega)⟩

/-- **Round trip**: encoded data passes the strict reading. -/
@[simp] theorem b64decodeCanonical_b64encode (d : Bytes) :
    b64decodeCanonical (b64encode d) = some d := by
  simp [b64decodeCanonical, b64decode_b64encode]

/-- A character of the alphabet is a letter, a digit, `+` or `/`. -/
theorem b64Char_bounds (h : n < 64) : 43 ≤ b64Char n ∧ b64Char n ≤ 122 ∧ b64Char n ≠ 92 := by
  unfold b64Char
  split_ifs <;> omega

/-- The text is printable ASCII without quotes and backslashes. -/
theorem mem_b64encode {d : Bytes} {c : ℕ} (h : c ∈ b64encode d) : 43 ≤ c ∧ c ≤ 122 ∧ c ≠ 92 := by
  induction d using b64encode.induct with
  | case1 => cases h
  | case2 a =>
    have ha := a.toNat_lt
    simp only [b64encode, mem_cons, not_mem_nil, or_false] at h
    rcases h with rfl | rfl | rfl | rfl
    · exact b64Char_bounds (by omega)
    · exact b64Char_bounds (by omega)
    · decide
    · decide
  | case3 a b =>
    have ha := a.toNat_lt
    have hb := b.toNat_lt
    simp only [b64encode, mem_cons, not_mem_nil, or_false] at h
    rcases h with rfl | rfl | rfl | rfl
    · exact b64Char_bounds (by omega)
    · exact b64Char_bounds (by omega)
    · exact b64Char_bounds (by omega)
    · decide
  | case4 a b c rest ih =>
    have ha := a.toNat_lt
    have hb := b.toNat_lt
    have hc := c.toNat_lt
    simp only [b64encode, mem_cons] at h
    rcases h with rfl | rfl | rfl | rfl | h
    · exact b64Char_bounds (by omega)
    · exact b64Char_bounds (by omega)
    · exact b64Char_bounds (by omega)
    · exact b64Char_bounds (by omega)
    · exact ih h

end Py
