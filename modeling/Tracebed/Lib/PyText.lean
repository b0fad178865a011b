import Mathlib

/-!
# Python Text and Bytes

The model of Python `str` and `bytes` values and of the conversions between them.

* `PyStr` is a Python `str`: a list of code points, lone surrogates among them.
* `utf8Encode` / `utf8Decode` are `str.encode("utf-8", "strict")` and
  `bytes.decode("utf-8", "strict")`; `none` is the `UnicodeError`.
* `decimal` is `str(n)` for a natural number, `hexDigits` the fixed-width lower-case
  hexadecimal numeral, `toBytesBE` / `ofBytesBE` are `int.to_bytes(_, "big")` and
  `int.from_bytes(_, "big")`.
-/

open List Option

namespace Py

/-- A Python `str`: its code points, lone surrogates included. -/
abbrev PyStr := List ℕ

/-- A Python `bytes` value. -/
abbrev Bytes := List UInt8

instance : LawfulBEq PyStr := inferInstance

instance : LawfulBEq Bytes := inferInstance

/-- The Python literal with the characters of a Lean string. -/
def str (s : String) : PyStr := s.toList.map Char.toNat

/-- A Python text as a Lean string, for error messages. -/
def text (s : PyStr) : String := String.ofList (s.map Char.ofNat)

/-- `a <= b` between texts: lexicographic by code point. -/
def strLe : PyStr → PyStr → Bool
  | [], _ => true
  | _ :: _, [] => false
  | a :: as, b :: bs => if a < b then true else if b < a then false else strLe as bs

variable {a b s : PyStr} {c n w : ℕ} {bs : Bytes}

/-- It is the order of lists. -/
theorem strLe_iff_le : strLe a b = true ↔ a ≤ b := by
  rw [← not_lt]
  induction a generalizing b with
  | nil => simp [strLe]
  | cons x as ih =>
    cases b with
    | nil => simp [strLe]
    | cons y bs =>
      rw [List.cons_lt_cons_iff, strLe, not_or, not_and, ← ih]
      split_ifs with hlt hgt
      · simp
        omega
      · simp [hgt]
      · obtain rfl : x = y := by omega
        simp

theorem strLe_total (a b : PyStr) : strLe a b = true ∨ strLe b a = true := by
  rw [strLe_iff_le, strLe_iff_le]
  exact le_total a b

theorem strLe_trans {c : PyStr} (hab : strLe a b = true) (hbc : strLe b c = true) :
    strLe a c = true := by
  rw [strLe_iff_le] at *
  exact hab.trans hbc

/-- Texts that are each at most the other are equal. -/
theorem strLe_antisymm (hab : strLe a b = true) (hba : strLe b a = true) : a = b := by
  rw [strLe_iff_le] at *
  exact hab.antisymm hba

/-- Texts that begin alike are compared by what follows. -/
theorem strLe_append_left (p a b : PyStr) : strLe (p ++ a) (p ++ b) = strLe a b := by
  induction p with
  | nil => rfl
  | cons c p ih => simp [strLe, ih]

/-- `0x80 ≤ b ≤ 0xBF`: a UTF-8 continuation byte. -/
def isTail (b : UInt8) : Bool := 0x80 ≤ b.toNat && b.toNat ≤ 0xBF

/-- The six payload bits of a continuation byte. -/
def tailBits (b : UInt8) : ℕ := b.toNat - 0x80

/-- The UTF-8 bytes of one code point; `none` on a surrogate and past `U+10FFFF`. -/
def utf8Char (c : ℕ) : Option Bytes :=
  if c < 0x80 then
    some [UInt8.ofNat c]
  else if c < 0x800 then
    some [UInt8.ofNat (0xC0 + c / 0x40), UInt8.ofNat (0x80 + c % 0x40)]
  else if 0xD800 ≤ c ∧ c ≤ 0xDFFF then
    none
  else if c < 0x10000 then
    some [UInt8.ofNat (0xE0 + c / 0x1000), UInt8.ofNat (0x80 + c / 0x40 % 0x40),
      UInt8.ofNat (0x80 + c % 0x40)]
  else if c < 0x110000 then
    some [UInt8.ofNat (0xF0 + c / 0x40000), UInt8.ofNat (0x80 + c / 0x1000 % 0x40),
      UInt8.ofNat (0x80 + c / 0x40 % 0x40), UInt8.ofNat (0x80 + c % 0x40)]
  else
    none

/-- `s.encode("utf-8", "strict")`. -/
def utf8Encode : PyStr → Option Bytes
  | [] => some []
  | c :: s => do
      let b ← utf8Char c
      let bs ← utf8Encode s
      pure (b ++ bs)

/-- `b.decode("utf-8", "strict")`: overlong forms, surrogates, stray continuation bytes
and truncated sequences are refused. -/
def utf8Decode : Bytes → Option PyStr
  | [] => some []
  | a :: r =>
    if a.toNat < 0x80 then (utf8Decode r).map (a.toNat :: ·)
    else if 0xC2 ≤ a.toNat ∧ a.toNat ≤ 0xDF then
      match r with
      | b :: r =>
        if isTail b then
          (utf8Decode r).map (((a.toNat - 0xC0) * 0x40 + tailBits b) :: ·)
        else none
      | _ => none
    else if 0xE0 ≤ a.toNat ∧ a.toNat ≤ 0xEF then
      match r with
      | b :: c :: r =>
        let v := (a.toNat - 0xE0) * 0x1000 + tailBits b * 0x40 + tailBits c
        if isTail b && isTail c && 0x800 ≤ v && !(0xD800 ≤ v && v ≤ 0xDFFF) then
          (utf8Decode r).map (v :: ·)
        else none
      | _ => none
    else if 0xF0 ≤ a.toNat ∧ a.toNat ≤ 0xF4 then
      match r with
      | b :: c :: d :: r =>
        let v := (a.toNat - 0xF0) * 0x40000 + tailBits b * 0x1000 + tailBits c * 0x40
          + tailBits d
        if isTail b && isTail c && isTail d && 0x10000 ≤ v && v < 0x110000 then
          (utf8Decode r).map (v :: ·)
        else none
      | _ => none
    else none

/-- `s.encode("ascii")`. -/
def asciiEncode : PyStr → Option Bytes
  | [] => some []
  | c :: s => if c < 0x80 then (asciiEncode s).map (UInt8.ofNat c :: ·) else none

/-- Every code point is ASCII. -/
def IsAscii (s : PyStr) : Prop := ∀ c ∈ s, c < 0x80

theorem IsAscii.append {t : PyStr} (hs : IsAscii s) (ht : IsAscii t) : IsAscii (s ++ t) := by
  exact forall_mem_append.mpr ⟨hs, ht⟩

theorem asciiEncode_of_isAscii (h : IsAscii s) : asciiEncode s = some (s.map UInt8.ofNat) := by
  induction s with
  | nil => rfl
  | cons c s ih =>
    have hc : c < 0x80 := h c mem_cons_self
    have hs : IsAscii s := fun d hd => h d (mem_cons_of_mem _ hd)
    simp only [asciiEncode, if_pos hc, ih hs, map_some, map_cons]

theorem utf8Encode_of_isAscii (h : IsAscii s) : utf8Encode s = some (s.map UInt8.ofNat) := by
  induction s with
  | nil => rfl
  | cons c s ih =>
    have hc : c < 0x80 := h c mem_cons_self
    have hs : IsAscii s := fun d hd => h d (mem_cons_of_mem _ hd)
    rw [utf8Encode, utf8Char, if_pos hc, ih hs]
    rfl

theorem utf8Decode_cons_ascii {a : UInt8} {r : Bytes} (h : a.toNat < 0x80) :
    utf8Decode (a :: r) = (utf8Decode r).map (a.toNat :: ·) := by
  rw [utf8Decode.eq_def]
  simp only [if_pos h]

theorem mem_utf8Char (h : utf8Char c = some bs) {b : UInt8} (hb : b ∈ bs) :
    b.toNat = c ∨ 0x80 ≤ b.toNat := by
  rw [utf8Char] at h
  split_ifs at h with h1 h2 h3 h4 h5 <;> cases h
  all_goals
    simp only [mem_cons, not_mem_nil, or_false] at hb
    rcases hb with rfl | rfl | rfl | rfl <;> rw [UInt8.toNat_ofNat'] <;> omega

theorem mem_utf8Encode (h : utf8Encode s = some bs) {b : UInt8} (hb : b ∈ bs) :
    b.toNat ∈ s ∨ 0x80 ≤ b.toNat := by
  induction s generalizing bs with
  | nil =>
    cases h
    cases hb
  | cons c s ih =>
    obtain ⟨x, hx, h⟩ := bind_eq_some_iff.mp h
    obtain ⟨xs, hxs, h⟩ := bind_eq_some_iff.mp h
    cases h
    rcases mem_append.mp hb with hb | hb
    · rcases mem_utf8Char hx hb with hc | hc
      · exact .inl (mem_cons.mpr (.inl hc))
      · exact .inr hc
    · exact (ih hxs hb).imp_left (mem_cons_of_mem _)

/-- A byte value is read back. -/
theorem toNat_ofNat_of_lt (h : n < 256) : (UInt8.ofNat n).toNat = n := by
  exact Nat.mod_eq_of_lt h

/-- A continuation byte carries six bits. -/
theorem tail_spec (h : n < 0x40) :
    isTail (UInt8.ofNat (0x80 + n)) = true ∧ tailBits (UInt8.ofNat (0x80 + n)) = n := by
  have hn := toNat_ofNat_of_lt (show 0x80 + n < 256 by omega)
  constructor
  · rw [isTail, Bool.and_eq_true, decide_eq_true_eq, decide_eq_true_eq]
    omega
  · exact (congrArg (· - 0x80) hn).trans (Nat.add_sub_cancel_left 0x80 n)

theorem utf8Decode_utf8Char (h : utf8Char c = some bs) (r : Bytes) :
    utf8Decode (bs ++ r) = (utf8Decode r).map (c :: ·) := by
  rw [utf8Char] at h
  split_ifs at h with h1 h2 h3 h4 h5
  · cases h
    have hc : (UInt8.ofNat c).toNat = c := toNat_ofNat_of_lt (by omega)
    rw [singleton_append, utf8Decode_cons_ascii (by omega), hc]
  · cases h
    have ha : (UInt8.ofNat (0xC0 + c / 0x40)).toNat = 0xC0 + c / 0x40 :=
      toNat_ofNat_of_lt (by omega)
    obtain ⟨hb, hb'⟩ := tail_spec (show c % 0x40 < 0x40 by omega)
    have hv : (0xC0 + c / 0x40 - 0xC0) * 0x40 + c % 0x40 = c := by omega
    rw [cons_append, singleton_append, utf8Decode.eq_def]
    simp only [ha]
    rw [if_neg (by omega), if_pos (by omega), if_pos hb, hb', hv]
  · cases h
    have ha : (UInt8.ofNat (0xE0 + c / 0x1000)).toNat = 0xE0 + c / 0x1000 :=
      toNat_ofNat_of_lt (by omega)
    obtain ⟨hb, hb'⟩ := tail_spec (show c / 0x40 % 0x40 < 0x40 by omega)
    obtain ⟨hd, hd'⟩ := tail_spec (show c % 0x40 < 0x40 by omega)
    have hv : (0xE0 + c / 0x1000 - 0xE0) * 0x1000 + c / 0x40 % 0x40 * 0x40 + c % 0x40 = c := by
      omega
    have hrange : (decide (0x800 ≤ c) && !(decide (0xD800 ≤ c) && decide (c ≤ 0xDFFF))) = true := by
      rw [Bool.and_eq_true, Bool.not_eq_true', Bool.and_eq_false_iff, decide_eq_true_eq,
        decide_eq_false_iff_not, decide_eq_false_iff_not]
      omega
    rw [cons_append, cons_append, singleton_append, utf8Decode.eq_def]
    simp only [ha]
    rw [if_neg (by omega), if_neg (by omega), if_pos (by omega), hb, hd, hb', hd', hv,
      Bool.true_and, Bool.true_and, if_pos hrange]
  · cases h
    have ha : (UInt8.ofNat (0xF0 + c / 0x40000)).toNat = 0xF0 + c / 0x40000 :=
      toNat_ofNat_of_lt (by omega)
    obtain ⟨hb, hb'⟩ := tail_spec (show c / 0x1000 % 0x40 < 0x40 by omega)
    obtain ⟨hd, hd'⟩ := tail_spec (show c / 0x40 % 0x40 < 0x40 by omega)
    obtain ⟨he, he'⟩ := tail_spec (show c % 0x40 < 0x40 by omega)
    have hv : (0xF0 + c / 0x40000 - 0xF0) * 0x40000 + c / 0x1000 % 0x40 * 0x1000 +
        c / 0x40 % 0x40 * 0x40 + c % 0x40 = c := by omega
    have hrange : (decide (0x10000 ≤ c) && decide (c < 0x110000)) = true := by
      rw [Bool.and_eq_true, decide_eq_true_eq, decide_eq_true_eq]
      omega
    rw [cons_append, cons_append, cons_append, singleton_append, utf8Decode.eq_def]
    simp only [ha]
    rw [if_neg (by omega), if_neg (by omega), if_neg (by omega), if_pos (by omega), hb, hd, he,
      hb', hd', he', hv, Bool.true_and, Bool.true_and, Bool.true_and, if_pos hrange]

/-- **UTF-8 round trip.** -/
theorem utf8Decode_utf8Encode (h : utf8Encode s = some bs) : utf8Decode bs = some s := by
  induction s generalizing bs with
  | nil =>
    cases h
    rfl
  | cons c s ih =>
    obtain ⟨x, hx, h⟩ := bind_eq_some_iff.mp h
    obtain ⟨xs, hxs, h⟩ := bind_eq_some_iff.mp h
    cases h
    rw [utf8Decode_utf8Char hx, ih hxs, map_some]

/-- **ASCII decodes to itself**: the bytes of an ASCII string, read as UTF-8, are the
string. -/
theorem utf8Decode_of_ascii (h : IsAscii s) : utf8Decode (s.map UInt8.ofNat) = some s :=
  utf8Decode_utf8Encode (utf8Encode_of_isAscii h)

/-! ### Numerals -/

/-- The decimal digits of `n`, least significant first, at most `fuel` of them. -/
def decimalAux : ℕ → ℕ → PyStr → PyStr
  | 0, _, acc => acc
  | fuel + 1, n, acc =>
    if n < 10 then (48 + n) :: acc else decimalAux fuel (n / 10) ((48 + n % 10) :: acc)

/-- `str(n)` for a natural number. -/
def decimal (n : ℕ) : PyStr := decimalAux (n + 1) n []

/-- An ASCII decimal digit. -/
def isDigit (c : ℕ) : Bool := 48 ≤ c && c ≤ 57

/-- The number a string of decimal digits denotes. -/
def ofDecimal (s : PyStr) : ℕ := s.foldl (fun n c => n * 10 + (c - 48)) 0

/-- The value and the digits of a numeral, with an arbitrary tail of digits behind it:
the invariant of `decimalAux`. -/
theorem decimalAux_spec (fuel n : ℕ) (acc : PyStr) (h : n < fuel) :
    ∃ ds, decimalAux fuel n acc = ds ++ acc ∧ ds ≠ [] ∧ (∀ c ∈ ds, isDigit c = true) ∧
      ofDecimal ds = n ∧ (n ≠ 0 → ds.head? ≠ some 48) := by
  induction fuel generalizing n acc with
  | zero => omega
  | succ fuel ih =>
    by_cases hn : n < 10
    · refine ⟨[48 + n], by simp [decimalAux, hn], by simp, ?_, by simp [ofDecimal], ?_⟩
      · intro c hc
        rw [mem_singleton] at hc
        simp only [isDigit, Bool.and_eq_true, decide_eq_true_eq]
        omega
      · simp only [head?_cons, ne_eq, Option.some.injEq]
        omega
    · obtain ⟨ds, hds, hne, hdig, hval, hhead⟩ :=
        ih (n / 10) ((48 + n % 10) :: acc) (by omega)
      refine ⟨ds ++ [48 + n % 10], ?_, by simp, ?_, ?_, ?_⟩
      · simp [decimalAux, hn, hds]
      · refine forall_mem_append.mpr ⟨hdig, forall_mem_singleton.mpr ?_⟩
        simp only [isDigit, Bool.and_eq_true, decide_eq_true_eq]
        omega
      · rw [ofDecimal] at hval ⊢
        rw [foldl_append]
        simp only [foldl_cons, foldl_nil]
        omega
      · intro _
        rw [head?_append_of_ne_nil _ hne]
        exact hhead (by omega)

/-- A numeral reads back as its number. -/
theorem ofDecimal_decimal (n : ℕ) : ofDecimal (decimal n) = n := by
  obtain ⟨ds, hds, -, -, hval, -⟩ := decimalAux_spec (n + 1) n [] (by omega)
  rw [decimal, hds, append_nil, hval]

theorem decimal_digits (n : ℕ) : decimal n ≠ [] ∧ ∀ c ∈ decimal n, isDigit c = true := by
  obtain ⟨ds, hds, hne, hdig, -, -⟩ := decimalAux_spec (n + 1) n [] (by omega)
  rw [decimal, hds, append_nil]
  exact ⟨hne, hdig⟩

/-- A number below a power of ten has no more digits than the exponent. -/
theorem decimalAux_length {fuel k : ℕ} (acc : PyStr) (hfuel : n < fuel) (hk : 1 ≤ k)
    (h : n < 10 ^ k) : (decimalAux fuel n acc).length ≤ k + acc.length := by
  induction fuel generalizing n k acc with
  | zero => omega
  | succ fuel ih =>
    rw [decimalAux]
    split_ifs with hn
    · rw [length_cons]
      omega
    · obtain ⟨j, rfl⟩ : ∃ j, k = j + 1 := ⟨k - 1, by omega⟩
      have hdiv : n / 10 < 10 ^ j := Nat.div_lt_of_lt_mul (by omega)
      have hj : 1 ≤ j := by
        by_contra hj
        obtain rfl : j = 0 := by omega
        omega
      have := ih ((48 + n % 10) :: acc) (by omega) hj hdiv
      rw [length_cons] at this
      omega

theorem decimal_length_le {k : ℕ} (hk : 1 ≤ k) (h : n < 10 ^ k) : (decimal n).length ≤ k :=
  decimalAux_length [] (by omega) hk h

/-- A numeral starts with `0` only when it is the numeral of zero. -/
theorem decimal_head_ne_zero (h : n ≠ 0) : (decimal n).head? ≠ some 48 := by
  obtain ⟨ds, hds, -, -, -, hhead⟩ := decimalAux_spec (n + 1) n [] (by omega)
  rw [decimal, hds, append_nil]
  exact hhead h

/-- The lower-case hexadecimal digit of `d < 16`. -/
def hexDigit (d : ℕ) : ℕ := if d < 10 then 48 + d else 87 + d

/-- The value of a hexadecimal digit, either case. -/
def hexVal (c : ℕ) : Option ℕ :=
  if 48 ≤ c ∧ c ≤ 57 then some (c - 48)
  else if 97 ≤ c ∧ c ≤ 102 then some (c - 87)
  else if 65 ≤ c ∧ c ≤ 70 then some (c - 55)
  else none

/-- The `w`-digit lower-case hexadecimal numeral of `n` (`format(n, "0wx")`). -/
def hexDigits : ℕ → ℕ → PyStr
  | 0, _ => []
  | w + 1, n => hexDigits w (n / 16) ++ [hexDigit (n % 16)]

/-- The number a string of hexadecimal digits denotes. -/
def ofHexFrom (n : ℕ) : PyStr → Option ℕ
  | [] => some n
  | c :: s => (hexVal c).bind fun d => ofHexFrom (n * 16 + d) s

/-- `int(s, 16)` on a string of hexadecimal digits. -/
def ofHex (s : PyStr) : Option ℕ := ofHexFrom 0 s

theorem hexVal_hexDigit {d : ℕ} (h : d < 16) : hexVal (hexDigit d) = some d := by
  unfold hexDigit hexVal
  split_ifs <;> first | omega | (congr 1; omega)

theorem hexDigits_length (w n : ℕ) : (hexDigits w n).length = w := by
  induction w generalizing n with
  | zero => rfl
  | succ w ih => simp [hexDigits, ih]

theorem ofHexFrom_append (s t : PyStr) (n : ℕ) :
    ofHexFrom n (s ++ t) = (ofHexFrom n s).bind fun m => ofHexFrom m t := by
  induction s generalizing n with
  | nil => rfl
  | cons c s ih =>
    simp only [cons_append, ofHexFrom]
    cases hexVal c with
    | none => rfl
    | some d => simp only [bind_some, ih]

/-- A hexadecimal numeral wide enough for its number reads back as it. -/
theorem ofHex_hexDigits (h : n < 16 ^ w) : ofHex (hexDigits w n) = some n := by
  rw [ofHex]
  induction w generalizing n with
  | zero =>
    obtain rfl : n = 0 := by simpa using h
    rfl
  | succ w ih =>
    have hdiv : n / 16 < 16 ^ w := Nat.div_lt_of_lt_mul (by omega)
    rw [hexDigits, ofHexFrom_append, ih hdiv, bind_some, ofHexFrom,
      hexVal_hexDigit (Nat.mod_lt _ (by decide)), bind_some, ofHexFrom]
    congr 1
    omega

theorem mem_hexDigits (h : c ∈ hexDigits w n) : 48 ≤ c ∧ c ≤ 57 ∨ 97 ≤ c ∧ c ≤ 102 := by
  induction w generalizing n with
  | zero => simp [hexDigits] at h
  | succ w ih =>
    rw [hexDigits, mem_append, mem_singleton] at h
    rcases h with h | rfl
    · exact ih h
    · unfold hexDigit
      split_ifs <;> omega

/-! ### Fixed-width big-endian integers -/

/-- `n.to_bytes(w, "big")`; the source checks the range before every call. -/
def toBytesBE : ℕ → ℕ → Bytes
  | 0, _ => []
  | w + 1, n => toBytesBE w (n / 256) ++ [UInt8.ofNat n]

/-- `int.from_bytes(b, "big")`. -/
def ofBytesBE (b : Bytes) : ℕ := b.foldl (fun n c => n * 256 + c.toNat) 0

@[simp] theorem toBytesBE_length (w n : ℕ) : (toBytesBE w n).length = w := by
  induction w generalizing n with
  | zero => rfl
  | succ w ih => simp [toBytesBE, ih]

theorem toBytesBE_inj {w m n : ℕ} (hm : m < 256 ^ w) (hn : n < 256 ^ w)
    (h : toBytesBE w m = toBytesBE w n) : m = n := by
  induction w generalizing m n with
  | zero => omega
  | succ w ih =>
    obtain ⟨hinit, hlast⟩ := append_inj' h rfl
    have hdiv : m / 256 = n / 256 := ih (by omega) (by omega) hinit
    have hmod : m % 256 = n % 256 := by simpa using congrArg UInt8.toNat (head_eq_of_cons_eq hlast)
    omega

/-- A number of fixed width at the front is read back, whatever follows. -/
theorem toBytesBE_append_inj {w m n : ℕ} {x y : Bytes} (hm : m < 256 ^ w) (hn : n < 256 ^ w)
    (h : toBytesBE w m ++ x = toBytesBE w n ++ y) : m = n ∧ x = y := by
  obtain ⟨hbytes, hrest⟩ := append_inj h (by simp)
  exact ⟨toBytesBE_inj hm hn hbytes, hrest⟩

/-- Bytes behind their own length are read back, whatever follows. -/
theorem counted_append_inj {w : ℕ} {a b x y : Bytes} (ha : a.length < 256 ^ w)
    (hb : b.length < 256 ^ w)
    (h : toBytesBE w a.length ++ (a ++ x) = toBytesBE w b.length ++ (b ++ y)) :
    a = b ∧ x = y := by
  obtain ⟨hlen, hrest⟩ := toBytesBE_append_inj ha hb h
  exact append_inj hrest hlen

/-! ### Lines -/

variable {α : Type}

/-- Lines that each end in a terminator are the lines with a separator between them, and one
terminator more. -/
theorem flatten_terminated (x : α) {ls : List (List α)} (h : ls ≠ []) :
    (ls.map (· ++ [x])).flatten = [x].intercalate ls ++ [x] := by
  induction ls with
  | nil => exact absurd rfl h
  | cons l ls ih =>
    cases ls with
    | nil => simp
    | cons m ls =>
      rw [map_cons, flatten_cons, ih (cons_ne_nil m ls), intercalate_cons_cons]
      simp only [append_assoc]

/-- A text that ends in a terminator is its lines, each with the terminator. -/
theorem flatten_splitOn [BEq α] [LawfulBEq α] {x : α} {s : List α} (h : s.getLast? = some x) :
    ((s.dropLast.splitOn x).map (· ++ [x])).flatten = s := by
  obtain ⟨t, rfl⟩ := getLast?_eq_some_iff.mp h
  rw [dropLast_concat, flatten_terminated x (splitOn_ne_nil x t), intercalate_splitOn]

/-- Lines without the terminator inside are recovered from the text. -/
theorem splitOn_flatten [BEq α] [LawfulBEq α] {x : α} {ls : List (List α)} (hne : ls ≠ [])
    (h : ∀ l ∈ ls, x ∉ l) :
    ((ls.map (· ++ [x])).flatten).getLast? = some x ∧
      ((ls.map (· ++ [x])).flatten).dropLast.splitOn x = ls := by
  rw [flatten_terminated x hne, dropLast_concat, splitOn_intercalate x h hne]
  exact ⟨getLast?_concat, rfl⟩

theorem splitOn_terminated [BEq α] [LawfulBEq α] {x : α} {ls : List (List α)}
    (h : ∀ l ∈ ls, x ∉ l) : ((ls.map (· ++ [x])).flatten).splitOn x = ls ++ [[]] := by
  have hjoin : (ls.map (· ++ [x])).flatten = [x].intercalate (ls ++ [[]]) := by
    induction ls with
    | nil => simp
    | cons l ls ih =>
      have htail : ∃ m ms, ls ++ [[]] = m :: ms := by
        cases ls with
        | nil => exact ⟨[], [], rfl⟩
        | cons m ms => exact ⟨m, ms ++ [[]], rfl⟩
      obtain ⟨m, ms, hms⟩ := htail
      rw [map_cons, flatten_cons, ih fun l' hl' => h l' (mem_cons_of_mem _ hl'),
        cons_append, hms, intercalate_cons_cons]
  rw [hjoin]
  refine splitOn_intercalate x ?_ (by simp)
  exact forall_mem_append.mpr ⟨h, forall_mem_singleton.mpr not_mem_nil⟩

end Py
