import Tracebed.Lib.Json

/-!
# Reading JSON

`loads` is `json.loads` on a text: the scanner of the standard library, with the two hooks
the source programs install. `refuseDuplicates` is an `object_pairs_hook` that raises on a
repeated key, `refuseConstants` a `parse_constant` that raises; `none` is the exception. The
scanner recurses on fuel, twice the length of the text, which is more than any text can use.
Nesting past the interpreter's recursion limit is not modelled.
-/

namespace Py

namespace Json

/-- The hooks of one call of `json.loads`. -/
structure LoadOptions where
  refuseDuplicates : Bool
  refuseConstants : Bool

/-- `json.loads(text)` with no hooks. -/
def LoadOptions.default : LoadOptions := ⟨false, false⟩

/-- JSON whitespace. -/
def isWs (c : ℕ) : Bool := c = 32 || c = 9 || c = 10 || c = 13

variable (s : PyStr)

/-- The text past its leading whitespace. -/
def skipWs : PyStr := s.dropWhile isWs

/-- The text past a literal it starts with. -/
def expect : PyStr → PyStr → Option PyStr
  | [], s => some s
  | p :: ps, c :: s => if p = c then expect ps s else none
  | _ :: _, [] => none

/-- The character a one-letter escape stands for. -/
def unescape (c : ℕ) : Option ℕ :=
  if c = 34 then some 34
  else if c = 92 then some 92
  else if c = 47 then some 47
  else if c = 98 then some 8
  else if c = 102 then some 12
  else if c = 110 then some 10
  else if c = 114 then some 13
  else if c = 116 then some 9
  else none

/-- The ways `escape` spells a character inside a string. -/
inductive Spelling (ensureAscii : Bool) (c : ℕ) : PyStr → Prop
  | letter {e : ℕ} : unescape e = some c → 32 ≤ e ∧ e < 0x80 ∧ e ≠ 117 →
      Spelling ensureAscii c [92, e]
  | unicode : c < 0x10000 → c < 32 ∨ ensureAscii = true →
      Spelling ensureAscii c (unicodeEscape c)
  | pair : 0x10000 ≤ c → ensureAscii = true →
      Spelling ensureAscii c (unicodeEscape (0xD800 + (c - 0x10000) / 0x400) ++
        unicodeEscape (0xDC00 + (c - 0x10000) % 0x400))
  | self : 32 ≤ c → c ≠ 34 → c ≠ 92 → (ensureAscii = true → c ≤ 126) →
      Spelling ensureAscii c [c]

/-- `escape` uses one of them. -/
theorem spelling_escape (ea : Bool) (c : ℕ) : Spelling ea c (escape ea c) := by
  rw [escape]
  split_ifs with h1 h2 h3 h4 h5 h6 h7 h8 h9 h10
  iterate 7
    · subst c
      exact .letter rfl (by omega)
  · exact .unicode (by omega) (.inl h8)
  · exact .unicode h10 (.inr (Bool.and_eq_true_iff.mp h9).1)
  · exact .pair (by omega) (Bool.and_eq_true_iff.mp h9).1
  · refine .self (by omega) h1 h2 fun hea => ?_
    rw [hea, Bool.true_and, decide_eq_true_eq] at h9
    omega

/-- A character in front of a scanned string. -/
def consChar (c : ℕ) (r : PyStr × PyStr) : PyStr × PyStr := (c :: r.1, r.2)

/-- The characters of a string literal, from behind its opening quote, and the text behind
its closing quote. -/
def scanString : PyStr → Option (PyStr × PyStr)
  | [] => none
  | c :: s =>
    if c = 34 then some ([], s)
    else if c = 92 then
      match s with
      | [] => none
      | e :: s =>
        if e = 117 then
          match s with
          | a :: b :: d :: f :: s =>
            match ofHex [a, b, d, f] with
            | none => none
            | some u =>
              -- a high surrogate joins with a low one that is escaped right behind it
              match s with
              | 92 :: 117 :: a :: b :: d :: f :: rest =>
                match ofHex [a, b, d, f] with
                | none => none
                | some v =>
                  if 0xD800 ≤ u ∧ u ≤ 0xDBFF ∧ 0xDC00 ≤ v ∧ v ≤ 0xDFFF then
                    (scanString rest).map
                      (consChar (0x10000 + (u - 0xD800) * 0x400 + (v - 0xDC00)))
                  else
                    (scanString (92 :: 117 :: a :: b :: d :: f :: rest)).map
                      (consChar u)
              | s => (scanString s).map (consChar u)
          | _ => none
        else
          match unescape e with
          | some v => (scanString s).map (consChar v)
          | none => none
    else if c < 32 then none
    else (scanString s).map (consChar c)

/-- The fraction of a number, if one starts here: its digits and the text behind it. -/
def scanFraction : Option (PyStr × PyStr) :=
  match s with
  | 46 :: s => if (s.takeWhile isDigit).isEmpty then none
      else some (s.takeWhile isDigit, s.dropWhile isDigit)
  | _ => none

/-- The exponent of a number, if one starts here. -/
def scanExponent : Option (ℤ × PyStr) :=
  match s with
  | c :: s =>
    if c = 101 ∨ c = 69 then
      let neg := s.head? = some 45
      let s := if s.head? = some 45 ∨ s.head? = some 43 then s.tail else s
      let ds := s.takeWhile isDigit
      if ds.isEmpty then none
      else some (if neg then -(ofDecimal ds : ℤ) else ofDecimal ds, s.dropWhile isDigit)
    else none
  | [] => none

/-- The digits of the integer part: a single zero, or digits that start with no zero. -/
def scanIntDigits : Option (PyStr × PyStr) :=
  match s with
  | c :: s =>
    if c = 48 then some ([48], s)
    else if isDigit c then some (c :: s.takeWhile isDigit, s.dropWhile isDigit)
    else none
  | [] => none

/-- `int(text)` of a sign and digits, refused past the digit limit. -/
def readInt (neg : Bool) (ds : PyStr) : Option Json :=
  if maxStrDigits < ds.length then none
  else some (.int (if neg then -(ofDecimal ds : ℤ) else ofDecimal ds))

/-- `float(text)` of a sign, the digits around the point, and the exponent. -/
def readFloat (neg : Bool) (ds frac : PyStr) (e : ℤ) : Json :=
  .float (.ofDecimalRat neg (ofDecimal (ds ++ frac) * PyFloat.tenPow (e - frac.length)))

/-- A number that starts here. -/
def scanNumber : Option (Json × PyStr) :=
  let neg : Bool := s.head? = some 45
  match scanIntDigits (if neg then s.tail else s) with
  | none => none
  | some (ds, s) =>
    match scanFraction s, scanExponent s with
    | some (frac, s), _ =>
      match scanExponent s with
      | some (e, s) => some (readFloat neg ds frac e, s)
      | none => some (readFloat neg ds frac 0, s)
    | none, some (e, s) => some (readFloat neg ds [] e, s)
    | none, none => (readInt neg ds).map fun v => (v, s)

/-- The dictionary of scanned members. -/
def buildObject (o : LoadOptions) (pairs : List (PyStr × Json)) : Option Json :=
  if o.refuseDuplicates then
    if (pairs.map Prod.fst).Nodup then some (.obj pairs) else none
  else some (.obj (pairs.foldl (fun m p => Dict.set m p.1 p.2) []))

/-- A value in front of the text behind it, for a constant the hook may refuse. -/
def constant (o : LoadOptions) (x : PyFloat) (s : PyStr) : Option (Json × PyStr) :=
  if o.refuseConstants then none else some (.float x, s)

mutual

/-- The value that starts here and the text behind it. -/
def scanOnce (o : LoadOptions) : ℕ → PyStr → Option (Json × PyStr)
  | 0, _ => none
  | _ + 1, [] => none
  | fuel + 1, c :: s =>
    if c = 34 then (scanString s).map fun r => (.str r.1, r.2)
    else if c = 123 then
      if (skipWs s).head? = some 125 then
        (buildObject o []).map fun v => (v, (skipWs s).tail)
      else
        match scanMembers o fuel (skipWs s) with
        | some (pairs, s) => (buildObject o pairs).map fun v => (v, s)
        | none => none
    else if c = 91 then
      if (skipWs s).head? = some 93 then some (.arr [], (skipWs s).tail)
      else (scanItems o fuel (skipWs s)).map fun r => (.arr r.1, r.2)
    else if c = 110 then (expect (Py.str "ull") s).map fun s => (.null, s)
    else if c = 116 then (expect (Py.str "rue") s).map fun s => (.bool true, s)
    else if c = 102 then (expect (Py.str "alse") s).map fun s => (.bool false, s)
    else if c = 78 then (expect (Py.str "aN") s).bind (constant o .nan)
    else if c = 73 then (expect (Py.str "nfinity") s).bind (constant o .posInf)
    else
      match expect (Py.str "-Infinity") (c :: s) with
      | some s => constant o .negInf s
      | none => scanNumber (c :: s)

/-- The items of a list, from the first one to behind the closing bracket. -/
def scanItems (o : LoadOptions) : ℕ → PyStr → Option (List Json × PyStr)
  | 0, _ => none
  | fuel + 1, s =>
    match scanOnce o fuel s with
    | none => none
    | some (v, s) =>
      match skipWs s with
      | [] => none
      | c :: s =>
        if c = 93 then some ([v], s)
        else if c = 44 then
          (scanItems o fuel (skipWs s)).map fun r => (v :: r.1, r.2)
        else none

/-- The members of an object, from the first key to behind the closing brace. -/
def scanMembers (o : LoadOptions) : ℕ → PyStr → Option (List (PyStr × Json) × PyStr)
  | 0, _ => none
  | _ + 1, [] => none
  | fuel + 1, q :: s =>
    if q = 34 then
      match scanString s with
      | none => none
      | some (k, s) =>
        match expect [58] (skipWs s) with
        | none => none
        | some s =>
          match scanOnce o fuel (skipWs s) with
          | none => none
          | some (v, s) =>
            match skipWs s with
            | [] => none
            | c :: s =>
              if c = 125 then some ([(k, v)], s)
              else if c = 44 then
                (scanMembers o fuel (skipWs s)).map fun r => ((k, v) :: r.1, r.2)
              else none
    else none

end

/-- `json.loads(text)`. -/
def loads (o : LoadOptions) (s : PyStr) : Option Json :=
  if s.head? = some 0xFEFF then none
  else
    match scanOnce o (2 * s.length + 2) (skipWs s) with
    | some (v, rest) => if (skipWs rest).isEmpty then some v else none
    | none => none

end Json

end Py
