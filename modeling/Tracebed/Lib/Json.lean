import Tracebed.Lib.PyFloat

/-!
# Python Values That JSON Can Hold

`Json` is a Python object as `json.loads` builds it. A `dict` is the list of its members in
insertion order.

* `Dict.get` is `d.get(key)`: a missing key and a stored `None` read the same.
* `Dict.set` is `d[key] = value`: an existing key keeps its place.
* `pyEq` is `==`: numbers compare by value whatever their types (`1 == 1.0 == True`) and
  dictionaries compare without regard to order.
* `dumps` is `json.dumps` with the compact separators; `none` is the exception it raises
  on a float JSON cannot spell or an integer of more than 4300 digits.
-/

namespace Py

/-- A Python value of the kinds JSON has. -/
inductive Json
  | null
  | bool (b : Bool)
  | int (n : ℤ)
  | float (x : PyFloat)
  | str (s : PyStr)
  | arr (l : List Json)
  | obj (m : List (PyStr × Json))

/-- The members of a `dict`, in insertion order. -/
abbrev Dict := List (PyStr × Json)

namespace Dict

/-- The stored value of a key. -/
def find (m : Dict) (k : PyStr) : Option Json := (List.find? (fun p => p.1 == k) m).map Prod.snd

/-- `m.get(k)`. -/
def get (m : Dict) (k : PyStr) : Json := (find m k).getD .null

/-- `m[k] = v`. -/
def set : Dict → PyStr → Json → Dict
  | [], k, v => [(k, v)]
  | p :: m, k, v => if p.1 = k then (k, v) :: m else p :: set m k v

/-- The keys, in insertion order. -/
def keys (m : Dict) : List PyStr := m.map Prod.fst

/-- `set(m) == {k1, ..., kn}`. -/
def hasKeys (m : Dict) (ks : List PyStr) : Bool :=
  (keys m).all (ks.contains ·) && ks.all ((keys m).contains ·)

@[simp] theorem find_set_self (m : Dict) (k : PyStr) (v : Json) : find (set m k v) k = some v := by
  induction m with
  | nil => simp [set, find]
  | cons p m ih =>
    unfold set
    split_ifs with h
    · simp [find]
    · have : (p.1 == k) = false := by simpa using h
      simpa [find, this] using ih

/-- Setting one key leaves the others. -/
@[simp] theorem find_set_of_ne (m : Dict) {k k' : PyStr} (v : Json) (h : k' ≠ k) :
    find (set m k v) k' = find m k' := by
  induction m with
  | nil => simp [set, find, h.symm]
  | cons p m ih =>
    unfold set
    split_ifs with hp
    · simp [find, hp, h.symm]
    · unfold find at ih ⊢
      cases hpk : p.1 == k' with
      | true => simp [hpk]
      | false => simpa [hpk] using ih

@[simp] theorem get_set_self (m : Dict) (k : PyStr) (v : Json) : get (set m k v) k = v := by
  simp [get]

@[simp] theorem get_set_of_ne (m : Dict) {k k' : PyStr} (v : Json) (h : k' ≠ k) :
    get (set m k v) k' = get m k' := by
  simp [get, h]

variable {m : Dict}

/-- A value that is found is a member. -/
theorem mem_of_find {k : PyStr} {v : Json} (h : find m k = some v) : (k, v) ∈ m := by
  obtain ⟨p, hp, rfl⟩ := Option.map_eq_some_iff.mp h
  have hk : p.1 = k := by simpa using List.find?_some hp
  subst hk
  exact List.mem_of_find?_eq_some hp

variable {p : PyStr × Json}

/-- With distinct keys, every member is found under its key. -/
theorem get_of_mem (hm : (keys m).Nodup) (hp : p ∈ m) : get m p.1 = p.2 := by
  have hsome : (List.find? (fun q : PyStr × Json => q.1 == p.1) m).isSome = true :=
    List.find?_isSome.mpr ⟨p, hp, beq_self_eq_true p.1⟩
  obtain ⟨q, hq⟩ := Option.isSome_iff_exists.mp hsome
  have hkey : q.1 = p.1 := by simpa using List.find?_some hq
  have hqp : q = p := List.inj_on_of_nodup_map hm (List.mem_of_find?_eq_some hq) hp hkey
  rw [get, find, hq, hqp]
  rfl

theorem mem_of_hasKeys {ks : List PyStr} (h : hasKeys m ks = true) (hp : p ∈ m) : p.1 ∈ ks := by
  have hall := List.all_eq_true.mp (Bool.and_eq_true_iff.mp h).1
  exact List.contains_iff_mem.mp (hall p.1 (List.mem_map_of_mem hp))

end Dict

namespace Json

/-! ### Equality -/

/-- The number a numeric value denotes; a `bool` counts as an integer. -/
inductive Number
  | int (n : ℤ)
  | float (x : PyFloat)

/-- A numeric value as a number. -/
def number? : Json → Option Number
  | bool b => some (.int (if b then 1 else 0))
  | int n => some (.int n)
  | float x => some (.float x)
  | _ => none

/-- `==` between numbers. -/
def Number.eq : Number → Number → Bool
  | .int m, .int n => m = n
  | .int m, .float y => y.eqInt m
  | .float x, .int n => x.eqInt n
  | .float x, .float y => x.eqFloat y

/-- `==` between values that are no containers. -/
def scalarEq : Json → Json → Bool
  | null, null => true
  | str a, str b => a = b
  | a, b =>
    match number? a, number? b with
    | some m, some n => m.eq n
    | _, _ => false

mutual

/-- `a == b`. -/
def pyEq : Json → Json → Bool
  | arr a, arr b => pyEqList a b
  | obj a, obj b => a.length = b.length && pyEqMembers a b
  | a, b => scalarEq a b

/-- `==` between lists. -/
def pyEqList : List Json → List Json → Bool
  | [], [] => true
  | x :: a, y :: b => pyEq x y && pyEqList a b
  | _, _ => false

/-- Every member of the first dictionary has an equal one in the second. -/
def pyEqMembers : List (PyStr × Json) → List (PyStr × Json) → Bool
  | [], _ => true
  | (k, x) :: a, b =>
    (match Dict.find b k with
      | some y => pyEq x y
      | none => false) && pyEqMembers a b

end

/-! ### Well-formedness -/

mutual

/-- Every dictionary inside the value has distinct keys, as Python's have. -/
def wf : Json → Bool
  | arr l => wfItems l
  | obj m => decide (m.map Prod.fst).Nodup && wfMembers m
  | _ => true

/-- `wf` of every item. -/
def wfItems : List Json → Bool
  | [] => true
  | x :: l => wf x && wfItems l

/-- `wf` of every member's value. -/
def wfMembers : List (PyStr × Json) → Bool
  | [] => true
  | (_, x) :: m => wf x && wfMembers m

end

/-! ### Serialisation -/

/-- The keyword arguments of `json.dumps` that the source varies. -/
structure DumpOptions where
  ensureAscii : Bool
  sortKeys : Bool
  allowNan : Bool

/-- `\uXXXX`. -/
def unicodeEscape (c : ℕ) : PyStr := 92 :: 117 :: hexDigits 4 c

variable (ensureAscii : Bool)

/-- The spelling of one character inside a JSON string. -/
def escape (c : ℕ) : PyStr :=
  if c = 34 then [92, 34]
  else if c = 92 then [92, 92]
  else if c = 10 then [92, 110]
  else if c = 13 then [92, 114]
  else if c = 9 then [92, 116]
  else if c = 12 then [92, 102]
  else if c = 8 then [92, 98]
  else if c < 32 then unicodeEscape c
  else if ensureAscii && 126 < c then
    if c < 0x10000 then unicodeEscape c
    else
      unicodeEscape (0xD800 + (c - 0x10000) / 0x400) ++
        unicodeEscape (0xDC00 + (c - 0x10000) % 0x400)
  else [c]

/-- A JSON string literal. -/
def quote (s : PyStr) : PyStr :=
  34 :: (s.flatMap (escape ensureAscii) ++ [34])

/-- The most digits `str(int)` and `int(str)` convert. -/
def maxStrDigits : ℕ := 4300

/-- `int.__repr__`, refused past the digit limit. -/
def dumpsInt (n : ℤ) : Option PyStr :=
  let digits := decimal n.natAbs
  if maxStrDigits < digits.length then none
  else some (if n < 0 then 45 :: digits else digits)

def dumpsFloat (allowNan : Bool) : PyFloat → Option PyStr
  | .nan => if allowNan then some (Py.str "NaN") else none
  | .posInf => if allowNan then some (Py.str "Infinity") else none
  | .negInf => if allowNan then some (Py.str "-Infinity") else none
  | x => some x.repr

/-- The parts with commas between them. -/
def joinComma : List PyStr → PyStr
  | [] => []
  | [a] => a
  | a :: b :: rest => a ++ 44 :: joinComma (b :: rest)

theorem insertionSort_eq_of_perm {α : Type} {le : α → α → Prop} [DecidableRel le] [Std.Total le]
    [IsTrans α le] {a b : List α} (h : a.Perm b) (hle : ∀ x ∈ b, ∀ y ∈ b, le x y → le y x → x = y) :
    a.insertionSort le = b.insertionSort le := by
  have ha := (a.perm_insertionSort le).trans h
  have hb := b.perm_insertionSort le
  exact (ha.trans hb.symm).eq_of_pairwise
    (fun x y hx hy => hle x (ha.mem_iff.mp hx) y (hb.mem_iff.mp hy))
    (a.pairwise_insertionSort le) (b.pairwise_insertionSort le)

/-- The rendered members of a dictionary, in the order they are written. -/
def orderMembers (sortKeys : Bool) (m : List (PyStr × PyStr)) : List (PyStr × PyStr) :=
  if sortKeys then m.insertionSort fun a b => strLe a.1 b.1 = true else m

def member (p : PyStr × PyStr) : PyStr :=
  quote ensureAscii p.1 ++ 58 :: p.2

mutual

/-- `json.dumps(value, separators=(",", ":"), ...)`. -/
def dumps (o : DumpOptions) : Json → Option PyStr
  | null => some (Py.str "null")
  | bool true => some (Py.str "true")
  | bool false => some (Py.str "false")
  | int n => dumpsInt n
  | float x => dumpsFloat o.allowNan x
  | str s => some (quote o.ensureAscii s)
  | arr l => (dumpsItems o l).map fun parts => 91 :: (joinComma parts ++ [93])
  | obj m => (dumpsMembers o m).map fun parts =>
    123 :: (joinComma ((orderMembers o.sortKeys parts).map (member o.ensureAscii)) ++ [125])

/-- The rendered items of a list. -/
def dumpsItems (o : DumpOptions) : List Json → Option (List PyStr)
  | [] => some []
  | x :: l => (dumps o x).bind fun a => (dumpsItems o l).map fun rest => a :: rest

/-- The rendered values of a dictionary with their keys, in insertion order. -/
def dumpsMembers (o : DumpOptions) : List (PyStr × Json) → Option (List (PyStr × PyStr))
  | [] => some []
  | (k, x) :: m =>
    (dumps o x).bind fun a => (dumpsMembers o m).map fun rest => (k, a) :: rest

end

end Json

end Py
