import Tracebed.Lib.JsonLoads

/-!
# Reading Back What Was Written

`loads` reads the text `dumps` writes. A value comes back with the keys of its dictionaries
in the order they were written: sorted, when the writer sorts (`loads_dumps`). The scanner is
followed from inside out. `Reads s v` says that the text `s` of `v` is read as `v` in front of
anything that can follow a value; strings and numbers establish it, lists and objects pass it on.
Floats are the one kind of value whose text is not analysed here: a value is `Readable` when the
scanner reads its floats back.
-/

open List Option Prod

namespace Py

variable (sortKeys : Bool) (m : List (PyStr × Json))

namespace Json

/-! ### Strings -/

/-- The characters a string may hold if it is to be read back. Without `ensure_ascii` every
string is; with it, surrogates would be joined. -/
def Plain (ensureAscii : Bool) (s : PyStr) : Prop := ensureAscii = true → ∀ c ∈ s, c < 0xD800

variable {ea : Bool} {c : ℕ} {s rest : PyStr} {n : ℤ} {o : LoadOptions}

theorem Plain.tail (h : Plain ea (c :: s)) : Plain ea s :=
  fun hea d hd => h hea d (mem_cons_of_mem _ hd)

/-- A text that does not start with a broken `\u` escape. -/
def SoundEscape (s : PyStr) : Prop :=
  ∀ a b d f r, s = 92 :: 117 :: a :: b :: d :: f :: r → (ofHex [a, b, d, f]).isSome = true

theorem hexDigits_four (c : ℕ) : ∃ a b d f, hexDigits 4 c = [a, b, d, f] := by
  match h : hexDigits 4 c, hexDigits_length 4 c with
  | [a, b, d, f], _ => exact ⟨a, b, d, f, rfl⟩

/-- The closing quote. -/
@[simp] theorem scanString_end (s : PyStr) : scanString (34 :: s) = some ([], s) := by
  rw [scanString.eq_def]
  simp

/-- A one-letter escape. -/
theorem scanString_letter {e v : ℕ} (h : unescape e = some v) (hu : e ≠ 117) (s : PyStr) :
    scanString (92 :: e :: s) = (scanString s).map (consChar v) := by
  rw [scanString.eq_def]
  simp [hu, h]

theorem scanString_unicodeEscape (hc : c < 0xD800) (hs : SoundEscape s) :
    scanString (unicodeEscape c ++ s) = (scanString s).map (consChar c) := by
  obtain ⟨a, b, d, f, hdigits⟩ := hexDigits_four c
  have hread : ofHex [a, b, d, f] = some c := by
    rw [← hdigits]
    exact ofHex_hexDigits (by omega)
  rw [unicodeEscape, hdigits]
  simp only [cons_append, nil_append]
  rw [scanString.eq_def]
  simp only [show (92 : ℕ) = 34 ↔ False by decide, if_false, if_true, hread]
  split
  · next a' b' d' f' r =>
    obtain ⟨v, hv⟩ := isSome_iff_exists.mp (hs a' b' d' f' r rfl)
    rw [hv]
    have hno : ¬(0xD800 ≤ c ∧ c ≤ 0xDBFF ∧ 0xDC00 ≤ v ∧ v ≤ 0xDFFF) := by omega
    simp only [hno, if_false]
  · rfl

theorem soundEscape_escape (ea : Bool) (c : ℕ) (hc : ea = true → c < 0xD800) (s : PyStr) :
    SoundEscape (escape ea c ++ s) := by
  intro a b d f r heq
  have hspell := spelling_escape ea c
  generalize escape ea c = spelling at hspell heq
  cases hspell with
  | letter _ he =>
    simp only [cons_append, cons.injEq] at heq
    omega
  | unicode _ hsmall =>
    obtain ⟨a', b', d', f', hdigits⟩ := hexDigits_four c
    rw [unicodeEscape, hdigits] at heq
    obtain ⟨rfl, rfl, rfl, rfl, -⟩ := heq
    rw [← hdigits, ofHex_hexDigits (by omega)]
    rfl
  | pair hbig hea =>
    have := hc hea
    omega
  | self _ _ h92 _ =>
    simp only [cons_append, cons.injEq] at heq
    exact absurd heq.1 h92

/-- **A string literal reads back**, whatever follows it. -/
theorem scanString_quote (h : Plain ea s) (rest : PyStr) :
    scanString (s.flatMap (escape ea) ++ 34 :: rest) = some (s, rest) := by
  induction s with
  | nil => exact scanString_end rest
  | cons c s ih =>
    have ih := ih h.tail
    have hsound : SoundEscape (s.flatMap (escape ea) ++ 34 :: rest) := by
      cases s with
      | nil =>
        intro a b d f r heq
        simp at heq
      | cons e s =>
        rw [flatMap_cons, append_assoc]
        exact soundEscape_escape ea e (fun hea => h hea e (mem_cons_of_mem _ mem_cons_self)) _
    have hc : ea = true → c < 0xD800 := fun hea => h hea c mem_cons_self
    rw [flatMap_cons, append_assoc]
    generalize s.flatMap (escape ea) ++ 34 :: rest = text at ih hsound
    have hcons : (scanString text).map (consChar c) = some (c :: s, rest) := by
      rw [ih]
      rfl
    have hspell := spelling_escape ea c
    generalize escape ea c = spelling at hspell
    cases hspell with
    | letter hv he => exact (scanString_letter hv he.2.2 text).trans hcons
    | unicode _ hsmall =>
      have hlt : c < 0xD800 := by
        rcases hsmall with h | h
        · omega
        · exact hc h
      rw [scanString_unicodeEscape hlt hsound, hcons]
    | pair hbig hea =>
      have := hc hea
      omega
    | self h32 h34 h92 _ =>
      rw [singleton_append, scanString.eq_def]
      simp only [h34, h92, show ¬c < 32 by omega, if_false, hcons]

/-! ### Reading a text in front of others -/

/-- What can follow a value: nothing, a comma or a closing bracket. -/
def Stops (rest : PyStr) : Prop := ∀ c ∈ rest.head?, c = 44 ∨ c = 93 ∨ c = 125

def StartsValue (s : PyStr) : Prop :=
  ∃ c t, s = c :: t ∧ isWs c = false ∧ c ≠ 93 ∧ c ≠ 125 ∧ c < 0x80

/-- **Reads**: the text is the value, in front of anything that can follow it. -/
structure Reads (o : LoadOptions) (s : PyStr) (v : Json) : Prop where
  starts : StartsValue s
  scan : ∀ fuel rest, 2 * s.length ≤ fuel → Stops rest →
    scanOnce o fuel (s ++ rest) = some (v, rest)

theorem StartsValue.skipWs (h : StartsValue s) (rest : PyStr) : skipWs (s ++ rest) = s ++ rest := by
  obtain ⟨c, t, rfl, hws, -⟩ := h
  rw [Json.skipWs, cons_append, dropWhile_cons_of_neg (by simp [hws])]

variable {v : Json}

theorem StartsValue.reads (hs : StartsValue s)
    (h : ∀ fuel rest, 2 * s.length ≤ fuel + 1 → Stops rest →
      scanOnce o (fuel + 1) (s ++ rest) = some (v, rest)) : Reads o s v := by
  refine ⟨hs, fun fuel rest hfuel hstops => ?_⟩
  obtain ⟨c, t, rfl, -⟩ := hs
  rw [length_cons] at hfuel
  obtain ⟨fuel, rfl⟩ : ∃ k, fuel = k + 1 := ⟨fuel - 1, by omega⟩
  exact h fuel rest hfuel hstops

/-- Punctuation is no whitespace. -/
theorem skipWs_cons (h : isWs c = false) (s : PyStr) : skipWs (c :: s) = c :: s := by
  rw [skipWs, dropWhile_cons_of_neg (by simp [h])]

theorem stops_comma (s : PyStr) : Stops (44 :: s) := fun c hc => by
  cases hc
  exact .inl rfl

theorem stops_bracket (s : PyStr) : Stops (93 :: s) := fun c hc => by
  cases hc
  exact .inr (.inl rfl)

theorem stops_brace (s : PyStr) : Stops (125 :: s) := fun c hc => by
  cases hc
  exact .inr (.inr rfl)

/-- A literal in front of anything is past. -/
theorem expect_append (p rest : PyStr) : expect p (p ++ rest) = some rest := by
  induction p with
  | nil => rfl
  | cons c p ih => rw [cons_append, expect, if_pos rfl, ih]

/-! ### Scalars -/

theorem reads_null (o : LoadOptions) : Reads o (Py.str "null") .null := by
  refine StartsValue.reads ⟨110, Py.str "ull", rfl, by decide⟩ fun fuel rest _ _ => ?_
  change scanOnce o (fuel + 1) (110 :: (Py.str "ull" ++ rest)) = _
  rw [scanOnce]
  simp [expect_append]

theorem reads_bool (o : LoadOptions) (b : Bool) :
    Reads o (if b then Py.str "true" else Py.str "false") (.bool b) := by
  cases b with
  | true =>
    refine StartsValue.reads ⟨116, Py.str "rue", rfl, by decide⟩ fun fuel rest _ _ => ?_
    change scanOnce o (fuel + 1) (116 :: (Py.str "rue" ++ rest)) = _
    rw [scanOnce]
    simp [expect_append]
  | false =>
    refine StartsValue.reads ⟨102, Py.str "alse", rfl, by decide⟩ fun fuel rest _ _ => ?_
    change scanOnce o (fuel + 1) (102 :: (Py.str "alse" ++ rest)) = _
    rw [scanOnce]
    simp [expect_append]

theorem reads_str (o : LoadOptions) (h : Plain ea s) : Reads o (quote ea s) (.str s) := by
  refine StartsValue.reads ⟨34, _, rfl, by decide⟩ fun fuel rest _ _ => ?_
  rw [quote, cons_append, append_assoc, singleton_append, scanOnce, scanString_quote h]
  rfl

theorem Stops.not_digit (h : Stops rest) : rest.head?.all (isDigit · = false) := by
  cases rest with
  | nil => rfl
  | cons c rest =>
    have : c = 44 ∨ c = 93 ∨ c = 125 := h c rfl
    rcases this with rfl | rfl | rfl <;> rfl

theorem span_digits {ds : PyStr} (hds : ∀ c ∈ ds, isDigit c = true) (h : Stops rest) :
    (ds ++ rest).takeWhile isDigit = ds ∧ (ds ++ rest).dropWhile isDigit = rest := by
  have hrest : rest.takeWhile isDigit = [] ∧ rest.dropWhile isDigit = rest := by
    cases rest with
    | nil => exact ⟨rfl, rfl⟩
    | cons c rest =>
      have hc : isDigit c = false := by simpa using h.not_digit
      exact ⟨takeWhile_cons_of_neg (by simp [hc]), dropWhile_cons_of_neg (by simp [hc])⟩
  constructor
  · rw [takeWhile_append_of_pos hds, hrest.1, append_nil]
  · rw [dropWhile_append_of_pos hds, hrest.2]

theorem Stops.no_fraction (h : Stops rest) :
    scanFraction rest = none ∧ scanExponent rest = none := by
  cases rest with
  | nil => exact ⟨rfl, rfl⟩
  | cons c rest =>
    have : c = 44 ∨ c = 93 ∨ c = 125 := h c rfl
    rcases this with rfl | rfl | rfl <;> exact ⟨rfl, rfl⟩

theorem scanIntDigits_decimal (n : ℕ) (h : Stops rest) :
    scanIntDigits (decimal n ++ rest) = some (decimal n, rest) := by
  by_cases hn : n = 0
  · subst hn
    rfl
  · obtain ⟨hne, hdigits⟩ := decimal_digits n
    have hhead := decimal_head_ne_zero hn
    cases hd : decimal n with
    | nil => exact absurd hd hne
    | cons c ds =>
      rw [hd] at hdigits hhead
      have hc : c ≠ 48 := by simpa using hhead
      obtain ⟨htake, hdrop⟩ := span_digits (forall_mem_cons.mp hdigits).2 h
      rw [cons_append, scanIntDigits, if_neg hc, if_pos (hdigits c mem_cons_self), htake, hdrop]

theorem scanNumber_decimal (hlen : (decimal n.natAbs).length ≤ maxStrDigits) (h : Stops rest) :
    scanNumber ((if n < 0 then 45 :: decimal n.natAbs else decimal n.natAbs) ++ rest) =
      some (.int n, rest) := by
  obtain ⟨hfrac, hexp⟩ := h.no_fraction
  have hread : ∀ neg : Bool, readInt neg (decimal n.natAbs) =
      some (.int (if neg then -(n.natAbs : ℤ) else n.natAbs)) := by
    intro neg
    rw [readInt, if_neg (by omega), ofDecimal_decimal]
  have hhead : (decimal n.natAbs ++ rest).head? ≠ some 45 := by
    obtain ⟨hne, hdigits⟩ := decimal_digits n.natAbs
    cases hd : decimal n.natAbs with
    | nil => exact absurd hd hne
    | cons c ds =>
      have hc := hdigits c (hd ▸ mem_cons_self)
      intro heq
      obtain rfl : c = 45 := by simpa using heq
      cases hc
  by_cases hneg : n < 0
  · rw [if_pos hneg, cons_append, scanNumber]
    simp only [head?_cons, tail_cons, decide_true, if_true,
      scanIntDigits_decimal _ h, hfrac, hexp, hread, map_some]
    congr 3
    omega
  · rw [if_neg hneg, scanNumber]
    simp only [hhead, decide_false, Bool.false_eq_true, if_false, scanIntDigits_decimal _ h,
      hfrac, hexp, hread, map_some]
    congr 3
    omega

theorem dumpsInt_starts (h : dumpsInt n = some s) :
    ∃ c t, s = c :: t ∧ (isDigit c = true ∨ c = 45 ∧ ∃ d t', t = d :: t' ∧ isDigit d = true) := by
  obtain ⟨hne, hdigits⟩ := decimal_digits n.natAbs
  rw [dumpsInt] at h
  split_ifs at h with hlen hneg
  all_goals cases h
  all_goals
    cases hd : decimal n.natAbs with
    | nil => exact absurd hd hne
    | cons c ds =>
      have hc := hdigits c (hd ▸ mem_cons_self)
      first
        | exact ⟨45, _, rfl, .inr ⟨rfl, c, ds, rfl, hc⟩⟩
        | exact ⟨c, ds, rfl, .inl hc⟩

theorem range_of_starts {p : Prop} (h : isDigit c = true ∨ c = 45 ∧ p) : 45 ≤ c ∧ c ≤ 57 := by
  rcases h with hc | ⟨rfl, -⟩
  · simp only [isDigit, Bool.and_eq_true, decide_eq_true_eq] at hc
    omega
  · omega

theorem scanOnce_number (o : LoadOptions) (fuel : ℕ)
    (h : isDigit c = true ∨ c = 45 ∧ ∃ d t, s = d :: t ∧ isDigit d = true) :
    scanOnce o (fuel + 1) (c :: s) = scanNumber (c :: s) := by
  have hexpect : expect (Py.str "-Infinity") (c :: s) = none := by
    rcases h with hc | ⟨rfl, d, t, rfl, hd⟩
    · have : ¬(45 = c) := by
        rintro rfl
        cases hc
      rw [show Py.str "-Infinity" = 45 :: Py.str "Infinity" from rfl, expect, if_neg this]
    · have : ¬(73 = d) := by
        rintro rfl
        cases hd
      rw [show Py.str "-Infinity" = 45 :: 73 :: Py.str "nfinity" from rfl, expect, if_pos rfl,
        expect, if_neg this]
  have hrange := range_of_starts h
  rw [scanOnce, if_neg (by omega), if_neg (by omega), if_neg (by omega), if_neg (by omega),
    if_neg (by omega), if_neg (by omega), if_neg (by omega), if_neg (by omega), hexpect]

theorem reads_int (o : LoadOptions) (h : dumpsInt n = some s) : Reads o s (.int n) := by
  obtain ⟨c, t, rfl, hstart⟩ := dumpsInt_starts h
  have hrange := range_of_starts hstart
  refine StartsValue.reads ⟨c, t, rfl, ?_, by omega, by omega, by omega⟩ ?_
  · simp only [isWs, Bool.or_eq_false_iff, decide_eq_false_iff_not]
    omega
  · intro fuel rest _ hstops
    have hstart' : isDigit c = true ∨ c = 45 ∧ ∃ d t', t ++ rest = d :: t' ∧ isDigit d = true := by
      rcases hstart with hc | ⟨hc, d, t', rfl, hd⟩
      · exact .inl hc
      · exact .inr ⟨hc, d, t' ++ rest, rfl, hd⟩
    rw [cons_append, scanOnce_number o fuel hstart', ← cons_append]
    rw [dumpsInt] at h
    split_ifs at h with hlen hneg
    · rw [← Option.some.inj h]
      simpa [hneg] using scanNumber_decimal (n := n) (by omega) hstops
    · rw [← Option.some.inj h]
      simpa [hneg] using scanNumber_decimal (n := n) (by omega) hstops

/-! ### Lists and objects -/

variable {vs : List Json}

theorem scanItems_joinComma {parts : List PyStr} (h : List.Forall₂ (Reads o) parts vs)
    (hne : parts ≠ []) (fuel : ℕ) (rest : PyStr) (hfuel : 2 * (joinComma parts).length + 1 ≤ fuel) :
    scanItems o fuel (joinComma parts ++ 93 :: rest) = some (vs, rest) := by
  induction h generalizing fuel with
  | nil => exact absurd rfl hne
  | @cons a v parts vs ha hrest ih =>
    obtain ⟨fuel, rfl⟩ : ∃ k, fuel = k + 1 := ⟨fuel - 1, by omega⟩
    cases hrest with
    | nil =>
      rw [joinComma] at hfuel ⊢
      rw [scanItems, ha.scan fuel _ (by omega) (stops_bracket rest)]
      simp only [skipWs_cons (show isWs 93 = false from rfl), if_true]
    | @cons b w parts vs hb hrest =>
      rw [joinComma, length_append, length_cons] at hfuel
      have htail := ih (by simp) fuel (by omega)
      rw [joinComma, append_assoc, cons_append, scanItems,
        ha.scan fuel _ (by omega) (stops_comma _)]
      have hws : skipWs (joinComma (b :: parts) ++ 93 :: rest) =
          joinComma (b :: parts) ++ 93 :: rest := by
        cases parts with
        | nil => exact hb.starts.skipWs _
        | cons c parts =>
          rw [joinComma, append_assoc]
          exact hb.starts.skipWs _
      simp only [skipWs_cons (show isWs 44 = false from rfl), hws, htail, map_some,
        show ((44 : ℕ) = 93) = False by decide, if_false, if_true]

/-- A key and the text of a value, for a key and the value. -/
def ReadsMember (o : LoadOptions) (ea : Bool) (p : PyStr × PyStr) (m : PyStr × Json) : Prop :=
  p.1 = m.1 ∧ Plain ea p.1 ∧ Reads o p.2 m.2

theorem scanMembers_member {p : PyStr × PyStr} {m : PyStr × Json} (h : ReadsMember o ea p m)
    (fuel : ℕ) (rest : PyStr) (hfuel : 2 * (member ea p).length ≤ fuel) (hstops : Stops rest) :
    scanMembers o (fuel + 1) (member ea p ++ rest) =
      match skipWs rest with
      | [] => none
      | c :: s =>
        if c = 125 then some ([m], s)
        else if c = 44 then
          (scanMembers o fuel (skipWs s)).map fun r => (m :: r.1, r.2)
        else none := by
  obtain ⟨hkey, hplain, hreads⟩ := h
  obtain ⟨k, text⟩ := p
  obtain ⟨k', v⟩ := m
  obtain rfl : k = k' := hkey
  have hlen : 2 * text.length ≤ fuel := by
    simp only [member, length_append, length_cons] at hfuel
    omega
  have hscan := hreads.scan fuel rest hlen hstops
  have hws := hreads.starts.skipWs rest
  rw [member, quote]
  simp only [cons_append, append_assoc, nil_append]
  rw [scanMembers, scanString_quote hplain]
  cases hrest : skipWs rest <;>
    simp [skipWs_cons (show isWs 58 = false from rfl), expect, hws, hscan, hrest]

theorem scanMembers_joinComma {parts : List (PyStr × PyStr)} {ms : List (PyStr × Json)}
    (h : List.Forall₂ (ReadsMember o ea) parts ms) (hne : parts ≠ []) (fuel : ℕ) (rest : PyStr)
    (hfuel : 2 * (joinComma (parts.map (member ea))).length + 1 ≤ fuel) :
    scanMembers o fuel (joinComma (parts.map (member ea)) ++ 125 :: rest) = some (ms, rest) := by
  induction h generalizing fuel with
  | nil => exact absurd rfl hne
  | @cons p m parts ms hp hrest ih =>
    obtain ⟨fuel, rfl⟩ : ∃ k, fuel = k + 1 := ⟨fuel - 1, by omega⟩
    cases hrest with
    | nil =>
      simp only [map_cons, map_nil, joinComma] at hfuel ⊢
      rw [scanMembers_member hp fuel _ (by omega) (stops_brace rest),
        skipWs_cons (show isWs 125 = false from rfl)]
      simp only [if_true]
    | @cons q n parts ms hq hrest =>
      simp only [map_cons, joinComma, length_append, length_cons] at hfuel ih ⊢
      have htail := ih (by simp) fuel (by omega)
      rw [append_assoc, cons_append, scanMembers_member hp fuel _ (by omega) (stops_comma _),
        skipWs_cons (show isWs 44 = false from rfl)]
      have hws : skipWs (joinComma (member ea q :: parts.map (member ea)) ++ 125 :: rest) =
          joinComma (member ea q :: parts.map (member ea)) ++ 125 :: rest := by
        cases parts with
        | nil | cons c parts => exact skipWs_cons (show isWs 34 = false from rfl) _
      simp only [hws, htail, map_some, show ((44 : ℕ) = 125) = False by decide, if_false, if_true]

/-- Related lists stay related when both are sorted by related orders. -/
theorem forall₂_insertionSort {α β : Type} {r : α → α → Prop} {r' : β → β → Prop}
    [DecidableRel r] [DecidableRel r'] {R : α → β → Prop}
    (hr : ∀ a b a' b', R a a' → R b b' → (r a b ↔ r' a' b')) {l : List α} {l' : List β}
    (h : List.Forall₂ R l l') : List.Forall₂ R (l.insertionSort r) (l'.insertionSort r') := by
  have hinsert : ∀ a a' l l', R a a' → List.Forall₂ R l l' →
      List.Forall₂ R (l.orderedInsert r a) (l'.orderedInsert r' a') := by
    intro a a' l l' ha h
    induction h with
    | nil => exact List.Forall₂.cons ha List.Forall₂.nil
    | @cons b b' l l' hb hl ih =>
      rw [orderedInsert, orderedInsert]
      by_cases hab : r a b
      · rw [if_pos hab, if_pos ((hr a b a' b' ha hb).mp hab)]
        exact List.Forall₂.cons ha (List.Forall₂.cons hb hl)
      · rw [if_neg hab, if_neg fun h => hab ((hr a b a' b' ha hb).mpr h)]
        exact List.Forall₂.cons hb ih
  induction h with
  | nil => exact List.Forall₂.nil
  | cons ha _ ih =>
    exact hinsert _ _ _ _ ha ih

/-! ### Values -/

/-- The members of an object in the order they are written. -/
def sortMembers : List (PyStr × Json) :=
  if sortKeys then m.insertionSort fun a b => strLe a.1 b.1 = true else m

mutual

/-- The value with the keys of every dictionary in the order they are written. -/
def ordered (sortKeys : Bool) : Json → Json
  | arr l => arr (orderedItems sortKeys l)
  | obj m => obj (sortMembers sortKeys (orderedMembers sortKeys m))
  | v => v

/-- `ordered` of every item. -/
def orderedItems (sortKeys : Bool) : List Json → List Json
  | [] => []
  | x :: l => ordered sortKeys x :: orderedItems sortKeys l

/-- `ordered` of every value. -/
def orderedMembers (sortKeys : Bool) : List (PyStr × Json) → List (PyStr × Json)
  | [] => []
  | (k, x) :: m => (k, ordered sortKeys x) :: orderedMembers sortKeys m

end

mutual

/-- The value can be read back: its dictionaries have distinct keys, its strings are plain,
and the scanner reads its floats. -/
def Readable (lo : LoadOptions) (o : DumpOptions) : Json → Prop
  | float x => ∀ s, dumpsFloat o.allowNan x = some s → Reads lo s (.float x)
  | str s => Plain o.ensureAscii s
  | arr l => ReadableItems lo o l
  | obj m => (m.map fst).Nodup ∧ ReadableMembers lo o m
  | _ => True

/-- `Readable` of every item. -/
def ReadableItems (lo : LoadOptions) (o : DumpOptions) : List Json → Prop
  | [] => True
  | x :: l => Readable lo o x ∧ ReadableItems lo o l

/-- `Readable` of every value, behind a plain key. -/
def ReadableMembers (lo : LoadOptions) (o : DumpOptions) : List (PyStr × Json) → Prop
  | [] => True
  | (k, x) :: m => Plain o.ensureAscii k ∧ Readable lo o x ∧ ReadableMembers lo o m

end

theorem orderedMembers_keys : (orderedMembers sortKeys m).map fst = m.map fst := by
  induction m with
  | nil => rfl
  | cons p m ih =>
    rw [orderedMembers, map_cons, map_cons, ih]

theorem sortMembers_perm : (sortMembers sortKeys m).Perm m := by
  rw [sortMembers]
  split_ifs
  · exact perm_insertionSort _ m
  · exact List.Perm.refl m

/-- A dictionary finds the same value wherever its members stand. -/
theorem find_eq_of_perm {m n : Dict} (h : m.Perm n) (hm : (Dict.keys m).Nodup) (k : PyStr) :
    Dict.find m k = Dict.find n k := by
  have hn : (Dict.keys n).Nodup := (h.map fst).nodup_iff.mp hm
  have hsome : ∀ {a b : Dict}, a.Perm b → (Dict.keys b).Nodup → ∀ v,
      Dict.find a k = some v → Dict.find b k = some v := by
    intro a b hab hb v hv
    have hmem : (k, v) ∈ b := hab.mem_iff.mp (Dict.mem_of_find hv)
    have hget := Dict.get_of_mem hb hmem
    cases hfind : Dict.find b k with
    | some w =>
      rw [Dict.get, hfind] at hget
      exact congrArg some hget
    | none =>
      rw [Dict.find, map_eq_none_iff, find?_eq_none] at hfind
      exact absurd (beq_self_eq_true k) (hfind _ hmem)
  cases hfind : Dict.find m k with
  | some v => exact (hsome h hn v hfind).symm
  | none =>
    cases hfind' : Dict.find n k with
    | none => rfl
    | some v => exact absurd (hsome h.symm hm v hfind') (by simp [hfind])

theorem find_orderedMembers (m : Dict) (k : PyStr) :
    Dict.find (orderedMembers sortKeys m) k = (Dict.find m k).map (ordered sortKeys) := by
  induction m with
  | nil => rfl
  | cons p m ih =>
    obtain ⟨key, x⟩ := p
    rw [orderedMembers, Dict.find, Dict.find, find?_cons, find?_cons]
    cases hkey : key == k with
    | true => rfl
    | false => exact ih

theorem find_ordered {m : Dict} (h : (Dict.keys m).Nodup) (sortKeys : Bool) (k : PyStr) :
    Dict.find (sortMembers sortKeys (orderedMembers sortKeys m)) k =
      (Dict.find m k).map (ordered sortKeys) := by
  rw [find_eq_of_perm (sortMembers_perm sortKeys _) ?_ k, find_orderedMembers]
  refine ((sortMembers_perm sortKeys _).map fst).nodup_iff.mpr ?_
  rw [orderedMembers_keys]
  exact h

variable {ms : List (PyStr × Json)}

/-- Setting distinct keys one after the other lists them. -/
theorem foldl_set_of_nodup {m : List (PyStr × Json)} (h : ((m ++ ms).map fst).Nodup) :
    ms.foldl (fun m p => Dict.set m p.1 p.2) m = m ++ ms := by
  have hset : ∀ (m : List (PyStr × Json)) (k : PyStr) (v : Json), k ∉ m.map fst →
      Dict.set m k v = m ++ [(k, v)] := by
    intro m k v hk
    induction m with
    | nil => rfl
    | cons p m ih =>
      rw [map_cons, mem_cons, not_or] at hk
      rw [Dict.set, if_neg (Ne.symm hk.1), ih hk.2, cons_append]
  induction ms generalizing m with
  | nil => rw [foldl_nil, append_nil]
  | cons p ms ih =>
    have hk : p.1 ∉ m.map fst := by
      rw [map_append] at h
      intro hmem
      exact (nodup_append.mp h).2.2 _ hmem _ mem_cons_self rfl
    rw [foldl_cons, hset m p.1 p.2 hk, ih (by simpa using h), append_assoc, singleton_append]

/-- The dictionary of members with distinct keys, whatever the hook. -/
theorem buildObject_of_nodup (o : LoadOptions) (h : (ms.map fst).Nodup) :
    buildObject o ms = some (.obj ms) := by
  rw [buildObject]
  split_ifs with hrefuse
  · rfl
  · rw [foldl_set_of_nodup (m := []) (by simpa using h), nil_append]

theorem reads_arr {o : LoadOptions} {parts : List PyStr} (h : List.Forall₂ (Reads o) parts vs) :
    Reads o (91 :: (joinComma parts ++ [93])) (.arr vs) := by
  refine StartsValue.reads ⟨91, _, rfl, by decide⟩ fun fuel rest hfuel _ => ?_
  simp only [length_cons, length_append] at hfuel
  rw [cons_append, append_assoc, singleton_append, scanOnce]
  cases h with
  | nil => rfl
  | @cons a v parts vs ha hrest =>
    have hscan := scanItems_joinComma (List.Forall₂.cons ha hrest) (by simp) fuel rest (by omega)
    obtain ⟨t, ht, hstart⟩ : ∃ t, joinComma (a :: parts) ++ 93 :: rest = a ++ t ∧
        (a ++ t).head? ≠ some 93 := by
      obtain ⟨c, a', rfl, -, hc, -⟩ := ha.starts
      cases parts with
      | nil => exact ⟨93 :: rest, rfl, by simpa using hc⟩
      | cons b parts =>
        exact ⟨44 :: joinComma (b :: parts) ++ 93 :: rest, by simp [joinComma], by simpa using hc⟩
    rw [ht, ha.starts.skipWs, if_neg hstart, ← ht, hscan]
    rfl

theorem reads_obj {o : LoadOptions} {ea : Bool} {parts : List (PyStr × PyStr)}
    (h : List.Forall₂ (ReadsMember o ea) parts ms) (hkeys : (ms.map fst).Nodup) :
    Reads o (123 :: (joinComma (parts.map (member ea)) ++ [125])) (.obj ms) := by
  refine StartsValue.reads ⟨123, _, rfl, by decide⟩ fun fuel rest hfuel _ => ?_
  simp only [length_cons, length_append] at hfuel
  rw [cons_append, append_assoc, singleton_append, scanOnce]
  cases h with
  | nil =>
    have hnil : buildObject o [] = some (.obj []) := buildObject_of_nodup o (by simp)
    rw [hnil]
    rfl
  | @cons p m parts ms hp hrest =>
    have hscan := scanMembers_joinComma (List.Forall₂.cons hp hrest) (by simp) fuel rest (by omega)
    obtain ⟨t, ht⟩ : ∃ t, joinComma ((p :: parts).map (member ea)) ++ 125 :: rest = 34 :: t := by
      cases parts with
      | nil | cons q parts => exact ⟨_, rfl⟩
    rw [ht] at hscan ⊢
    rw [skipWs_cons (show isWs 34 = false from rfl), hscan]
    dsimp only
    rw [buildObject_of_nodup o hkeys]
    rfl

mutual

variable {lo : LoadOptions} {o : DumpOptions}

/-- **The text of a readable value reads as the value**, with its keys in order. -/
theorem reads_dumps (v : Json) {s : PyStr} (hv : Readable lo o v) (hs : dumps o v = some s) :
    Reads lo s (ordered o.sortKeys v) := by
  match v with
  | .null =>
    cases hs
    exact reads_null lo
  | .bool b =>
    cases b with
    | true =>
      cases hs
      exact reads_bool lo true
    | false =>
      cases hs
      exact reads_bool lo false
  | .int n => exact reads_int lo hs
  | .float x => exact hv s hs
  | .str t =>
    cases hs
    exact reads_str lo hv
  | .arr l =>
    obtain ⟨parts, hparts, rfl⟩ := map_eq_some_iff.mp hs
    exact reads_arr (reads_dumpsItems l hv hparts)
  | .obj m =>
    obtain ⟨parts, hparts, rfl⟩ := map_eq_some_iff.mp hs
    have hmembers := reads_dumpsMembers m hv.2 hparts
    refine reads_obj ?_ ?_
    · rw [orderMembers, sortMembers]
      split_ifs with hsort
      · refine forall₂_insertionSort ?_ hmembers
        rintro a b a' b' ⟨ha, -⟩ ⟨hb, -⟩
        rw [ha, hb]
      · exact hmembers
    · refine ((sortMembers_perm o.sortKeys _).map fst).nodup_iff.mpr ?_
      rw [orderedMembers_keys]
      exact hv.1

theorem reads_dumpsItems (l : List Json) {parts : List PyStr} (hl : ReadableItems lo o l)
    (hs : dumpsItems o l = some parts) :
    List.Forall₂ (Reads lo) parts (orderedItems o.sortKeys l) := by
  match l with
  | [] =>
    cases hs
    exact List.Forall₂.nil
  | x :: l =>
    obtain ⟨a, ha, hs⟩ := bind_eq_some_iff.mp hs
    obtain ⟨rest, hrest, rfl⟩ := map_eq_some_iff.mp hs
    exact List.Forall₂.cons (reads_dumps x hl.1 ha) (reads_dumpsItems l hl.2 hrest)

theorem reads_dumpsMembers (m : List (PyStr × Json)) {parts : List (PyStr × PyStr)}
    (hm : ReadableMembers lo o m) (hs : dumpsMembers o m = some parts) :
    List.Forall₂ (ReadsMember lo o.ensureAscii) parts (orderedMembers o.sortKeys m) := by
  match m with
  | [] =>
    cases hs
    exact List.Forall₂.nil
  | (k, x) :: m =>
    obtain ⟨a, ha, hs⟩ := bind_eq_some_iff.mp hs
    obtain ⟨rest, hrest, rfl⟩ := map_eq_some_iff.mp hs
    exact List.Forall₂.cons ⟨rfl, hm.1, reads_dumps x hm.2.1 ha⟩ (reads_dumpsMembers m hm.2.2 hrest)

end

theorem Reads.loads {o : LoadOptions} {s : PyStr} (h : Reads o s v) : loads o s = some v := by
  have hscan := h.scan (2 * s.length + 2) [] (by omega) nofun
  have hws := h.starts.skipWs []
  rw [append_nil] at hscan hws
  obtain ⟨c, t, rfl, -, -, -, hc⟩ := h.starts
  rw [Json.loads, if_neg (by simp only [head?_cons, Option.some.injEq]; omega), hws, hscan]
  rfl

/-- **`json.loads(json.dumps(v))`** gives the value back with its keys in order. -/
theorem loads_dumps {lo : LoadOptions} {o : DumpOptions} {s : PyStr} (hv : Readable lo o v)
    (hs : dumps o v = some s) : loads lo s = some (ordered o.sortKeys v) :=
  (reads_dumps v hv hs).loads

/-! ### Values in their own canonical form -/

/-- A value that `json.loads(json.dumps(v))` gives back as it is, keys in order included. -/
structure Stable (lo : LoadOptions) (o : DumpOptions) (v : Json) : Prop where
  readable : Readable lo o v
  inOrder : ordered o.sortKeys v = v
  dumpable : ∃ s, dumps o v = some s

section Stable

variable {lo : LoadOptions} {o : DumpOptions}

theorem stable_str {s : PyStr} (h : Plain o.ensureAscii s) : Stable lo o (.str s) :=
  ⟨h, rfl, _, rfl⟩

/-- Integers within the digit limit. -/
theorem stable_int {n : ℤ} (h : n.natAbs < 10 ^ 20) : Stable lo o (.int n) := by
  refine ⟨trivial, rfl, ?_⟩
  have hlen := decimal_length_le (by omega) h
  rw [dumps, dumpsInt, if_neg (by rw [maxStrDigits]; omega)]
  exact ⟨_, rfl⟩

theorem stable_arr {l : List Json} (h : ∀ x ∈ l, Stable lo o x) : Stable lo o (.arr l) := by
  suffices hitems : ReadableItems lo o l ∧ orderedItems o.sortKeys l = l ∧
      ∃ parts, dumpsItems o l = some parts by
    obtain ⟨hread, hord, parts, hparts⟩ := hitems
    exact ⟨hread, by rw [ordered, hord], _, by rw [dumps, hparts]; rfl⟩
  induction l with
  | nil => exact ⟨trivial, rfl, _, rfl⟩
  | cons x l ih =>
    obtain ⟨hread, hord, s, hs⟩ := h x mem_cons_self
    obtain ⟨hreads, hords, parts, hparts⟩ := ih (forall_mem_cons.mp h).2
    refine ⟨⟨hread, hreads⟩, by rw [orderedItems, hord, hords], s :: parts, ?_⟩
    rw [dumpsItems, hs, hparts]
    rfl

/-- A dictionary whose keys are in strictly increasing order. -/
theorem stable_obj {m : List (PyStr × Json)}
    (hkeys : (m.map fst).Pairwise fun a b => strLe a b = true ∧ a ≠ b)
    (hplain : ∀ k ∈ m.map fst, Plain o.ensureAscii k)
    (h : ∀ p ∈ m, Stable lo o p.2) : Stable lo o (.obj m) := by
  have hmembers : ReadableMembers lo o m ∧ orderedMembers o.sortKeys m = m ∧
      ∃ parts, dumpsMembers o m = some parts := by
    clear hkeys
    induction m with
    | nil => exact ⟨trivial, rfl, _, rfl⟩
    | cons p m ih =>
      obtain ⟨k, x⟩ := p
      obtain ⟨hread, hord, s, hs⟩ := h (k, x) mem_cons_self
      obtain ⟨hreads, hords, parts, hparts⟩ :=
        ih (forall_mem_cons.mp hplain).2
          fun q hq => h q (mem_cons_of_mem _ hq)
      refine ⟨⟨hplain k mem_cons_self, hread, hreads⟩, by rw [orderedMembers, hord, hords],
        (k, s) :: parts, ?_⟩
      rw [dumpsMembers, hs, hparts]
      rfl
  obtain ⟨hread, hord, parts, hparts⟩ := hmembers
  refine ⟨⟨hkeys.imp fun hab => hab.2, hread⟩, ?_, _, by rw [dumps, hparts]; rfl⟩
  rw [ordered, hord, sortMembers]
  split_ifs
  · rw [List.Pairwise.insertionSort_eq ((pairwise_map.mp hkeys).imp fun hab => hab.1)]
  · rfl

theorem Stable.loads_dumps (h : Stable lo o v) : ∃ s, dumps o v = some s ∧ loads lo s = some v := by
  obtain ⟨s, hs⟩ := h.dumpable
  exact ⟨s, hs, (Json.loads_dumps h.readable hs).trans (congrArg some h.inOrder)⟩

end Stable

end Json

end Py
