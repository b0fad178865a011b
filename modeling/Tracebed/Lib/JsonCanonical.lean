import Tracebed.Lib.JsonLoads

/-!
# Canonical JSON Texts

When two values have the same compact text. With sorted keys the text of a dictionary does not
depend on the order of its members, so values that compare equal have equal texts, as long as no
number is spelled by two types: `2`, `2.0` and `True` are one number and three texts
(`dumps_eq_of_pyEq`). A compact text holds no control character, and with `ensure_ascii` it is
ASCII (`printable_dumps`).
-/

open List Option Bool Prod

namespace Py

/-! ### Characters of numbers -/

variable {s : PyStr}

/-- Digits stay when trailing zeros go. -/
theorem PyFloat.mem_stripZeros {c : ℕ} (h : c ∈ stripZeros s) : c ∈ s ∨ c = 48 := by
  rw [stripZeros] at h
  split at h
  · exact .inr (mem_singleton.mp h)
  · exact .inl (mem_reverse.mp ((dropWhile_sublist _).subset (mem_reverse.mp h)))

/-- Characters between the sign and the letters. -/
def Graphic (s : PyStr) : Prop := ∀ c ∈ s, 43 ≤ c ∧ c ≤ 122

instance (s : PyStr) : Decidable (Graphic s) :=
  inferInstanceAs (Decidable (∀ c ∈ s, 43 ≤ c ∧ c ≤ 122))

theorem Graphic.append {t : PyStr} (hs : Graphic s) (ht : Graphic t) : Graphic (s ++ t) := by
  exact forall_mem_append.mpr ⟨hs, ht⟩

theorem Graphic.take (hs : Graphic s) (n : ℕ) : Graphic (s.take n) :=
  fun c hc => hs c (mem_of_mem_take hc)

theorem Graphic.drop (hs : Graphic s) (n : ℕ) : Graphic (s.drop n) :=
  fun c hc => hs c (mem_of_mem_drop hc)

theorem graphic_of_digits (h : ∀ c ∈ s, isDigit c = true) : Graphic s := by
  intro c hc
  have := h c hc
  simp only [isDigit, and_eq_true, decide_eq_true_eq] at this
  omega

/-- A formatted number is made of digits, a point, a sign and an exponent mark. -/
theorem PyFloat.graphic_formatDigits {ds : PyStr} (pt : ℤ) (hds : Graphic ds) :
    Graphic (formatDigits ds pt) := by
  have hzeros : ∀ n, Graphic (List.replicate n 48) := fun n c hc => by
    obtain ⟨-, rfl⟩ := mem_replicate.mp hc
    omega
  have hzeroPoint : Graphic (str "0.") := by decide
  have hpointZero : Graphic (str ".0") := by decide
  have hpoint : Graphic (str ".") := by decide
  have hmark : ∀ b : Prop, [Decidable b] → Graphic (str (if b then "e-" else "e+")) := by
    intro b _
    split_ifs <;> decide
  have hexp : Graphic (decimal (pt - 1).natAbs) := graphic_of_digits (decimal_digits _).2
  have hexp' : Graphic (48 :: decimal (pt - 1).natAbs) := (hzeros 1).append hexp
  rw [formatDigits]
  by_cases h1 : -4 < pt ∧ pt ≤ 16
  · split_ifs
    · exact (hzeroPoint.append (hzeros _)).append hds
    · exact (hds.append (hzeros _)).append hpointZero
    · exact ((hds.take _).append hpoint).append (hds.drop _)
  · rw [if_neg h1]
    refine Graphic.append (Graphic.append ?_ (hmark _)) ?_
    · split_ifs
      · exact hds
      · exact ((hds.take _).append hpoint).append (hds.drop _)
    · split_ifs
      · exact hexp'
      · exact hexp

/-- The characters of `repr(x)`. -/
theorem PyFloat.graphic_repr (x : PyFloat) : Graphic x.repr := by
  have hpos : ∀ q : ℚ, Graphic (reprPos q) := by
    intro q
    refine graphic_formatDigits _ (graphic_of_digits fun d hd => ?_)
    rcases mem_stripZeros hd with hd | rfl
    · exact (decimal_digits _).2 d hd
    · rfl
  have hsign : Graphic (str "-") := by decide
  cases x with
  | nan | posInf | negInf | negZero => decide
  | fin q =>
    rw [PyFloat.repr]
    split_ifs
    · decide
    · exact hsign.append (hpos _)
    · exact hpos _

namespace Json

/-! ### Characters of texts -/

/-- No control characters; with `ensure_ascii`, nothing outside ASCII. -/
def Printable (ensureAscii : Bool) (s : PyStr) : Prop :=
  ∀ c ∈ s, 32 ≤ c ∧ (ensureAscii = true → c < 0x80)

variable {ea : Bool}

theorem Printable.append {t : PyStr} (hs : Printable ea s) (ht : Printable ea t) :
    Printable ea (s ++ t) := by
  exact forall_mem_append.mpr ⟨hs, ht⟩

theorem Printable.cons {c : ℕ} (hc : 32 ≤ c ∧ c < 0x80) (hs : Printable ea s) :
    Printable ea (c :: s) := by
  exact forall_mem_cons.mpr ⟨⟨hc.1, fun _ => hc.2⟩, hs⟩

theorem printable_nil (ea : Bool) : Printable ea [] := nofun

theorem printable_of_graphic (h : Graphic s) : Printable ea s := fun c hc => by
  have := h c hc
  exact ⟨by omega, fun _ => by omega⟩

/-- The spelling of a character inside a string is printable. -/
theorem printable_escape (ea : Bool) (c : ℕ) : Printable ea (escape ea c) := by
  have hunicode : ∀ u, Printable ea (unicodeEscape u) := by
    intro u
    refine Printable.cons (by omega) (Printable.cons (by omega) fun d hd => ?_)
    have := mem_hexDigits hd
    exact ⟨by omega, fun _ => by omega⟩
  have hspell := spelling_escape ea c
  generalize escape ea c = spelling at hspell
  cases hspell with
  | letter _ he =>
    exact Printable.cons (by omega) (Printable.cons (by omega) (printable_nil ea))
  | unicode _ _ => exact hunicode c
  | pair _ _ => exact (hunicode _).append (hunicode _)
  | self h32 _ _ hascii =>
    intro d hd
    obtain rfl := mem_singleton.mp hd
    exact ⟨h32, fun hea => Nat.lt_of_le_of_lt (hascii hea) (by omega)⟩

theorem printable_quote (ea : Bool) (s : PyStr) : Printable ea (quote ea s) := by
  refine Printable.cons (by omega) (Printable.append (fun c hc => ?_)
    (Printable.cons (by omega) (printable_nil ea)))
  obtain ⟨d, -, hd⟩ := mem_flatMap.mp hc
  exact printable_escape ea d c hd

theorem printable_joinComma {parts : List PyStr} (h : ∀ p ∈ parts, Printable ea p) :
    Printable ea (joinComma parts) := by
  induction parts with
  | nil => exact printable_nil ea
  | cons a parts ih =>
    have ha := h a mem_cons_self
    have htail := ih (forall_mem_cons.mp h).2
    cases parts with
    | nil => exact ha
    | cons b parts => exact ha.append (Printable.cons (by omega) htail)

theorem printable_dumpsInt {n : ℤ} (h : dumpsInt n = some s) : Printable ea s := by
  have hdigits : Printable ea (decimal n.natAbs) :=
    printable_of_graphic (graphic_of_digits (decimal_digits _).2)
  rw [dumpsInt] at h
  split_ifs at h
  · cases h
    exact Printable.cons (by omega) hdigits
  · cases h
    exact hdigits

variable {x : PyFloat}

theorem printable_dumpsFloat {allowNan : Bool} (h : dumpsFloat allowNan x = some s) :
    Printable ea s := by
  have hconst : ∀ t : PyStr, Graphic t →
      (if allowNan then some t else none) = some s → Printable ea s := by
    intro t ht hs
    split_ifs at hs
    cases hs
    exact printable_of_graphic ht
  cases x with
  | nan | posInf | negInf => exact hconst _ (by decide) h
  | negZero | fin q =>
    cases h
    exact printable_of_graphic (PyFloat.graphic_repr _)

mutual

variable {o : DumpOptions}

/-- **The compact text of a value is printable.** -/
theorem printable_dumps (v : Json) {s : PyStr} (h : dumps o v = some s) :
    Printable o.ensureAscii s := by
  match v with
  | .null =>
    cases h
    exact printable_of_graphic (by decide)
  | .bool b =>
    cases b with
    | true | false =>
      cases h
      exact printable_of_graphic (by decide)
  | .int n => exact printable_dumpsInt h
  | .float x => exact printable_dumpsFloat h
  | .str t =>
    cases h
    exact printable_quote _ t
  | .arr l =>
    obtain ⟨parts, hparts, rfl⟩ := map_eq_some_iff.mp h
    exact Printable.cons (by omega) ((printable_joinComma (printable_dumpsItems l hparts)).append
      (Printable.cons (by omega) (printable_nil _)))
  | .obj m =>
    obtain ⟨parts, hparts, rfl⟩ := map_eq_some_iff.mp h
    refine Printable.cons (by omega) ((printable_joinComma ?_).append
      (Printable.cons (by omega) (printable_nil _)))
    intro p hp
    obtain ⟨q, hq, rfl⟩ := mem_map.mp hp
    have hmem : q ∈ parts := by
      rw [orderMembers] at hq
      split_ifs at hq
      · exact (perm_insertionSort _ parts).mem_iff.mp hq
      · exact hq
    exact (printable_quote _ q.1).append
      (Printable.cons (by omega) (printable_dumpsMembers m hparts q hmem))

theorem printable_dumpsItems (l : List Json) {parts : List PyStr}
    (h : dumpsItems o l = some parts) : ∀ p ∈ parts, Printable o.ensureAscii p := by
  match l with
  | [] =>
    cases h
    simp
  | x :: l =>
    obtain ⟨a, ha, h⟩ := bind_eq_some_iff.mp h
    obtain ⟨rest, hrest, rfl⟩ := map_eq_some_iff.mp h
    exact forall_mem_cons.mpr ⟨printable_dumps x ha, printable_dumpsItems l hrest⟩

theorem printable_dumpsMembers (m : List (PyStr × Json)) {parts : List (PyStr × PyStr)}
    (h : dumpsMembers o m = some parts) : ∀ p ∈ parts, Printable o.ensureAscii p.2 := by
  match m with
  | [] =>
    cases h
    simp
  | (k, x) :: m =>
    obtain ⟨a, ha, h⟩ := bind_eq_some_iff.mp h
    obtain ⟨rest, hrest, rfl⟩ := map_eq_some_iff.mp h
    exact forall_mem_cons.mpr ⟨printable_dumps x ha, printable_dumpsMembers m hrest⟩

end

/-! ### Distinct keys -/

variable {r : Json × PyStr} {o : LoadOptions}

theorem wf_readNumber (h : scanNumber s = some r) : wf r.1 = true := by
  simp only [scanNumber] at h
  split at h
  · cases h
  · split at h
    · split at h <;> obtain rfl := some.inj h <;> rfl
    · cases h
      rfl
    · obtain ⟨v, hv, rfl⟩ := map_eq_some_iff.mp h
      rw [readInt] at hv
      split_ifs at hv <;> obtain rfl := some.inj hv <;> rfl

theorem wf_buildObject (ho : o.refuseDuplicates = true) {pairs : List (PyStr × Json)}
    (hp : wfMembers pairs = true) {v : Json} (h : buildObject o pairs = some v) : wf v = true := by
  rw [buildObject] at h
  split_ifs at h with hnodup
  cases h
  rw [wf, hp, Bool.and_true, decide_eq_true_eq]
  exact hnodup

theorem wf_constant (h : constant o x s = some r) : wf r.1 = true := by
  rw [constant] at h
  split_ifs at h
  cases h
  rfl

/-- What the scanner builds with repeated keys refused, one level of fuel at a time. -/
theorem wf_scan (ho : o.refuseDuplicates = true) (fuel : ℕ) :
    (∀ s r, scanOnce o fuel s = some r → wf r.1 = true) ∧
      (∀ s r, scanItems o fuel s = some r → wfItems r.1 = true) ∧
      (∀ s r, scanMembers o fuel s = some r → wfMembers r.1 = true) := by
  induction fuel with
  | zero => exact ⟨nofun, nofun, nofun⟩
  | succ fuel ih =>
    obtain ⟨ihOnce, ihItems, ihMembers⟩ := ih
    refine ⟨fun s r h => ?_, fun s r h => ?_, fun s r h => ?_⟩
    · cases s with
      | nil => cases h
      | cons c s =>
        rw [scanOnce] at h
        split_ifs at h
        · obtain ⟨q, -, rfl⟩ := map_eq_some_iff.mp h
          rfl
        · obtain ⟨v, hv, rfl⟩ := map_eq_some_iff.mp h
          exact wf_buildObject ho rfl hv
        · split at h
          · rename_i pairs rest hpairs
            obtain ⟨v, hv, rfl⟩ := map_eq_some_iff.mp h
            exact wf_buildObject ho (ihMembers _ _ hpairs) hv
          · cases h
        · cases h
          rfl
        · obtain ⟨q, hq, rfl⟩ := map_eq_some_iff.mp h
          exact ihItems _ _ hq
        -- the three names
        iterate 3
          · obtain ⟨q, -, rfl⟩ := map_eq_some_iff.mp h
            rfl
        iterate 2
          · obtain ⟨q, -, hq⟩ := bind_eq_some_iff.mp h
            exact wf_constant hq
        · split at h
          · exact wf_constant h
          · exact wf_readNumber h
    · rw [scanItems] at h
      split at h
      · cases h
      · rename_i v rest hv
        have hwf := ihOnce _ _ hv
        split at h
        · cases h
        · split_ifs at h
          · cases h
            rw [wfItems, hwf, wfItems, Bool.and_true]
          · obtain ⟨q, hq, rfl⟩ := map_eq_some_iff.mp h
            rw [wfItems, hwf, ihItems _ _ hq, Bool.and_true]
    · cases s with
      | nil => cases h
      | cons q s =>
        rw [scanMembers] at h
        split_ifs at h
        split at h
        · cases h
        · split at h
          · cases h
          · split at h
            · cases h
            · rename_i v rest hv
              have hwf := ihOnce _ _ hv
              split at h
              · cases h
              · split_ifs at h
                · cases h
                  rw [wfMembers, hwf, wfMembers, Bool.and_true]
                · obtain ⟨q, hq, rfl⟩ := map_eq_some_iff.mp h
                  rw [wfMembers, hwf, ihMembers _ _ hq, Bool.and_true]

/-- **With repeated keys refused, every dictionary that is read has distinct keys.** -/
theorem wf_of_loads (ho : o.refuseDuplicates = true) {v : Json} (h : loads o s = some v) :
    wf v = true := by
  rw [loads] at h
  split_ifs at h
  split at h
  · rename_i w rest hw
    split_ifs at h
    cases h
    exact (wf_scan ho _).1 _ _ hw
  · cases h

/-! ### Equal values, equal texts -/

mutual

/-- No number inside the value has a second spelling: there is no float and no boolean. -/
def oneSpelling : Json → Bool
  | bool _ => false
  | float _ => false
  | arr l => oneSpellingItems l
  | obj m => oneSpellingMembers m
  | _ => true

/-- `oneSpelling` of every item. -/
def oneSpellingItems : List Json → Bool
  | [] => true
  | x :: l => oneSpelling x && oneSpellingItems l

/-- `oneSpelling` of every member's value. -/
def oneSpellingMembers : List (PyStr × Json) → Bool
  | [] => true
  | (_, x) :: m => oneSpelling x && oneSpellingMembers m

end

variable {m : List (PyStr × Json)} {p : PyStr × Json}

theorem wf_of_mem (h : wfMembers m = true) (hp : p ∈ m) : wf p.2 = true := by
  induction m with
  | nil => cases hp
  | cons q m ih =>
    obtain ⟨h1, h2⟩ := and_eq_true_iff.mp h
    rcases mem_cons.mp hp with rfl | hp
    · exact h1
    · exact ih h2 hp

variable {l : List Json}

theorem wfItems_mem (h : wfItems l = true) {x : Json} (hx : x ∈ l) : wf x = true := by
  induction l with
  | nil => cases hx
  | cons y l ih =>
    obtain ⟨h1, h2⟩ := and_eq_true_iff.mp h
    rcases mem_cons.mp hx with rfl | hx
    · exact h1
    · exact ih h2 hx

theorem wf_get {m : Dict} (h : wf (.obj m) = true) (k : PyStr) : wf (Dict.get m k) = true := by
  rw [Dict.get]
  cases hfind : Dict.find m k with
  | none => rfl
  | some v => exact wf_of_mem (and_eq_true_iff.mp h).2 (Dict.mem_of_find hfind)

theorem oneSpellingMembers_iff : oneSpellingMembers m = true ↔ ∀ p ∈ m, oneSpelling p.2 = true := by
  induction m with
  | nil => simp [oneSpellingMembers]
  | cons p m ih => rw [oneSpellingMembers, and_eq_true_iff, ih, forall_mem_cons]

theorem oneSpellingItems_of_forall (h : ∀ x ∈ l, oneSpelling x = true) :
    oneSpellingItems l = true := by
  induction l with
  | nil => rfl
  | cons x l ih =>
    rw [oneSpellingItems, h x mem_cons_self]
    exact ih (forall_mem_cons.mp h).2

/-- The rendered members: the same keys in the same order, each with its value's text. -/
theorem dumpsMembers_spec {o : DumpOptions} {parts : List (PyStr × PyStr)}
    (h : dumpsMembers o m = some parts) :
    parts.map fst = m.map fst ∧
      (∀ q ∈ parts, ∃ x, (q.1, x) ∈ m ∧ dumps o x = some q.2) ∧
      ∀ p ∈ m, ∃ s, (p.1, s) ∈ parts ∧ dumps o p.2 = some s := by
  induction m generalizing parts with
  | nil =>
    cases h
    exact ⟨rfl, nofun, nofun⟩
  | cons p m ih =>
    obtain ⟨a, ha, h⟩ := bind_eq_some_iff.mp h
    obtain ⟨rest, hrest, rfl⟩ := map_eq_some_iff.mp h
    obtain ⟨hkeys, hsound, hcomplete⟩ := ih hrest
    refine ⟨by rw [map_cons, map_cons, hkeys], fun q hq => ?_, fun q hq => ?_⟩
    · rcases mem_cons.mp hq with rfl | hq
      · exact ⟨p.2, mem_cons_self, ha⟩
      · obtain ⟨x, hx, hd⟩ := hsound q hq
        exact ⟨x, mem_cons_of_mem _ hx, hd⟩
    · rcases mem_cons.mp hq with rfl | hq
      · exact ⟨a, mem_cons_self, ha⟩
      · obtain ⟨s, hs, hd⟩ := hcomplete q hq
        exact ⟨s, mem_cons_of_mem _ hs, hd⟩

/-- Sorting members by key forgets their order. -/
theorem orderMembers_eq_of_perm {a b : List (PyStr × PyStr)} (hb : (b.map fst).Nodup)
    (h : a.Perm b) : orderMembers true a = orderMembers true b := by
  let le : PyStr × PyStr → PyStr × PyStr → Prop := fun p q => strLe p.1 q.1 = true
  have : Std.Total le := ⟨fun p q => strLe_total p.1 q.1⟩
  have : IsTrans (PyStr × PyStr) le := ⟨fun _ _ _ => strLe_trans⟩
  refine insertionSort_eq_of_perm h fun p hp q hq hpq hqp => ?_
  exact inj_on_of_nodup_map hb hp hq (strLe_antisymm hpq hqp)

/-- With sorted keys, the text of a dictionary is settled by the text under each key. -/
theorem dumps_obj_eq {o : DumpOptions} (ho : o.sortKeys = true) {a b : List (PyStr × Json)}
    (ha : (a.map fst).Nodup) (hb : (b.map fst).Nodup) (hlen : a.length = b.length)
    (hmem : ∀ p ∈ a, ∃ y, (p.1, y) ∈ b ∧
      ∀ {s t}, dumps o p.2 = some s → dumps o y = some t → s = t)
    {s t : PyStr} (hs : dumps o (.obj a) = some s) (ht : dumps o (.obj b) = some t) :
    s = t := by
  obtain ⟨pa, hpa, rfl⟩ := map_eq_some_iff.mp hs
  obtain ⟨pb, hpb, rfl⟩ := map_eq_some_iff.mp ht
  obtain ⟨hkeysA, hsoundA, -⟩ := dumpsMembers_spec hpa
  obtain ⟨hkeysB, -, hcompleteB⟩ := dumpsMembers_spec hpb
  have hsub : pa ⊆ pb := by
    intro q hq
    obtain ⟨x, hx, hdx⟩ := hsoundA q hq
    obtain ⟨y, hy, heq⟩ := hmem _ hx
    obtain ⟨u, hu, hdy⟩ := hcompleteB _ hy
    obtain rfl := heq hdx hdy
    exact hu
  have hnodup : pa.Nodup := List.Nodup.of_map fst (hkeysA ▸ ha)
  have hcount : pb.length ≤ pa.length := by
    have h1 := congrArg List.length hkeysA
    have h2 := congrArg List.length hkeysB
    simp only [length_map] at h1 h2
    omega
  have hperm := (subperm_of_subset hnodup hsub).perm_of_length_le hcount
  rw [ho, orderMembers_eq_of_perm (hkeysB ▸ hb) hperm]

/-- Equal dictionaries, member by member. -/
theorem pyEqMembers_mem {n : List (PyStr × Json)} (h : pyEqMembers m n = true) (hp : p ∈ m) :
    ∃ y, (p.1, y) ∈ n ∧ pyEq p.2 y = true := by
  induction m with
  | nil => cases hp
  | cons q m ih =>
    obtain ⟨hfind, h⟩ := and_eq_true_iff.mp h
    rcases mem_cons.mp hp with rfl | hp
    · split at hfind
      · rename_i y hy
        exact ⟨y, Dict.mem_of_find hy, hfind⟩
      · cases hfind
    · exact ih h hp

mutual

variable {o : DumpOptions}

/-- **Equal values without floats and booleans have the same text** when keys are sorted. -/
theorem dumps_eq_of_pyEq (ho : o.sortKeys = true) (a b : Json) (hwa : wf a = true)
    (hwb : wf b = true) (ha : oneSpelling a = true) (hb : oneSpelling b = true)
    (h : pyEq a b = true) {s t : PyStr} (hs : dumps o a = some s) (ht : dumps o b = some t) :
    s = t := by
  match a, b with
  | .null, .null => exact some.inj (hs.symm.trans ht)
  | .int m, .int n =>
    have hmn : m = n := of_decide_eq_true h
    subst hmn
    exact some.inj (hs.symm.trans ht)
  | .str x, .str y =>
    have hxy : x = y := of_decide_eq_true h
    subst hxy
    exact some.inj (hs.symm.trans ht)
  | .arr l, .arr r =>
    obtain ⟨ps, hps, rfl⟩ := map_eq_some_iff.mp hs
    obtain ⟨pt, hpt, rfl⟩ := map_eq_some_iff.mp ht
    rw [dumpsItems_eq_of_pyEq ho l r hwa hwb ha hb h hps hpt]
  | .obj m, .obj n =>
    obtain ⟨hlen, heq⟩ := and_eq_true_iff.mp h
    obtain ⟨hna, hwa⟩ := and_eq_true_iff.mp hwa
    obtain ⟨hnb, hwb⟩ := and_eq_true_iff.mp hwb
    exact dumps_obj_eq ho (of_decide_eq_true hna) (of_decide_eq_true hnb) (of_decide_eq_true hlen)
      (fun p hp => dumpsMembers_eq_of_pyEq ho m n hwa hwb ha hb heq p hp) hs ht

theorem dumpsItems_eq_of_pyEq (ho : o.sortKeys = true) (l r : List Json) (hwl : wfItems l = true)
    (hwr : wfItems r = true) (hl : oneSpellingItems l = true) (hr : oneSpellingItems r = true)
    (h : pyEqList l r = true) {ps pt : List PyStr} (hs : dumpsItems o l = some ps)
    (ht : dumpsItems o r = some pt) : ps = pt := by
  match l, r with
  | [], [] => exact some.inj (hs.symm.trans ht)
  | x :: l, y :: r =>
    obtain ⟨s, hsx, hs⟩ := bind_eq_some_iff.mp hs
    obtain ⟨ps, hps, rfl⟩ := map_eq_some_iff.mp hs
    obtain ⟨t, hty, ht⟩ := bind_eq_some_iff.mp ht
    obtain ⟨pt, hpt, rfl⟩ := map_eq_some_iff.mp ht
    obtain ⟨hwx, hwl⟩ := and_eq_true_iff.mp hwl
    obtain ⟨hwy, hwr⟩ := and_eq_true_iff.mp hwr
    obtain ⟨hx, hl⟩ := and_eq_true_iff.mp hl
    obtain ⟨hy, hr⟩ := and_eq_true_iff.mp hr
    obtain ⟨hxy, h⟩ := and_eq_true_iff.mp h
    rw [dumps_eq_of_pyEq ho x y hwx hwy hx hy hxy hsx hty,
      dumpsItems_eq_of_pyEq ho l r hwl hwr hl hr h hps hpt]

theorem dumpsMembers_eq_of_pyEq (ho : o.sortKeys = true) (m n : List (PyStr × Json))
    (hwm : wfMembers m = true) (hwn : wfMembers n = true) (hm : oneSpellingMembers m = true)
    (hn : oneSpellingMembers n = true) (h : pyEqMembers m n = true) (p : PyStr × Json)
    (hp : p ∈ m) :
    ∃ y, (p.1, y) ∈ n ∧ ∀ {s t}, dumps o p.2 = some s → dumps o y = some t → s = t := by
  match m with
  | [] => cases hp
  | (k, x) :: m =>
    obtain ⟨hwx, hwm⟩ := and_eq_true_iff.mp hwm
    obtain ⟨hx, hm⟩ := and_eq_true_iff.mp hm
    obtain ⟨hfind, h⟩ := and_eq_true_iff.mp h
    rcases mem_cons.mp hp with rfl | hp
    · split at hfind
      · rename_i y hy
        have hmem := Dict.mem_of_find hy
        exact ⟨y, hmem, fun hs ht => dumps_eq_of_pyEq ho x y hwx (wf_of_mem hwn hmem) hx
          (oneSpellingMembers_iff.mp hn _ hmem) hfind hs ht⟩
      · cases hfind
    · exact dumpsMembers_eq_of_pyEq ho m n hwm hwn hm hn h p hp

end

end Json

end Py
