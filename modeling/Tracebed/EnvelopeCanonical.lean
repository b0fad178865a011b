import Tracebed.Lib.JsonCanonical
import Tracebed.StandardWriter

/-!
# One Value, One Byte String

`tb-env/2` promises exactly one byte representation per value. Every line must serialise back to
itself, so an accepted object is reproduced byte for byte by `to_bytes`. Whether two accepted
objects with equal payloads are the same bytes is then a question about numbers: `==` does not
tell `2` from `2.0`, the serialiser does, and the version is compared by `==` alone.

## Main results

* `v2_bytes_unique_iff`: accepted objects with equal payloads are the same bytes exactly when
  their header lines spell the version with the same type of number.
* `v2_two_spellings`: two accepted objects with equal payloads that differ.
-/

open Py Fallible List Option

namespace Tracebed

/-- `from_bytes(raw)` returns this payload, and its header names version 2. -/
structure AcceptsV2 (P : Primitives) (raw : Bytes) (p : EncryptedPayload) : Prop where
  parsed : EncryptedPayload.fromBytes P raw = .ok p
  isV2 : isV2Header p.header = true

/-- The headers and the section tuples are equal in the sense of `==`. -/
def EncryptedPayload.pyEq (p q : EncryptedPayload) : Bool :=
  Json.pyEq (.obj p.header) (.obj q.header) &&
    Json.pyEqList (p.sections.map .obj) (q.sections.map .obj)

/-- The `v` that `json.loads` finds in the header line. -/
def headerVersion (raw : Bytes) : Option Json := do
  let line ← (raw.dropLast.splitOn 10).head?
  let decoded ← utf8Decode line
  let header ← (Json.loads ⟨true, false⟩ decoded).bind asDict
  pure (field header "v")

/-- An `int`, as opposed to a `float` of the same value. -/
def isInt : Json → Bool
  | .int _ => true
  | _ => false

/-- The header line spells the version as an integer. -/
def spellsIntVersion (raw : Bytes) : Bool := (headerVersion raw).any isInt

/-! ### Lines -/

variable {m : Dict} {raw : Bytes} {p : EncryptedPayload} {P : Primitives} {v : Json}

theorem loadsV2Line_spec {line : Bytes} (h : loadsV2Line line = .ok m) :
    ((utf8Decode line).bind fun s => (Json.loads ⟨true, false⟩ s).bind asDict) = some m ∧
      Json.wf (.obj m) = true ∧ dumpsV2Line m = .ok (line ++ [10]) := by
  obtain ⟨decoded, hdecoded, h⟩ := bind_eq_ok.mp h
  obtain ⟨item, hitem, h⟩ := bind_eq_ok.mp h
  rw [orRaise_eq_ok] at hdecoded hitem
  cases item with
  | obj m' =>
    obtain ⟨rendered, hrendered, h⟩ := bind_eq_ok.mp h
    obtain ⟨⟨⟩, hsame, h⟩ := bind_eq_ok.mp h
    cases h
    rw [require_eq_ok, decide_eq_true_eq] at hsame
    refine ⟨?_, Json.wf_of_loads rfl hitem, hsame ▸ hrendered⟩
    rw [hdecoded, bind_some, hitem]
    rfl
  | null | bool | int | float | str | arr => cases h

theorem loadsV2Lines_spec {ms : List Dict} (h : loadsV2Lines raw = .ok ms) :
    List.Forall₂ (fun line m => loadsV2Line line = .ok m) (raw.dropLast.splitOn 10) ms ∧
      ((raw.dropLast.splitOn 10).map (· ++ [10])).flatten = raw := by
  obtain ⟨⟨⟩, hframe, h⟩ := bind_eq_ok.mp h
  obtain ⟨⟨⟩, -, h⟩ := bind_eq_ok.mp h
  rw [require_eq_ok, Bool.not_eq_true'] at hframe
  simp only [Bool.or_eq_false_iff, decide_eq_false_iff_not, not_not] at hframe
  exact ⟨mapM_eq_ok.mp h, flatten_splitOn hframe.1.2⟩

/-- The version 1 path never returns a version 2 payload. -/
theorem isV2Header_of_fromBytesV1 (h : EncryptedPayload.fromBytesV1 raw = .ok p) :
    isV2Header p.header = false := by
  obtain ⟨lines, -, h⟩ := bind_eq_ok.mp h
  obtain ⟨⟨⟩, -, h⟩ := bind_eq_ok.mp h
  obtain ⟨dicts, -, h⟩ := bind_eq_ok.mp h
  cases dicts with
  | nil => cases h
  | cons header sections =>
    obtain ⟨⟨⟩, hfmt, h⟩ := bind_eq_ok.mp h
    obtain ⟨⟨⟩, -, h⟩ := bind_eq_ok.mp h
    obtain ⟨⟨⟩, -, h⟩ := bind_eq_ok.mp h
    cases h
    rw [require_eq_ok, Bool.and_eq_true] at hfmt
    rw [isV2Header]
    have hfmt := hfmt.1
    generalize field header "fmt" = v at hfmt
    cases v with
    | str s =>
      obtain rfl : s = envelopeFmt := of_decide_eq_true hfmt
      rfl
    | null | bool | int | float | arr | obj => rfl

theorem AcceptsV2.strict (h : AcceptsV2 P raw p) :
    loadsV2Lines raw = .ok (p.header :: p.sections) ∧
      validateV2Envelope P p.header p.sections = .ok () := by
  obtain ⟨hparsed, hv2⟩ := h
  have hv1 : EncryptedPayload.fromBytesV1 raw ≠ .ok p := fun h => by
    rw [isV2Header_of_fromBytesV1 h] at hv2
    cases hv2
  rw [EncryptedPayload.fromBytes] at hparsed
  split at hparsed
  · rename_i header sections hlines
    split_ifs at hparsed with hheader
    · obtain ⟨⟨⟩, hvalid, hparsed⟩ := bind_eq_ok.mp hparsed
      cases hparsed
      exact ⟨hlines, hvalid⟩
    · exact absurd hparsed hv1
  · exact absurd hparsed hv1

theorem AcceptsV2.written (h : AcceptsV2 P raw p) : ∃ line lines,
    dumpsV2Line p.header = .ok line ∧ p.sections.mapM dumpsV2Line = .ok lines ∧
      line ++ lines.flatten = raw := by
  obtain ⟨hall, hraw⟩ := loadsV2Lines_spec h.strict.1
  generalize raw.dropLast.splitOn 10 = lines at hall hraw
  cases hall with
  | cons hhead hrest =>
    rename_i line lines
    refine ⟨line ++ [10], lines.map (· ++ [10]), (loadsV2Line_spec hhead).2.2, ?_, hraw⟩
    rw [mapM_eq_ok, forall₂_map_right_iff]
    exact hrest.flip.imp fun m l hl => (loadsV2Line_spec hl).2.2

/-- **An accepted object is reproduced**: `from_bytes(a).to_bytes() == a`. -/
theorem AcceptsV2.toBytes_eq (h : AcceptsV2 P raw p) : p.toBytes P = .ok raw := by
  obtain ⟨line, lines, hline, hlines, hraw⟩ := h.written
  rw [EncryptedPayload.toBytes, if_pos h.isV2, ← hraw]
  refine bind_ok h.strict.2 ?_
  refine bind_ok hline ?_
  exact bind_ok hlines rfl

/-! ### Fields with one spelling -/

theorem oneSpelling_of_b64dCanonical {d : Bytes} (h : b64dCanonical v = .ok d) :
    v.oneSpelling = true := by
  cases v with
  | str s => rfl
  | null | bool | int | float | arr | obj => cases h

theorem oneSpelling_of_canonicalUuid {u : UUID} (h : canonicalUuid v = .ok u) :
    v.oneSpelling = true := by
  cases v with
  | str s => rfl
  | null | bool | int | float | arr | obj => cases h

theorem oneSpelling_of_validateV2Nat {bound : ℕ} {msg : String} {n : ℕ}
    (h : validateV2Nat bound msg v = .ok n) : v.oneSpelling = true := by
  cases v with
  | int n => rfl
  | null | bool | float | str | arr | obj => cases h

/-- A field compared with a text is that text. -/
theorem oneSpelling_of_pyEq_str {t : PyStr} (h : v.pyEq (.str t) = true) :
    v.oneSpelling = true := by
  cases v with
  | str s => rfl
  | null | bool | int | float | arr | obj => cases h

theorem oneSpelling_of_v2Digests {ds : List Bytes} (h : v2Digests v = .ok ds) :
    v.oneSpelling = true := by
  cases v with
  | arr l =>
    obtain ⟨digests, hdigests, -⟩ := bind_eq_ok.mp h
    refine Json.oneSpellingItems_of_forall fun x hx => ?_
    obtain ⟨d, -, hd⟩ := mapM_mem hdigests x hx
    exact oneSpelling_of_b64dCanonical hd
  | null | bool | int | float | str | obj => cases h

/-- A dictionary with the expected keys has one spelling if its value under each of them
has. -/
theorem oneSpelling_of_hasKeys {ks : List PyStr} (hwf : Json.wf (.obj m) = true)
    (hkeys : Dict.hasKeys m ks = true) (h : ∀ k ∈ ks, (Dict.get m k).oneSpelling = true) :
    Json.oneSpelling (.obj m) = true := by
  refine Json.oneSpellingMembers_iff.mpr fun p hp => ?_
  have hnodup := of_decide_eq_true (Bool.and_eq_true_iff.mp hwf).1
  rw [← Dict.get_of_mem hnodup hp]
  exact h p.1 (Dict.mem_of_hasKeys hkeys hp)

/-- An accepted wrap. -/
theorem oneSpelling_of_validateV2Wrap {wrap : Json} {digest : Bytes} (hwf : wrap.wf = true)
    (h : validateV2Wrap wrap digest = .ok ()) : wrap.oneSpelling = true := by
  cases wrap with
  | obj w =>
    obtain ⟨⟨⟩, hkeys, h⟩ := bind_eq_ok.mp h
    obtain ⟨_, hdigest, h⟩ := bind_eq_ok.mp h
    obtain ⟨⟨⟩, -, h⟩ := bind_eq_ok.mp h
    obtain ⟨_, hkeyId, h⟩ := bind_eq_ok.mp h
    obtain ⟨_, hnonce, h⟩ := bind_eq_ok.mp h
    obtain ⟨_, hshare, -⟩ := bind_eq_ok.mp h
    refine oneSpelling_of_hasKeys hwf (require_eq_ok.mp hkeys) fun k hk => ?_
    simp only [expectedWrap, map_cons, map_nil, mem_cons, not_mem_nil, or_false] at hk
    rcases hk with rfl | rfl | rfl | rfl
    · exact oneSpelling_of_b64dCanonical hdigest
    · exact oneSpelling_of_canonicalUuid hkeyId
    · exact oneSpelling_of_b64dCanonical hnonce
    · exact oneSpelling_of_b64dCanonical hshare
  | null | bool | int | float | str | arr => cases h

theorem oneSpelling_of_validateV2Wraps {previous : Option Bytes} {pairs : List (Json × Bytes)}
    (h : validateV2Wraps previous pairs = .ok ()) :
    ∀ p ∈ pairs, p.1.wf = true → p.1.oneSpelling = true := by
  induction pairs generalizing previous with
  | nil => exact nofun
  | cons pair pairs ih =>
    obtain ⟨⟨⟩, hwrap, h⟩ := bind_eq_ok.mp h
    obtain ⟨⟨⟩, -, h⟩ := bind_eq_ok.mp h
    exact forall_mem_cons.mpr ⟨fun hwf => oneSpelling_of_validateV2Wrap hwf hwrap, ih h⟩

variable {previousSeqTo : Option ℕ} {sentinel : Bytes} {index : ℕ}

/-- **Every field of an accepted section has one spelling.** -/
theorem oneSpelling_of_validateV2Section {s : Dict} {range : ℕ × ℕ} (hwf : Json.wf (.obj s) = true)
    (h : validateV2Section sentinel index previousSeqTo s = .ok range) :
    Json.oneSpelling (.obj s) = true := by
  obtain ⟨⟨⟩, hkeys, h⟩ := bind_eq_ok.mp h
  obtain ⟨_, hindex, h⟩ := bind_eq_ok.mp h
  obtain ⟨⟨⟩, -, h⟩ := bind_eq_ok.mp h
  obtain ⟨_, hfrom, h⟩ := bind_eq_ok.mp h
  obtain ⟨_, hto, h⟩ := bind_eq_ok.mp h
  obtain ⟨⟨⟩, -, h⟩ := bind_eq_ok.mp h
  obtain ⟨⟨⟩, -, h⟩ := bind_eq_ok.mp h
  obtain ⟨digests, hdigests, h⟩ := bind_eq_ok.mp h
  obtain ⟨⟨⟩, -, h⟩ := bind_eq_ok.mp h
  obtain ⟨_, hnonce, h⟩ := bind_eq_ok.mp h
  obtain ⟨_, hct, h⟩ := bind_eq_ok.mp h
  obtain ⟨⟨⟩, -, h⟩ := bind_eq_ok.mp h
  have hwraps : (field s "wraps").oneSpelling = true := by
    have hwraps : (field s "wraps").wf = true := Json.wf_get hwf _
    generalize field s "wraps" = v at h hwraps
    cases v with
    | arr wraps =>
      obtain ⟨⟨⟩, hcount, h⟩ := bind_eq_ok.mp h
      obtain ⟨⟨⟩, hvalid, -⟩ := bind_eq_ok.mp h
      rw [require_eq_ok, decide_eq_true_eq] at hcount
      refine Json.oneSpellingItems_of_forall fun x hx => ?_
      rw [← map_fst_zip (Nat.le_of_eq hcount)] at hx
      obtain ⟨pair, hpair, rfl⟩ := mem_map.mp hx
      exact oneSpelling_of_validateV2Wraps hvalid pair hpair
        (Json.wfItems_mem hwraps (of_mem_zip hpair).1)
    | null | bool | int | float | str | obj => cases h
  refine oneSpelling_of_hasKeys hwf (require_eq_ok.mp hkeys) fun k hk => ?_
  simp only [expectedSection, map_cons, map_nil, mem_cons, not_mem_nil, or_false] at hk
  rcases hk with rfl | rfl | rfl | rfl | rfl | rfl | rfl
  · exact oneSpelling_of_b64dCanonical hct
  · exact oneSpelling_of_b64dCanonical hnonce
  · exact oneSpelling_of_validateV2Nat hindex
  · exact oneSpelling_of_validateV2Nat hfrom
  · exact oneSpelling_of_validateV2Nat hto
  · exact oneSpelling_of_v2Digests hdigests
  · exact hwraps

variable {sections : List Dict}

theorem oneSpelling_of_validateV2Sections {observed result : Option (ℕ × ℕ)}
    (h : validateV2Sections sentinel index previousSeqTo observed sections = .ok result) :
    ∀ s ∈ sections, Json.wf (.obj s) = true → Json.oneSpelling (.obj s) = true := by
  induction sections generalizing index previousSeqTo observed with
  | nil => exact nofun
  | cons first rest ih =>
    obtain ⟨range, hfirst, h⟩ := bind_eq_ok.mp h
    exact forall_mem_cons.mpr ⟨fun hwf => oneSpelling_of_validateV2Section hwf hfirst, ih h⟩

theorem version_cases (h : v.pyEq (.int v2EnvelopeVersion) = true) :
    v = .int 2 ∨ v = .float (.fin 2) := by
  cases v with
  | int n =>
    obtain rfl : n = 2 := of_decide_eq_true h
    exact .inl rfl
  | float x =>
    cases x with
    | fin q =>
      have hq : q = ((2 : ℤ) : ℚ) := of_decide_eq_true h
      rw [hq]
      exact .inr rfl
    | negZero => exact absurd h (by decide)
    | nan | posInf | negInf => cases h
  | bool b => cases b <;> exact absurd h (by decide)
  | null | str | arr | obj => cases h

/-- An accepted envelope: its header has the expected keys, one spelling under each but the
version, and sections with one spelling. -/
theorem validateV2Envelope_spelling {header : Dict}
    (h : validateV2Envelope P header sections = .ok ()) :
    Dict.hasKeys header expectedHeader = true ∧
      (field header "v").pyEq (.int v2EnvelopeVersion) = true ∧
      (∀ k ∈ expectedHeader, k ≠ str "v" → (Dict.get header k).oneSpelling = true) ∧
      ∀ s ∈ sections, Json.wf (.obj s) = true → Json.oneSpelling (.obj s) = true := by
  obtain ⟨⟨⟩, hkeys, h⟩ := bind_eq_ok.mp h
  obtain ⟨⟨⟩, hvalues, h⟩ := bind_eq_ok.mp h
  obtain ⟨_, hproject, h⟩ := bind_eq_ok.mp h
  obtain ⟨_, hrun, h⟩ := bind_eq_ok.mp h
  obtain ⟨_, hcount, h⟩ := bind_eq_ok.mp h
  obtain ⟨⟨⟩, -, h⟩ := bind_eq_ok.mp h
  obtain ⟨_, hfirst, h⟩ := bind_eq_ok.mp h
  obtain ⟨_, hlast, h⟩ := bind_eq_ok.mp h
  obtain ⟨⟨⟩, -, h⟩ := bind_eq_ok.mp h
  obtain ⟨_, -, h⟩ := bind_eq_ok.mp h
  obtain ⟨_, hsections, -⟩ := bind_eq_ok.mp h
  rw [require_eq_ok] at hkeys hvalues
  simp only [Bool.and_eq_true] at hvalues
  obtain ⟨⟨⟨⟨halg, hfmt⟩, hsplit⟩, hversion⟩, hwrapAlg⟩ := hvalues
  refine ⟨hkeys, hversion, fun k hk hkv => ?_, oneSpelling_of_validateV2Sections hsections⟩
  simp only [expectedHeader, map_cons, map_nil, mem_cons, not_mem_nil, or_false] at hk
  rcases hk with rfl | rfl | rfl | rfl | rfl | rfl | rfl | rfl | rfl | rfl
  · exact oneSpelling_of_pyEq_str halg
  · exact oneSpelling_of_validateV2Nat hfirst
  · exact oneSpelling_of_pyEq_str hfmt
  · exact oneSpelling_of_validateV2Nat hlast
  · exact oneSpelling_of_canonicalUuid hproject
  · exact oneSpelling_of_canonicalUuid hrun
  · exact oneSpelling_of_validateV2Nat hcount
  · exact oneSpelling_of_pyEq_str hsplit
  · exact absurd rfl hkv
  · exact oneSpelling_of_pyEq_str hwrapAlg

/-! ### Equal payloads -/

/-- The lines of an accepted object: a header line and one line per section, each the text
of its dictionary. -/
theorem AcceptsV2.lines (h : AcceptsV2 P raw p) :
    headerVersion raw = some (field p.header "v") ∧ Json.wf (.obj p.header) = true ∧
      ∀ s ∈ p.sections, Json.wf (.obj s) = true := by
  obtain ⟨hall, -⟩ := loadsV2Lines_spec h.strict.1
  rw [headerVersion]
  generalize raw.dropLast.splitOn 10 = lines at hall
  cases hall with
  | cons hhead hrest =>
    rename_i line lines
    obtain ⟨hread, hwf, -⟩ := loadsV2Line_spec hhead
    refine ⟨?_, hwf, fun s hs => ?_⟩
    · obtain ⟨text, htext, hheader⟩ := bind_eq_some_iff.mp hread
      exact bind_eq_some_iff.mpr ⟨line, rfl, bind_eq_some_iff.mpr
        ⟨text, htext, bind_eq_some_iff.mpr ⟨_, hheader, rfl⟩⟩⟩
    · obtain ⟨i, hi, rfl⟩ := getElem_of_mem hs
      have hi' : i < lines.length := hrest.length_eq ▸ hi
      exact (loadsV2Line_spec (hrest.get hi' hi)).2.1

theorem dumpsV2Line_eq {n : Dict} {a b : Bytes} (ha : dumpsV2Line m = .ok a)
    (hb : dumpsV2Line n = .ok b) (h : ∀ {s t}, Json.dumps ⟨true, true, false⟩ (.obj m) = some s →
      Json.dumps ⟨true, true, false⟩ (.obj n) = some t → s = t) : a = b := by
  obtain ⟨s, hs, ha⟩ := bind_eq_ok.mp ha
  obtain ⟨t, ht, hb⟩ := bind_eq_ok.mp hb
  obtain rfl := h (orRaise_eq_ok.mp hs) (orRaise_eq_ok.mp ht)
  exact Except.ok.inj (ha.symm.trans hb)

theorem header_line_eq {n : Dict} (hwm : Json.wf (.obj m) = true) (hwn : Json.wf (.obj n) = true)
    (hkm : Dict.hasKeys m expectedHeader = true)
    (hm : ∀ k ∈ expectedHeader, k ≠ str "v" → (Dict.get m k).oneSpelling = true)
    (hn : ∀ k ∈ expectedHeader, k ≠ str "v" → (Dict.get n k).oneSpelling = true)
    (hv : field m "v" = field n "v") (h : Json.pyEq (.obj m) (.obj n) = true) {s t : PyStr}
    (hs : Json.dumps ⟨true, true, false⟩ (.obj m) = some s)
    (ht : Json.dumps ⟨true, true, false⟩ (.obj n) = some t) : s = t := by
  obtain ⟨hlen, hmembers⟩ := Bool.and_eq_true_iff.mp h
  obtain ⟨hnm, hwm⟩ := Bool.and_eq_true_iff.mp hwm
  obtain ⟨hnn, hwn⟩ := Bool.and_eq_true_iff.mp hwn
  refine Json.dumps_obj_eq rfl (of_decide_eq_true hnm) (of_decide_eq_true hnn)
    (of_decide_eq_true hlen) (fun p hp => ?_) hs ht
  obtain ⟨y, hy, heq⟩ := Json.pyEqMembers_mem hmembers hp
  refine ⟨y, hy, fun {s t} hs ht => ?_⟩
  have hgetM := Dict.get_of_mem (of_decide_eq_true hnm) hp
  have hgetN : Dict.get n p.1 = y := Dict.get_of_mem (of_decide_eq_true hnn) hy
  by_cases hkey : p.1 = str "v"
  · have hxy : p.2 = y := by
      rw [← hgetM, ← hgetN, hkey]
      exact hv
    rw [hxy, ht] at hs
    exact (Option.some.inj hs).symm
  · refine Json.dumps_eq_of_pyEq rfl p.2 y (Json.wf_of_mem hwm hp) (Json.wf_of_mem hwn hy)
      ?_ ?_ heq hs ht
    · rw [← hgetM]
      exact hm p.1 (Dict.mem_of_hasKeys hkm hp) hkey
    · rw [← hgetN]
      exact hn p.1 (Dict.mem_of_hasKeys hkm hp) hkey

theorem section_lines_eq {ms ns : List Dict} {as bs : List Bytes}
    (hm : ∀ s ∈ ms, Json.wf (.obj s) = true ∧ Json.oneSpelling (.obj s) = true)
    (hn : ∀ s ∈ ns, Json.wf (.obj s) = true ∧ Json.oneSpelling (.obj s) = true)
    (h : Json.pyEqList (ms.map .obj) (ns.map .obj) = true)
    (ha : ms.mapM dumpsV2Line = .ok as) (hb : ns.mapM dumpsV2Line = .ok bs) : as = bs := by
  rw [mapM_eq_ok] at ha hb
  induction ha generalizing ns bs with
  | nil =>
    cases hb with
    | nil => rfl
    | cons => cases h
  | @cons m a ms as hline _ ih =>
    cases hb with
    | nil => cases h
    | @cons n b ns bs hline' hrest =>
      obtain ⟨heq, h⟩ := Bool.and_eq_true_iff.mp h
      obtain ⟨hwm, hom⟩ := hm m mem_cons_self
      obtain ⟨hwn, hon⟩ := hn n mem_cons_self
      rw [dumpsV2Line_eq hline hline' fun hs ht =>
          Json.dumps_eq_of_pyEq rfl _ _ hwm hwn hom hon heq hs ht,
        ih (forall_mem_cons.mp hm).2 (forall_mem_cons.mp hn).2 h hrest]

theorem version_eq_iff {w : Json} (hv : v.pyEq (.int v2EnvelopeVersion) = true)
    (hw : w.pyEq (.int v2EnvelopeVersion) = true) : v = w ↔ isInt v = isInt w := by
  constructor
  · rintro rfl
    rfl
  · intro h
    rcases version_cases hv with rfl | rfl <;> rcases version_cases hw with rfl | rfl
    · rfl
    · cases h
    · cases h
    · rfl

/-- **One byte string per value, and per type of the version.** An object accepted as
version 2 is reproduced by `to_bytes`; two of them with equal payloads are the same bytes
exactly when their header lines spell the version with the same type of number. -/
theorem v2_bytes_unique_iff (P : Primitives) {a b : Bytes} {p q : EncryptedPayload}
    (ha : AcceptsV2 P a p) (hb : AcceptsV2 P b q) :
    p.toBytes P = .ok a ∧
      (p.pyEq q = true → (a = b ↔ spellsIntVersion a = spellsIntVersion b)) := by
  refine ⟨ha.toBytes_eq, fun heq => ⟨fun h => h ▸ rfl, fun hspell => ?_⟩⟩
  obtain ⟨hversionA, hwfA, hwfsA⟩ := ha.lines
  obtain ⟨hversionB, hwfB, hwfsB⟩ := hb.lines
  obtain ⟨hkeysA, hvA, hheaderA, hsectionsA⟩ := validateV2Envelope_spelling ha.strict.2
  obtain ⟨-, hvB, hheaderB, hsectionsB⟩ := validateV2Envelope_spelling hb.strict.2
  obtain ⟨hheaders, hsections⟩ := Bool.and_eq_true_iff.mp heq
  have hv : field p.header "v" = field q.header "v" := by
    rw [spellsIntVersion, spellsIntVersion, hversionA, hversionB] at hspell
    exact (version_eq_iff hvA hvB).mpr hspell
  obtain ⟨lineA, restA, hlineA, hrestA, rfl⟩ := ha.written
  obtain ⟨lineB, restB, hlineB, hrestB, rfl⟩ := hb.written
  have hline : lineA = lineB := dumpsV2Line_eq hlineA hlineB fun hs ht =>
    header_line_eq hwfA hwfB hkeysA hheaderA hheaderB hv hheaders hs ht
  have hrest : restA = restB := section_lines_eq
    (fun s hs => ⟨hwfsA s hs, hsectionsA s hs (hwfsA s hs)⟩)
    (fun s hs => ⟨hwfsB s hs, hsectionsB s hs (hwfsB s hs)⟩) hsections hrestA hrestB
  rw [hline, hrest]

/-! ### Two spellings -/

/-- A section under the project's key, with data of the right sizes. -/
def sampleSection : Dict :=
  sectionDict (List.replicate 17 0) (List.replicate 12 0) 0 0 0 []
    [wrapDict stdProjectDigest stdRun.value (List.replicate 12 0) (List.replicate 48 0)]

/-- The bytes of an envelope with that section, for a spelling of the version. -/
def sampleEnvelope (version : Json) : Bytes :=
  let header := Dict.set (v2Header stdProject stdRun 0 0 1) (str "v") version
  ((EncryptedPayload.toBytes standardPrimitives ⟨header, [sampleSection]⟩).toOption).getD []

theorem sampleEnvelope_accepted : ∃ p q,
    AcceptsV2 standardPrimitives (sampleEnvelope (.int 2)) p ∧
      AcceptsV2 standardPrimitives (sampleEnvelope (.float (.fin 2))) q ∧ p.pyEq q = true := by
  have h : ((EncryptedPayload.fromBytes standardPrimitives
      (sampleEnvelope (.int 2))).toOption.any fun p => isV2Header p.header &&
      ((EncryptedPayload.fromBytes standardPrimitives
        (sampleEnvelope (.float (.fin 2)))).toOption.any fun q =>
          isV2Header q.header && p.pyEq q)) = true := by
    decide +kernel
  obtain ⟨p, hp, h⟩ := (any_eq_true _ _).mp h
  obtain ⟨hv2p, h⟩ := Bool.and_eq_true_iff.mp h
  obtain ⟨q, hq, h⟩ := (any_eq_true _ _).mp h
  obtain ⟨hv2q, heq⟩ := Bool.and_eq_true_iff.mp h
  exact ⟨p, q, ⟨toOption_eq_some.mp hp, hv2p⟩, ⟨toOption_eq_some.mp hq, hv2q⟩, heq⟩

/-- The theorem on the two spellings. -/
theorem v2_bytes_unique_iff_sample : ∃ a b p q,
    AcceptsV2 standardPrimitives a p ∧ AcceptsV2 standardPrimitives b q ∧ p.pyEq q = true ∧
      p.toBytes standardPrimitives = .ok a ∧
      (a = b ↔ spellsIntVersion a = spellsIntVersion b) := by
  obtain ⟨p, q, hp, hq, heq⟩ := sampleEnvelope_accepted
  obtain ⟨hbytes, hiff⟩ := v2_bytes_unique_iff standardPrimitives hp hq
  exact ⟨_, _, p, q, hp, hq, heq, hbytes, hiff heq⟩

/-- **Two byte strings for one value**: `"v":2` and `"v":2.0` are both accepted, the payloads
are equal, and the bytes are not. -/
theorem v2_two_spellings : ∃ a b p q,
    AcceptsV2 standardPrimitives a p ∧ AcceptsV2 standardPrimitives b q ∧ p.pyEq q = true ∧
      a ≠ b := by
  obtain ⟨p, q, hp, hq, heq⟩ := sampleEnvelope_accepted
  have hne : sampleEnvelope (.int 2) ≠ sampleEnvelope (.float (.fin 2)) := by decide +kernel
  exact ⟨_, _, p, q, hp, hq, heq, hne⟩

end Tracebed
