import Tracebed.ShredRoundTrip

/-!
# What the Authenticated Data Binds

The byte string that AES-GCM authenticates next to a ciphertext binds it to the values it was
encrypted for only if it determines them. The version 2 encoders join a domain, fields of fixed
width and one counted list of digests; the legacy ones join texts with the separator `0x1F`, which
a subject tag may contain, but it stands between two fields of known width. Every encoder
determines its accepted inputs (`aad_unambiguous`).
-/

open Py Fallible List

namespace Tracebed

variable {α β : Type} {project : ProjectId} {digest x : Bytes} {keyId : UUID}

/-- Whatever the encoder accepts, its output determines a part of the input. -/
def Determines (encode : α → Except PyError Bytes) (part : α → β) : Prop :=
  ∀ a b x, encode a = .ok x → encode b = .ok x → part a = part b

/-- Two encoders without a common output. -/
def Apart (encode : α → Except PyError Bytes) (encode' : β → Except PyError Bytes) : Prop :=
  ∀ a b x, encode a = .ok x → encode' b ≠ .ok x

/-- Outputs that start with texts of which neither starts the other are apart. -/
theorem apart_of_prefix {encode : α → Except PyError Bytes} {encode' : β → Except PyError Bytes}
    {a b : Bytes} (h : ∀ i x, encode i = .ok x → a <+: x)
    (h' : ∀ i x, encode' i = .ok x → b <+: x) (hab : ¬ a <+: b) (hba : ¬ b <+: a) :
    Apart encode encode' := by
  intro i j x hi hj
  rcases prefix_or_prefix_of_prefix (h i x hi) (h' j x hj) with hp | hp
  · exact hab hp
  · exact hba hp

/-! ### Version 2 -/

theorem validateSubjectDigestBytes_length {ds : List Bytes}
    (h : validateSubjectDigestBytes ds = .ok ()) : ds.length ≤ 64 := by
  obtain ⟨⟨⟩, hcount, -⟩ := bind_eq_ok.mp h
  exact of_decide_eq_true (require_eq_ok.mp hcount)

theorem buildV2KekAad_frame (h : buildV2KekAad project digest keyId = .ok x) :
    digest.length = keyLen ∧
      x = v2KekAadDomain ++ (project.value.bytes ++ digest ++ keyId.bytes) := by
  obtain ⟨⟨⟩, hdigest, h⟩ := bind_eq_ok.mp h
  refine ⟨(validateSubjectDigestBytes_spec hdigest).1 digest mem_cons_self, ?_⟩
  rw [← Except.ok.inj h]
  simp

theorem buildV2SectionAad_determines :
    Determines (fun (p, r, i, f, t, ds) => buildV2SectionAad p r i f t ds) id := by
  rintro ⟨⟨p⟩, ⟨r⟩, i, f, t, ds⟩ ⟨⟨p'⟩, ⟨r'⟩, i', f', t', ds'⟩ x h h'
  obtain ⟨hi, hds, hf, ht, rfl⟩ := buildV2SectionAad_frame h
  obtain ⟨hi', hds', hf', ht', heq⟩ := buildV2SectionAad_frame h'
  have hc := validateSubjectDigestBytes_length hds
  have hc' := validateSubjectDigestBytes_length hds'
  rw [maxSeq] at hf ht hf' ht'
  obtain ⟨hp, heq⟩ := append_inj (append_cancel_left heq) (by simp)
  obtain ⟨hr, heq⟩ := append_inj heq (by simp)
  dsimp only at hp hr
  obtain ⟨hindex, heq⟩ := toBytesBE_append_inj (by omega) (by omega) heq
  obtain ⟨hfrom, heq⟩ := toBytesBE_append_inj (by omega) (by omega) heq
  obtain ⟨hto, heq⟩ := toBytesBE_append_inj (by omega) (by omega) heq
  obtain ⟨hcount, heq⟩ := toBytesBE_append_inj (by omega) (by omega) heq
  have hlens : ds.map length = ds'.map length := by
    rw [map_eq_replicate_iff.mpr (validateSubjectDigestBytes_spec hds).1,
      map_eq_replicate_iff.mpr (validateSubjectDigestBytes_spec hds').1, hcount]
  rw [UUID.bytes_inj hp, UUID.bytes_inj hr, hindex, hfrom, hto, eq_iff_flatten_eq.mpr ⟨heq, hlens⟩]

theorem buildV2ShareAad_determines (P : Primitives) :
    Determines (fun (s, i, d, k) => buildV2ShareAad P s i d k)
      fun (s, i, d, k) => (P.sha256 s, i, d, k) := by
  rintro ⟨s, i, d, k⟩ ⟨s', i', d', k'⟩ x h h'
  obtain ⟨hd, hi, rfl⟩ := buildV2ShareAad_frame h
  obtain ⟨hd', hi', heq⟩ := buildV2ShareAad_frame h'
  -- read from the end, where every width is fixed
  obtain ⟨heq, hk⟩ := append_inj' (append_cancel_left heq) (by simp)
  obtain ⟨hrest, rfl⟩ := append_inj' heq (by rw [hd, hd'])
  obtain ⟨hsha, hindex⟩ := append_inj' hrest (by simp)
  simp [hsha, toBytesBE_inj (by omega) (by omega) hindex, UUID.bytes_inj hk]

theorem buildV2KekAad_determines : Determines (fun (p, d, k) => buildV2KekAad p d k) id := by
  rintro ⟨⟨p⟩, d, k⟩ ⟨⟨p'⟩, d', k'⟩ x h h'
  obtain ⟨hd, rfl⟩ := buildV2KekAad_frame h
  obtain ⟨hd', heq⟩ := buildV2KekAad_frame h'
  obtain ⟨heq, hk⟩ := append_inj' (append_cancel_left heq) (by simp)
  obtain ⟨hp, rfl⟩ := append_inj' heq (by rw [hd, hd'])
  dsimp only at hp
  rw [UUID.bytes_inj hk, UUID.bytes_inj hp]

/-! ### The legacy encoders -/

theorem strInt_inj {m n : ℤ} (h : strInt m = strInt n) : m = n := by
  -- a numeral does not start with the sign
  have hsign (a b : ℕ) : 45 :: decimal a ≠ decimal b := by
    intro heq
    have := (decimal_digits b).2 45 (heq ▸ mem_cons_self)
    revert this
    decide
  have hdecimal {a b : ℕ} (heq : decimal a = decimal b) : a = b := by
    rw [← ofDecimal_decimal a, heq, ofDecimal_decimal]
  unfold strInt at h
  split_ifs at h
  · have := hdecimal ((cons_inj_right _).mp h)
    omega
  · exact absurd h (hsign _ _)
  · exact absurd h.symm (hsign _ _)
  · have := hdecimal h
    omega

theorem mem_strInt {n : ℤ} {c : ℕ} (h : c ∈ strInt n) : 45 ≤ c ∧ c ≤ 57 := by
  have hdigit (hc : c ∈ decimal n.natAbs) : 45 ≤ c ∧ c ≤ 57 := by
    have := (decimal_digits _).2 c hc
    simp [isDigit] at this
    omega
  unfold strInt at h
  split_ifs at h
  · rcases mem_cons.mp h with rfl | hc
    · omega
    · exact hdigit hc
  · exact hdigit h

theorem buildAad_injective : Function.Injective fun (p, r, f, t) => buildAad p r f t := by
  rintro ⟨⟨p⟩, ⟨r⟩, f, t⟩ ⟨⟨p'⟩, ⟨r'⟩, f', t'⟩ h
  have hascii (p r : UUID) (f t : ℤ) :
      IsAscii (p.str ++ 0x1F :: (r.str ++ 0x1F :: (strInt f ++ 0x1F :: strInt t))) := by
    have huuid (u : UUID) : ∀ c ∈ u.str, c < 0x80 := fun c hc => by
      have := UUID.str_isHexText hc
      omega
    have hint (n : ℤ) : ∀ c ∈ strInt n, c < 0x80 := fun c hc => by
      have := mem_strInt hc
      omega
    simp only [IsAscii, forall_mem_append, forall_mem_cons]
    exact ⟨huuid p, by omega, huuid r, by omega, hint f, by omega, hint t⟩
  have htext := congrArg utf8Decode h
  simp only [buildAad, utf8Decode_of_ascii (hascii _ _ _ _), Option.some_inj] at htext
  obtain ⟨hp, htext⟩ := append_inj htext (by simp [UUID.str_length])
  obtain ⟨hr, htext⟩ := append_inj ((cons_inj_right _).mp htext) (by simp [UUID.str_length])
  have hsep (n : ℤ) : 0x1F ∉ strInt n := fun hmem => by have := (mem_strInt hmem).1; omega
  obtain ⟨hf, -, ht⟩ :=
    (append_cons_inj_of_notMem (hsep _) (hsep _)).mp ((cons_inj_right _).mp htext)
  rw [UUID.str_inj hp, UUID.str_inj hr, strInt_inj hf, strInt_inj ht]

theorem kekWrapAad_determines : Determines (fun (p, t, k) => kekWrapAad p t k) id := by
  rintro ⟨⟨p⟩, t, k⟩ ⟨⟨p'⟩, t', k'⟩ x h h'
  obtain ⟨encoded, henc, h⟩ := bind_eq_ok.mp h
  obtain ⟨encoded', henc', h'⟩ := bind_eq_ok.mp h'
  obtain ⟨heq, hk⟩ := append_inj' (Except.ok.inj (h.trans h'.symm)) (by simp)
  obtain rfl := append_cancel_right heq
  rw [orRaise_eq_ok] at henc henc'
  have htext := (utf8Decode_utf8Encode henc).symm.trans (utf8Decode_utf8Encode henc')
  obtain ⟨hp, rfl⟩ := append_inj (Option.some_inj.mp htext) (by simp [UUID.str_length])
  obtain rfl : p = p' := UUID.str_inj (append_cancel_right hp)
  rw [UUID.bytes_inj hk]

/-- **The authenticated data is unambiguous.** Every encoder determines the inputs it accepts
(the share encoder: the digest of the section's data and the rest of its inputs), and the
version 2 encoders have no output in common. -/
theorem aad_unambiguous (P : Primitives) :
    Determines (fun (p, r, i, f, t, ds) => buildV2SectionAad p r i f t ds) id ∧
    Determines (fun (p, d, k) => buildV2KekAad p d k) id ∧
    Determines (fun (s, i, d, k) => buildV2ShareAad P s i d k)
      (fun (s, i, d, k) => (P.sha256 s, i, d, k)) ∧
    (Function.Injective fun (p, r, f, t) => buildAad p r f t) ∧
    Determines (fun (p, t, k) => kekWrapAad p t k) id ∧
    Apart (fun (p, r, i, f, t, ds) => buildV2SectionAad p r i f t ds)
      (fun (p, d, k) => buildV2KekAad p d k) ∧
    Apart (fun (p, r, i, f, t, ds) => buildV2SectionAad p r i f t ds)
      (fun (s, i, d, k) => buildV2ShareAad P s i d k) ∧
    Apart (fun (p, d, k) => buildV2KekAad p d k)
      (fun (s, i, d, k) => buildV2ShareAad P s i d k) := by
  have hsection (a : ProjectId × RunId × ℕ × ℕ × ℕ × List Bytes) (x : Bytes)
      (h : buildV2SectionAad a.1 a.2.1 a.2.2.1 a.2.2.2.1 a.2.2.2.2.1 a.2.2.2.2.2 = .ok x) :
      v2SectionAadDomain <+: x := by
    obtain ⟨-, -, -, -, rfl⟩ := buildV2SectionAad_frame h
    exact prefix_append _ _
  have hkek (a : ProjectId × Bytes × UUID) (x : Bytes)
      (h : buildV2KekAad a.1 a.2.1 a.2.2 = .ok x) : v2KekAadDomain <+: x := by
    obtain ⟨-, rfl⟩ := buildV2KekAad_frame h
    exact prefix_append _ _
  have hshare (a : Bytes × ℕ × Bytes × UUID) (x : Bytes)
      (h : buildV2ShareAad P a.1 a.2.1 a.2.2.1 a.2.2.2 = .ok x) : v2ShareAadDomain <+: x := by
    obtain ⟨-, -, rfl⟩ := buildV2ShareAad_frame h
    exact prefix_append _ _
  exact ⟨buildV2SectionAad_determines, buildV2KekAad_determines, buildV2ShareAad_determines P,
    buildAad_injective, kekWrapAad_determines,
    apart_of_prefix hsection hkek (by decide) (by decide),
    apart_of_prefix hsection hshare (by decide) (by decide),
    apart_of_prefix hkek hshare (by decide) (by decide)⟩

end Tracebed
