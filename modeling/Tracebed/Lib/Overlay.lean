import Mathlib

/-!
# Laying Rows over a Nested Document

`Doc κ α` says what stands at every path of a nested mapping, `mapping` or a `leaf`. Putting a row
(a path and a value, itself a document) into a document replaces what stood at and below its path
and turns everything on the way there into mappings; it cannot be put where the way is blocked by
a leaf.

## Main results

* `putAll_eq_overlaid`: if every row agrees with the rows below it, the result is the
  document with the rows laid over it, whatever the order.
* `orderFree_iff`: all orders of the rows have the same outcome exactly if some row is
  blocked in every order, or no row is blocked by the document and rows on one path agree.
-/

open List

namespace Overlay

variable {κ α : Type}

theorem exists_last_two {β : Type} {l : List β} {r s : β} (hr : r ∈ l) (hs : s ∈ l)
    (hne : s ≠ r) : ∃ l', (l' ++ [r, s]).Perm l := by
  obtain ⟨l₁, l₂, rfl⟩ := append_of_mem hr
  have hs' : s ∈ l₁ ++ l₂ := (mem_cons.mp (perm_middle.mem_iff.mp hs)).resolve_left hne
  obtain ⟨m₁, m₂, hm⟩ := append_of_mem hs'
  have hmid : (m₁ ++ s :: m₂).Perm (s :: (m₁ ++ m₂)) := perm_middle
  refine ⟨m₁ ++ m₂, ?_⟩
  calc m₁ ++ m₂ ++ [r, s] ~ r :: s :: (m₁ ++ m₂) := perm_append_comm
    _ ~ r :: (l₁ ++ l₂) := hm ▸ hmid.symm.cons r
    _ ~ l₁ ++ r :: l₂ := perm_middle.symm

/-- What stands at a path. -/
inductive Shape (α : Type)
  | mapping
  | leaf (a : α)
  deriving DecidableEq

/-- What stands at every path of a nested mapping. -/
abbrev Doc (κ α : Type) := List κ → Option (Shape α)

/-- Whatever stands below a path makes the path a mapping. -/
def Doc.Closed (d : Doc κ α) : Prop := ∀ x k, d (x ++ [k]) ≠ none → d x = some .mapping

/-- Whatever stands further down makes the path a mapping. -/
theorem Doc.Closed.mapping {d : Doc κ α} (h : d.Closed) {x y : List κ} (hy : y ≠ [])
    (hd : d (x ++ y) ≠ none) : d x = some .mapping := by
  induction y using reverseRecOn with
  | nil => exact absurd rfl hy
  | append_singleton y k ih =>
    have hxy : d (x ++ y) = some .mapping := h (x ++ y) k (by rwa [append_assoc])
    cases y with
    | nil => simpa using hxy
    | cons a y => exact ih (by simp) (by simp [hxy])

/-- A value to be put at a path. -/
structure Row (κ α : Type) where
  key : List κ
  value : Doc κ α
  rooted : value [] ≠ none
  closed : value.Closed

namespace Row

variable (r : Row κ α)

/-- What the row says about a path at or below its key. -/
def holds (x : List κ) : Option (Shape α) := r.value (x.drop r.key.length)

theorem holds_key : r.holds r.key ≠ none := by
  rw [holds, drop_length]
  exact r.rooted

theorem holds_mapping {r : Row κ α} {x y : List κ} (hx : r.key <+: x) (hxy : x <+: y)
    (hne : x ≠ y) (hy : r.holds y ≠ none) : r.holds x = some .mapping := by
  obtain ⟨u, rfl⟩ := hx
  obtain ⟨v, rfl⟩ := hxy
  have hv : v ≠ [] := by
    rintro rfl
    simp at hne
  have hholds : r.value (u ++ v) ≠ none := by
    simpa [holds] using hy
  simpa [holds] using r.closed.mapping hv hholds

/-- No leaf of the row lies on the way to a path. -/
def Admits (p : List κ) : Prop :=
  ∀ y, r.key <+: y → y <+: p → y ≠ p → ∀ a, r.holds y ≠ some (.leaf a)

/-- A row that lies on the way to another one already says what the other one says. -/
def Absorbs (r s : Row κ α) : Prop :=
  r.key <+: s.key → ∀ x, s.key <+: x → r.holds x = s.holds x

end Row

namespace Doc

/-- No leaf lies on the way to a path. -/
def Admits (d : Doc κ α) (p : List κ) : Prop :=
  ∀ y, y <+: p → y ≠ p → ∀ a, d y ≠ some (.leaf a)

variable {d d' : Doc κ α} {k : κ} {p x : List κ} {rows l : List (Row κ α)} {r s : Row κ α}

/-- The way to a longer path: its first mapping, and the rest of the way below it. -/
theorem admits_cons :
    d.Admits (k :: p) ↔ (∀ a, d [] ≠ some (.leaf a)) ∧ Admits (fun x => d (k :: x)) p := by
  constructor
  · intro h
    refine ⟨h [] nil_prefix (by simp), fun y hy hne => ?_⟩
    exact h (k :: y) ((prefix_cons_inj k).mpr hy) (by simpa using hne)
  · rintro ⟨hnil, hrest⟩ y hy hne
    cases y with
    | nil => exact hnil
    | cons k' y =>
      obtain ⟨rfl, hy'⟩ := cons_prefix_cons.mp hy
      exact hrest y hy' (fun he => hne (he ▸ rfl))

/-- Only the leaves of a document block. -/
theorem admits_congr (h : ∀ x a, d x = some (.leaf a) ↔ d' x = some (.leaf a)) :
    d.Admits p ↔ d'.Admits p := by
  simp only [Admits, ne_eq, h]

/-- Some row is blocked whatever came before it: by the document, and by every row on the
way to it. -/
def Refuses (d : Doc κ α) (rows : List (Row κ α)) : Prop :=
  ∃ r ∈ rows, ¬ d.Admits r.key ∧
    ∀ s ∈ rows, s.key <+: r.key → s.key ≠ r.key → ¬ s.Admits r.key

/-- The document blocks no row, and a row on the way to another one agrees with it. -/
def Settles (d : Doc κ α) (rows : List (Row κ α)) : Prop :=
  (∀ r ∈ rows, d.Admits r.key) ∧ ∀ r ∈ rows, ∀ s ∈ rows, r.Absorbs s

theorem Refuses.perm (h : d.Refuses rows) (hl : l.Perm rows) : d.Refuses l := by
  obtain ⟨r, hr, hadm, hs⟩ := h
  exact ⟨r, hl.mem_iff.mpr hr, hadm, fun s hs' => hs s (hl.mem_iff.mp hs')⟩

theorem Settles.perm (h : d.Settles rows) (hl : l.Perm rows) : d.Settles l :=
  ⟨fun r hr => h.1 r (hl.mem_iff.mp hr),
    fun r hr s hs => h.2 r (hl.mem_iff.mp hr) s (hl.mem_iff.mp hs)⟩

variable [DecidableEq κ]

/-- The document with the row's value at the row's path. -/
def put (d : Doc κ α) (r : Row κ α) : Doc κ α := fun x =>
  if r.key <+: x then r.holds x
  else if x <+: r.key then some .mapping
  else d x

/-- The rows, put one after the other. -/
def putAll (d : Doc κ α) (rows : List (Row κ α)) : Doc κ α := rows.foldl put d

/-- No row is blocked when its turn comes. -/
def Accepts (d : Doc κ α) : List (Row κ α) → Prop
  | [] => True
  | r :: rows => d.Admits r.key ∧ (d.put r).Accepts rows

/-- The document with the rows laid over it: a path at or below a row's key is the row's, a
path on the way to a row is a mapping, every other path is the document's. -/
def overlaid (d : Doc κ α) (rows : List (Row κ α)) : Doc κ α := fun x =>
  match rows.find? (fun r => r.key <+: x) with
  | some r => r.holds x
  | none => if rows.any (fun r => x <+: r.key) then some .mapping else d x

/-- The outcome of putting the rows is the same in every order. -/
def OrderFree (d : Doc κ α) (rows : List (Row κ α)) : Prop :=
  ∀ l₁ l₂, l₁.Perm rows → l₂.Perm rows → d.Accepts l₁ →
    d.Accepts l₂ ∧ d.putAll l₁ = d.putAll l₂

/-! ### One row -/

theorem put_of_covered (d : Doc κ α) (h : r.key <+: x) : d.put r x = r.holds x := if_pos h

theorem put_of_above (d : Doc κ α) (h₁ : ¬ r.key <+: x) (h₂ : x <+: r.key) :
    d.put r x = some .mapping := by
  rw [put, if_neg h₁, if_pos h₂]

theorem put_of_aside (d : Doc κ α) (h₁ : ¬ r.key <+: x) (h₂ : ¬ x <+: r.key) : d.put r x = d x := by
  rw [put, if_neg h₁, if_neg h₂]

/-- Putting a row below a first key leaves the other first keys. -/
theorem put_cons_of_ne (d : Doc κ α) {k' : κ} (hr : r.key = k :: p) (hne : k' ≠ k) :
    d.put r (k' :: x) = d (k' :: x) := by
  refine d.put_of_aside ?_ ?_
  · rw [hr]
    exact fun h => hne (cons_prefix_cons.mp h).1.symm
  · rw [hr]
    exact fun h => hne (cons_prefix_cons.mp h).1

/-- Below its first key, putting a row is putting the rest of it. -/
theorem put_cons_self (d : Doc κ α) (hr : r.key = k :: p) (x : List κ) :
    d.put r (k :: x) = Doc.put (fun x => d (k :: x)) { r with key := p } x := by
  simp only [put, Row.holds, hr, prefix_cons_inj, length_cons, drop_succ_cons]

theorem put_congr (hr : r.key ≠ []) (h : ∀ x, x ≠ [] → d x = d' x) : d.put r = d'.put r := by
  funext x
  cases x with
  | nil =>
    have hnot : ¬ r.key <+: [] := by simpa using hr
    rw [put_of_above _ hnot nil_prefix, put_of_above _ hnot nil_prefix]
  | cons k x => rw [put, put, h (k :: x) (by simp)]

/-- A row that is blocked by the document and by every row on the way to it stays blocked. -/
theorem not_admits_put (hr : ¬ d.Admits r.key)
    (hs : s.key <+: r.key → s.key ≠ r.key → ¬ s.Admits r.key) (hput : d.Admits s.key) :
    ¬ (d.put s).Admits r.key := by
  simp only [Admits, not_forall, not_not] at hr
  obtain ⟨y, hy, hne, a, hleaf⟩ := hr
  by_cases hsy : s.key <+: y
  · have hlen : s.key ≠ r.key := by
      intro he
      exact hne (hy.eq_of_length_le (he ▸ hsy).length_le)
    have hblock := hs (hsy.trans hy) hlen
    simp only [Row.Admits, not_forall, not_not] at hblock
    obtain ⟨z, hz, hzr, hzne, b, hholds⟩ := hblock
    exact fun h => h z hzr hzne b ((d.put_of_covered hz).trans hholds)
  · have hys : ¬ y <+: s.key := by
      intro h
      exact hput y h (fun he => hsy (he ▸ prefix_rfl)) a hleaf
    exact fun h => h y hy hne a ((d.put_of_aside hsy hys).trans hleaf)

/-- Right behind a row that is on the way to it and has no leaf there, a row is not
blocked. -/
theorem admits_put (hsr : s.key <+: r.key) (hs : s.Admits r.key) : (d.put s).Admits r.key := by
  intro y hy hne a
  by_cases hsy : s.key <+: y
  · rw [d.put_of_covered hsy]
    exact hs y hsy hy hne a
  · have hys : y <+: s.key := ( prefix_or_prefix_of_prefix hsr hy).resolve_left hsy
    rw [d.put_of_above hsy hys]
    exact nofun

/-! ### Lists of rows -/

@[simp] theorem putAll_append (d : Doc κ α) (l₁ l₂ : List (Row κ α)) :
    d.putAll (l₁ ++ l₂) = (d.putAll l₁).putAll l₂ := foldl_append

theorem accepts_append {l₁ l₂ : List (Row κ α)} :
    d.Accepts (l₁ ++ l₂) ↔ d.Accepts l₁ ∧ (d.putAll l₁).Accepts l₂ := by
  induction l₁ generalizing d with
  | nil => exact ⟨fun h => ⟨trivial, h⟩, fun h => h.2⟩
  | cons r l ih =>
    rw [cons_append, Accepts, Accepts, ih, and_assoc]
    rfl

theorem not_accepts_of_blocked (hmem : r ∈ l) (hr : ¬ d.Admits r.key)
    (hs : ∀ s ∈ l, s.key <+: r.key → s.key ≠ r.key → ¬ s.Admits r.key) : ¬ d.Accepts l := by
  induction l generalizing d with
  | nil => exact absurd hmem not_mem_nil
  | cons s l ih =>
    rintro ⟨hput, hrest⟩
    obtain rfl | hmem := mem_cons.mp hmem
    · exact hr hput
    · have hstay := not_admits_put hr (hs s mem_cons_self) hput
      exact ih hmem hstay (forall_mem_cons.mp hs).2 hrest

/-! ### Rows that agree -/

/-- A covered path of an overlaid document is what any covering row says, if the rows
agree. -/
theorem overlaid_of_covered (habs : ∀ r ∈ rows, ∀ s ∈ rows, r.Absorbs s) (hr : r ∈ rows)
    (hx : r.key <+: x) : d.overlaid rows x = r.holds x := by
  have hsome : (rows.find? (fun r => r.key <+: x)).isSome :=
    find?_isSome.mpr ⟨r, hr, by simpa using hx⟩
  obtain ⟨s, hs⟩ := Option.isSome_iff_exists.mp hsome
  have hsx : s.key <+: x := by simpa using find?_some hs
  have hsmem := mem_of_find?_eq_some hs
  rw [overlaid, hs]
  -- of two covering rows one is on the way to the other
  obtain hle | hle := prefix_or_prefix_of_prefix hsx hx
  · exact habs s hsmem r hr hle x hx
  · exact (habs r hr s hsmem hle x hsx).symm

/-- Away from every covering row an overlaid document is a mapping on the way to a row and
the document elsewhere. -/
theorem overlaid_of_not_covered (hx : ∀ r ∈ rows, ¬ r.key <+: x) :
    d.overlaid rows x = if ∃ r ∈ rows, x <+: r.key then some .mapping else d x := by
  have hnone : rows.find? (fun r => r.key <+: x) = none :=
    find?_eq_none.mpr (fun r hr => by simpa using hx r hr)
  rw [overlaid, hnone]
  simp

/-- On the way to a row, an overlaid document of agreeing rows is a mapping, or the
document where no row comes near. -/
theorem overlaid_above (habs : ∀ r ∈ rows, ∀ t ∈ rows, r.Absorbs t) (hs : ∀ r ∈ rows, r.Absorbs s)
    (hx : x <+: s.key) (hne : x ≠ s.key) :
    d.overlaid rows x = some .mapping ∨ d.overlaid rows x = d x := by
  by_cases hcov : ∃ r ∈ rows, r.key <+: x
  · obtain ⟨r, hr, hrx⟩ := hcov
    left
    rw [overlaid_of_covered habs hr hrx]
    refine Row.holds_mapping hrx hx hne ?_
    rw [hs r hr (hrx.trans hx) s.key prefix_rfl]
    exact s.holds_key
  · rw [overlaid_of_not_covered (fun r hr h => hcov ⟨r, hr, h⟩)]
    split
    · exact .inl rfl
    · exact .inr rfl

/-- Putting one more agreeing row lays one more row over the document. -/
theorem put_overlaid (habs : ∀ r ∈ rows ++ [s], ∀ t ∈ rows ++ [s], r.Absorbs t) :
    (d.overlaid rows).put s = d.overlaid (rows ++ [s]) := by
  have hin : ∀ {r}, r ∈ rows → r ∈ rows ++ [s] := mem_append_left _
  have hself : s ∈ rows ++ [s] := mem_append_right _ (mem_singleton_self s)
  have hrows : ∀ r ∈ rows, ∀ t ∈ rows, r.Absorbs t := fun r hr t ht => habs r (hin hr) t (hin ht)
  funext x
  by_cases hsx : s.key <+: x
  · rw [put_of_covered _ hsx, overlaid_of_covered habs hself hsx]
  by_cases hcov : ∃ r ∈ rows, r.key <+: x
  · obtain ⟨r, hr, hrx⟩ := hcov
    rw [overlaid_of_covered habs (hin hr) hrx]
    by_cases hxs : x <+: s.key
    · have hne : x ≠ s.key := fun he => hsx (he ▸ prefix_rfl)
      rw [put_of_above _ hsx hxs]
      refine (Row.holds_mapping hrx hxs hne ?_).symm
      rw [habs r (hin hr) s hself (hrx.trans hxs) s.key prefix_rfl]
      exact s.holds_key
    · rw [put_of_aside _ hsx hxs, overlaid_of_covered hrows hr hrx]
  · have hnot : ∀ r ∈ rows, ¬ r.key <+: x := fun r hr h => hcov ⟨r, hr, h⟩
    have hnot' : ∀ r ∈ rows ++ [s], ¬ r.key <+: x :=
      forall_mem_append.mpr ⟨hnot, forall_mem_singleton.mpr hsx⟩
    rw [overlaid_of_not_covered hnot']
    by_cases hxs : x <+: s.key
    · rw [put_of_above _ hsx hxs, if_pos ⟨s, hself, hxs⟩]
    · rw [put_of_aside _ hsx hxs, overlaid_of_not_covered hnot]
      simp [hxs]

theorem putAll_eq_overlaid (habs : ∀ r ∈ rows, ∀ s ∈ rows, r.Absorbs s) :
    d.putAll rows = d.overlaid rows := by
  induction rows using reverseRecOn with
  | nil => rfl
  | append_singleton rows s ih =>
    rw [putAll_append, ih fun r hr t ht => habs r (mem_append_left _ hr) t (mem_append_left _ ht)]
    exact put_overlaid habs

theorem Settles.accepts (h : d.Settles rows) : d.Accepts rows := by
  obtain ⟨hadm, habs⟩ := h
  induction rows using reverseRecOn with
  | nil => exact trivial
  | append_singleton rows s ih =>
    have hin : ∀ {r}, r ∈ rows → r ∈ rows ++ [s] := mem_append_left _
    have hself : s ∈ rows ++ [s] := mem_append_right _ (mem_singleton_self s)
    have hrows := fun r hr t ht => habs r (hin hr) t (hin ht)
    refine accepts_append.mpr ⟨ih (fun r hr => hadm r (hin hr)) hrows, ?_, trivial⟩
    rw [putAll_eq_overlaid hrows]
    intro y hy hne a hleaf
    obtain hmap | hdoc := overlaid_above (d := d) hrows (fun r hr => habs r (hin hr) s hself) hy hne
    · rw [hmap] at hleaf
      exact nomatch hleaf
    · exact hadm s hself y hy hne a (hdoc ▸ hleaf)

theorem Settles.overlaid_perm (h : d.Settles rows) (hl : l.Perm rows) :
    d.overlaid l = d.overlaid rows := by
  funext x
  by_cases hcov : ∃ r ∈ rows, r.key <+: x
  · obtain ⟨r, hr, hrx⟩ := hcov
    rw [overlaid_of_covered h.2 hr hrx, overlaid_of_covered (h.perm hl).2 (hl.mem_iff.mpr hr) hrx]
  · rw [overlaid_of_not_covered (fun r hr hrx => hcov ⟨r, hr, hrx⟩),
      overlaid_of_not_covered (fun r hr hrx => hcov ⟨r, hl.mem_iff.mp hr, hrx⟩)]
    simp only [hl.mem_iff]

/-! ### Some order is accepted unless a row is blocked for good -/

/-- Two documents that differ at most below a key, or where one has nothing and the other a
mapping. -/
def SameOutside (p : List κ) (d d' : Doc κ α) : Prop :=
  ∀ y, ¬ p <+: y → d' y = d y ∨ (d y = none ∧ d' y = some .mapping)

/-- Putting an admitted row changes nothing outside its key but missing mappings. -/
theorem sameOutside_put (h : d.Admits r.key) : SameOutside r.key d (d.put r) := by
  intro y hry
  by_cases hyr : y <+: r.key
  · have hne : y ≠ r.key := fun he => hry (he ▸ prefix_rfl)
    rw [d.put_of_above hry hyr]
    cases hd : d y with
    | none => exact .inr ⟨rfl, rfl⟩
    | some s =>
      cases s with
      | mapping => exact .inl rfl
      | leaf a => exact absurd hd (h y hyr hne a)
  · exact .inl (d.put_of_aside hry hyr)

theorem SameOutside.put (h : SameOutside p d d') (s : Row κ α) :
    SameOutside p (d.put s) (d'.put s) := by
  intro y hy
  by_cases hsy : s.key <+: y
  · rw [put_of_covered _ hsy, put_of_covered _ hsy]
    exact .inl rfl
  by_cases hys : y <+: s.key
  · rw [put_of_above _ hsy hys, put_of_above _ hsy hys]
    exact .inl rfl
  · rw [put_of_aside _ hsy hys, put_of_aside _ hsy hys]
    exact h y hy

/-- Rows with keys no longer than `p` are accepted alike by two documents that are the same
outside `p`. -/
theorem SameOutside.accepts (h : SameOutside p d d') (hl : ∀ s ∈ l, s.key.length ≤ p.length)
    (hacc : d.Accepts l) : d'.Accepts l := by
  induction l generalizing d d' with
  | nil => exact trivial
  | cons s l ih =>
    refine ⟨?_, ih (h.put s) (forall_mem_cons.mp hl).2 hacc.2⟩
    intro y hy hne a
    have hlen : y.length < s.key.length :=
      lt_of_le_of_ne hy.length_le (fun he => hne (hy.eq_of_length he))
    have hout : ¬ p <+: y := by
      intro hp
      have := hp.length_le
      have := hl s mem_cons_self
      omega
    obtain he | ⟨-, he⟩ := h y hout
    · rw [he]
      exact hacc.1 y hy hne a
    · rw [he]
      exact nofun

/-- A longest row can be put into an accepted order unless it is blocked for good. -/
theorem exists_insert (hacc : d.Accepts l) (hlen : ∀ s ∈ l, s.key.length ≤ r.key.length)
    (hr : d.Admits r.key ∨ ∃ s ∈ l, s.key <+: r.key ∧ s.Admits r.key) :
    ∃ l', l'.Perm (r :: l) ∧ d.Accepts l' := by
  obtain hadm | ⟨s, hs, hsr, hadm⟩ := hr
  · exact ⟨r :: l, List.Perm.refl _, hadm, (sameOutside_put hadm).accepts hlen hacc⟩
  · obtain ⟨l₁, l₂, rfl⟩ := append_of_mem hs
    obtain ⟨hacc₁, hs₁, hacc₂⟩ := accepts_append.mp hacc
    refine ⟨l₁ ++ s :: r :: l₂, ?_, accepts_append.mpr ⟨hacc₁, hs₁, ?_, ?_⟩⟩
    · calc l₁ ++ s :: r :: l₂ ~ s :: r :: (l₁ ++ l₂) := by
            refine perm_middle.trans (List.Perm.cons s perm_middle)
        _ ~ r :: s :: (l₁ ++ l₂) := List.Perm.swap r s _
        _ ~ r :: (l₁ ++ s :: l₂) := List.Perm.cons r perm_middle.symm
    · exact admits_put hsr hadm
    · have hlen₂ : ∀ t ∈ l₂, t.key.length ≤ r.key.length := fun t ht =>
        hlen t (mem_append_right _ (mem_cons_of_mem _ ht))
      exact (sameOutside_put (admits_put hsr hadm)).accepts hlen₂ hacc₂

/-- Rows sorted by the length of their keys have an accepted order unless one of them is
blocked for good. -/
theorem exists_accepted_of_sorted (hsort : rows.Pairwise (fun r s => r.key.length ≤ s.key.length))
    (h : ¬ d.Refuses rows) : ∃ l, l.Perm rows ∧ d.Accepts l := by
  induction rows using reverseRecOn with
  | nil => exact ⟨[], List.Perm.refl _, trivial⟩
  | append_singleton rows r ih =>
    obtain ⟨hsort, -, hlen⟩ := pairwise_append.mp hsort
    have hlen : ∀ s ∈ rows, s.key.length ≤ r.key.length :=
      fun s hs => hlen s hs r (mem_singleton_self r)
    have hrest : ¬ d.Refuses rows := by
      rintro ⟨q, hq, hadm, hs⟩
      refine h ⟨q, mem_append_left _ hq, hadm, fun s hs' hsq hne => ?_⟩
      obtain hs' | hs' := mem_append.mp hs'
      · exact hs s hs' hsq hne
      · rw [mem_singleton.mp hs'] at hsq hne
        exact absurd (hsq.eq_of_length (le_antisymm hsq.length_le (hlen q hq))) hne
    obtain ⟨l, hl, hacc⟩ := ih hsort hrest
    have hr : d.Admits r.key ∨ ∃ s ∈ l, s.key <+: r.key ∧ s.Admits r.key := by
      by_contra hnot
      push Not at hnot
      refine h ⟨r, mem_append_right _ (mem_singleton_self r), hnot.1, ?_⟩
      intro s hs hsr hne
      obtain hs | hs := mem_append.mp hs
      · exact hnot.2 s (hl.mem_iff.mpr hs) hsr
      · rw [mem_singleton.mp hs] at hne
        exact absurd rfl hne
    obtain ⟨l', hl', hacc'⟩ := exists_insert hacc (fun s hs => hlen s (hl.mem_iff.mp hs)) hr
    refine ⟨l', hl'.trans ?_, hacc'⟩
    exact (hl.cons r).trans (perm_append_singleton r rows).symm

/-- Some order of the rows is accepted unless one of them is blocked for good. -/
theorem exists_accepted (h : ¬ d.Refuses rows) : ∃ l, l.Perm rows ∧ d.Accepts l := by
  have hperm := mergeSort_perm rows (fun r s => r.key.length ≤ s.key.length)
  have hsort : (rows.mergeSort (fun r s => r.key.length ≤ s.key.length)).Pairwise
      (fun r s => r.key.length ≤ s.key.length) := by
    exact pairwise_mergeSort' (fun r s : Row κ α => r.key.length ≤ s.key.length) rows
  obtain ⟨l, hl, hacc⟩ := exists_accepted_of_sorted hsort (fun hd => h (hd.perm hperm.symm))
  exact ⟨l, hl.trans hperm, hacc⟩

/-! ### Order independence -/

/-- Whether all orders of the rows have the same outcome: one of the rows is
blocked for good, or the document blocks none of them and rows on one path agree. -/
theorem orderFree_iff : d.OrderFree rows ↔ d.Refuses rows ∨ d.Settles rows := by
  constructor
  · intro hfree
    by_cases href : d.Refuses rows
    · exact .inl href
    right
    obtain ⟨l₀, hl₀, hacc₀⟩ := exists_accepted href
    have hall : ∀ l, l.Perm rows → d.Accepts l := fun l hl => (hfree l₀ l hl₀ hl hacc₀).1
    constructor
    · intro r hr
      obtain ⟨l₁, l₂, rfl⟩ := append_of_mem hr
      exact (hall (r :: (l₁ ++ l₂)) perm_middle.symm).1
    · intro r hr s hs hrs x hsx
      by_cases hsr : s = r
      · rw [hsr]
      obtain ⟨l, hl⟩ := exists_last_two hr hs hsr
      have hl' : (l ++ [s, r]).Perm rows :=
        (List.Perm.append_left l (List.Perm.swap r s [])).trans hl
      have hsame := congrFun (hfree _ _ hl' hl (hall _ hl')).2 x
      rw [putAll_append, putAll_append] at hsame
      calc r.holds x = ((d.putAll l).put s).put r x := (put_of_covered _ (hrs.trans hsx)).symm
        _ = ((d.putAll l).put r).put s x := hsame
        _ = s.holds x := put_of_covered _ hsx
  · rintro (⟨r, hr, hadm, hs⟩ | hset) l₁ l₂ hl₁ hl₂ hacc
    · exact absurd hacc (not_accepts_of_blocked (hl₁.mem_iff.mpr hr) hadm
        (fun s hs' => hs s (hl₁.mem_iff.mp hs')))
    · refine ⟨(hset.perm hl₂).accepts, ?_⟩
      rw [putAll_eq_overlaid (hset.perm hl₁).2, putAll_eq_overlaid (hset.perm hl₂).2,
        hset.overlaid_perm hl₁, hset.overlaid_perm hl₂]

end Doc

end Overlay
