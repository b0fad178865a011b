import Mathlib

/-!
# Keeping the Best and Filling a Budget

Two loops over a list of items.

* `keepBest` keeps one item per key, replacing it whenever a better one comes along; the
  keys stay in the order in which they were first seen, as in a Python dictionary. The order of
  the list does not matter exactly if the best item of every key is unique (`keepBest_perm_iff`).
* `greedyFill` walks the items in order and takes every one that still fits: a bound on the
  total size and an optional bound on the number of items.
-/

open List

namespace Packing

universe u v

variable {α : Type u} {κ : Type v} [DecidableEq κ]

/-! ### One item per key -/

/-- Put an item under its key: behind the others if the key is new, in the place of the
present item if it is better. -/
def upsert (better : α → α → Bool) (key : α → κ) (c : α) : List α → List α
  | [] => [c]
  | b :: rest =>
    if key b = key c then (if better c b then c else b) :: rest
    else b :: upsert better key c rest

/-- One item per key. -/
def keepBest (better : α → α → Bool) (key : α → κ) (l : List α) : List α :=
  l.foldl (fun best c => upsert better key c best) []

variable {better : α → α → Bool} {key : α → κ} {best : List α}

/-- What stands in the list afterwards stood there before, or is the new item. -/
theorem mem_upsert {c a : α} (h : a ∈ upsert better key c best) : a = c ∨ a ∈ best := by
  induction best with
  | nil => exact .inl (mem_singleton.mp h)
  | cons b rest ih =>
    rw [upsert] at h
    split at h
    · split at h
      · obtain rfl | h := mem_cons.mp h
        · exact .inl rfl
        · exact .inr (mem_cons_of_mem _ h)
      · exact .inr h
    · obtain rfl | h := mem_cons.mp h
      · exact .inr mem_cons_self
      · exact (ih h).imp_right (mem_cons_of_mem _)

theorem keys_upsert (c : α) (best : List α) :
    (upsert better key c best).map key =
      if key c ∈ best.map key then best.map key else best.map key ++ [key c] := by
  induction best with
  | nil => rfl
  | cons b rest ih =>
    by_cases hb : key b = key c
    · have hhead : key (if better c b then c else b) = key c := by
        split
        · rfl
        · exact hb
      rw [upsert, if_pos hb, map_cons, map_cons, hhead, hb, if_pos mem_cons_self]
    · have hc : key c ≠ key b := fun h => hb h.symm
      rw [upsert, if_neg hb, map_cons, map_cons, ih]
      by_cases hmem : key c ∈ rest.map key
      · rw [if_pos hmem, if_pos (mem_cons_of_mem _ hmem)]
      · have hnot : key c ∉ key b :: rest.map key := by
          rw [mem_cons, not_or]
          exact ⟨hc, hmem⟩
        rw [if_neg hmem, if_neg hnot]
        rfl

/-- Distinct keys stay distinct. -/
theorem upsert_nodup (c : α) (h : (best.map key).Nodup) :
    ((upsert better key c best).map key).Nodup := by
  rw [keys_upsert]
  split
  · exact h
  · next hmem =>
    rw [nodup_append]
    refine ⟨h, nodup_singleton _, ?_⟩
    rintro a ha _ hb rfl
    exact hmem (mem_singleton.mp hb ▸ ha)

/-- The loop behind `keepBest`, from any list with distinct keys. -/
theorem foldl_upsert (l : List α) (h : (best.map key).Nodup) :
    ((l.foldl (fun best c => upsert better key c best) best).map key).Nodup ∧
      ∀ a ∈ l.foldl (fun best c => upsert better key c best) best, a ∈ best ∨ a ∈ l := by
  induction l generalizing best with
  | nil => exact ⟨h, fun a ha => .inl ha⟩
  | cons c l ih =>
    have hput : ((upsert better key c best).map key).Nodup := upsert_nodup c h
    obtain ⟨hnodup, hmem⟩ := ih hput
    refine ⟨hnodup, fun a ha => ?_⟩
    obtain h | h := hmem a ha
    · obtain rfl | h := mem_upsert h
      · exact .inr mem_cons_self
      · exact .inl h
    · exact .inr (mem_cons_of_mem _ h)

/-- The kept items have distinct keys. -/
theorem keepBest_nodup (better : α → α → Bool) (key : α → κ) (l : List α) :
    ((keepBest better key l).map key).Nodup := by
  have hnil : (([] : List α).map key).Nodup := nodup_nil
  exact (foldl_upsert l hnil).1

/-- Every kept item is one of the list. -/
theorem keepBest_subset {l : List α} {a : α} (h : a ∈ keepBest better key l) : a ∈ l := by
  have hnil : (([] : List α).map key).Nodup := nodup_nil
  obtain h | h := (foldl_upsert l hnil).2 a h
  · cases h
  · exact h

/-! ### Items with a rank -/

section Ranked

variable {β : Type*} [LinearOrder β] {rank : α → β} {l l' : List α}

theorem insertionSort_perm {r : α → α → Prop} [DecidableRel r]
    (hr : ∀ a b, r a b ↔ rank a ≤ rank b) (h : l.Perm l') (hinj : {a | a ∈ l}.InjOn rank) :
    l.insertionSort r = l'.insertionSort r := by
  have hperm := (perm_insertionSort r l).trans (h.trans (perm_insertionSort r l').symm)
  obtain rfl : r = fun a b => rank a ≤ rank b := funext₂ fun a b => propext (hr a b)
  refine hperm.eq_of_pairwise (fun a b ha hb hab hba => ?_) (pairwise_insertionSort _ l)
    (pairwise_insertionSort _ l')
  rw [mem_insertionSort] at ha hb
  exact hinj ha (h.mem_iff.mpr hb) (hab.antisymm hba)

variable (key) (rank l) in
/-- No two different items tie for the top rank of a key. -/
def TopTieFree : Prop :=
  ∀ a ∈ l, ∀ b ∈ l, key a = key b → rank a = rank b →
    (∀ c ∈ l, key c = key a → rank a ≤ rank c) → a = b

variable (key) (hbetter : ∀ a b, better a b = true ↔ rank a < rank b)

include hbetter

/-- What is put or stood there has an item of its key that ranks no worse. -/
theorem exists_upsert {b c : α} (hb : b ∈ c :: best) :
    ∃ a ∈ upsert better key c best, key a = key b ∧ rank a ≤ rank b := by
  induction best with
  | nil => exact ⟨b, hb, rfl, le_rfl⟩
  | cons d rest ih => grind [upsert]

theorem exists_foldl_upsert {b : α} (hb : b ∈ best ∨ b ∈ l) :
    ∃ a ∈ l.foldl (fun best c => upsert better key c best) best,
      key a = key b ∧ rank a ≤ rank b := by
  induction l generalizing best b with
  | nil => exact ⟨b, hb.resolve_right not_mem_nil, rfl, le_rfl⟩
  | cons c l ih =>
    by_cases hl : b ∈ l
    · exact ih (.inr hl)
    · obtain ⟨d, hd, hkey, hrank⟩ := exists_upsert key hbetter (show b ∈ c :: best by grind)
      rw [← hkey]
      obtain ⟨a, ha, hkey, hle⟩ := ih (.inl hd)
      exact ⟨a, ha, hkey, hle.trans hrank⟩

/-- A kept item ranks no worse than any other of its key. -/
theorem keepBest_le {a b : α} (ha : a ∈ keepBest better key l) (hb : b ∈ l)
    (hkey : key b = key a) : rank a ≤ rank b := by
  obtain ⟨c, hc, hckey, hle⟩ := exists_foldl_upsert key hbetter (.inr hb)
  obtain rfl := inj_on_of_nodup_map (keepBest_nodup _ key l) hc ha (hckey.trans hkey)
  exact hle

/-- An item that stands in the list stays, if nothing of its key ranks better. -/
theorem mem_foldl_upsert {a : α} (ha : a ∈ best)
    (htop : ∀ c ∈ l, key c = key a → rank a ≤ rank c) :
    a ∈ l.foldl (fun best c => upsert better key c best) best := by
  induction l generalizing best with
  | nil => exact ha
  | cons c l ih =>
    refine ih ?_ fun d hd => htop d (mem_cons_of_mem _ hd)
    have hc := htop c mem_cons_self
    induction best with
    | nil => cases ha
    | cons b rest ih => grind [upsert]

/-- **The same items are kept in every order exactly if no two tie for the top rank of a key.** -/
theorem keepBest_perm_iff :
    (∀ l', l.Perm l' → (keepBest better key l).Perm (keepBest better key l')) ↔
      TopTieFree key rank l := by
  constructor
  · intro hperm a ha b hb hkey hrank htop
    -- the item that comes first is kept
    have hfirst : ∀ c ∈ l, key c = key a → rank c = rank a → c ∈ keepBest better key l := by
      intro c hc hckey hcrank
      obtain ⟨s, t, rfl⟩ := append_of_mem hc
      have hkept : c ∈ (s ++ t).foldl (fun best c => upsert better key c best) [c] := by
        refine mem_foldl_upsert key hbetter (mem_singleton_self c) fun d hd hdkey => ?_
        exact hcrank ▸ htop d (perm_middle.symm.subset (mem_cons_of_mem _ hd)) (hdkey.trans hckey)
      exact (hperm _ perm_middle).mem_iff.mpr hkept
    exact inj_on_of_nodup_map (keepBest_nodup _ key l) (hfirst a ha rfl rfl)
      (hfirst b hb hkey.symm hrank.symm) hkey
  · intro hties l' h
    have hsub : ∀ {l l' : List α}, l.Perm l' → TopTieFree key rank l →
        keepBest better key l ⊆ keepBest better key l' := by
      intro l l' h hties a ha
      have hal := keepBest_subset ha
      obtain ⟨b, hb, hkey, hle⟩ := exists_foldl_upsert key hbetter (.inr (h.subset hal))
      have hbl := h.symm.subset (keepBest_subset hb)
      have hrank := (keepBest_le key hbetter ha hbl hkey).antisymm hle
      exact hties a hal b hbl hkey.symm hrank (fun c hc => keepBest_le key hbetter ha hc) ▸ hb
    refine (perm_ext_iff_of_nodup (keepBest_nodup _ _ _).of_map (keepBest_nodup _ _ _).of_map).mpr
      fun a => ⟨fun ha => hsub h hties ha, fun ha => hsub h.symm ?_ ha⟩
    simpa only [TopTieFree, h.mem_iff] using hties

end Ranked

/-! ### Filling a budget -/

/-- Take every item that still fits, in order. `count` and `used` are what was taken
before. -/
def greedyFill (size : α → ℕ) (cap : ℤ) (maxCount : Option ℤ) :
    (count used : ℕ) → List α → List α × ℕ
  | _, used, [] => ([], used)
  | count, used, c :: rest =>
    if (∃ m ∈ maxCount, m ≤ (count : ℤ)) ∨ cap < (used : ℤ) + (size c : ℤ) then
      greedyFill size cap maxCount count used rest
    else
      let filled := greedyFill size cap maxCount (count + 1) (used + size c) rest
      (c :: filled.1, filled.2)

theorem greedyFill_sublist (size : α → ℕ) (cap : ℤ) (maxCount : Option ℤ) (count used : ℕ)
    (l : List α) : (greedyFill size cap maxCount count used l).1.Sublist l := by
  induction l generalizing count used with
  | nil => exact List.Sublist.refl _
  | cons c rest ih =>
    rw [greedyFill]
    split
    · exact (ih count used).cons c
    · exact (ih (count + 1) (used + size c)).cons_cons c

theorem greedyFill_within (size : α → ℕ) (cap : ℤ) (maxCount : Option ℤ) (count used : ℕ)
    (l : List α) :
    (greedyFill size cap maxCount count used l).2 =
      used + ((greedyFill size cap maxCount count used l).1.map size).sum ∧
    ((greedyFill size cap maxCount count used l).2 : ℤ) ≤ max cap used ∧
    ∀ m ∈ maxCount, (count + (greedyFill size cap maxCount count used l).1.length : ℤ) ≤
      max m count := by
  induction l generalizing count used with
  | nil => simp [greedyFill]
  | cons c rest ih =>
    rw [greedyFill]
    split_ifs with hfull
    · exact ih count used
    · obtain ⟨hsum, hcap, hcount⟩ := ih (count + 1) (used + size c)
      simp only [not_or, not_exists, not_and, not_le, not_lt] at hfull
      refine ⟨by simp [hsum, add_assoc], hcap.trans (by push_cast; omega), fun m hm => ?_⟩
      have := hcount m hm
      have := hfull.1 m hm
      simp only [length_cons]
      push_cast at *
      omega

/-! ### Pools -/

/-- The pools of distinct keys together hold no more than the list. -/
theorem flatMap_filter_subperm (key : α → κ) {ks : List κ} (hks : ks.Nodup) (l : List α) :
    (ks.flatMap fun k => l.filter fun a => key a = k).Subperm l := by
  induction ks generalizing l with
  | nil => exact nil_subperm
  | cons k ks ih =>
    obtain ⟨hk, hks⟩ := nodup_cons.mp hks
    -- The pools of the other keys only look at the items outside the first pool.
    have hothers : (ks.flatMap fun k' => l.filter fun a => key a = k') = ks.flatMap fun k' =>
          (l.filter fun a => !decide (key a = k)).filter fun a => key a = k' := by
      refine flatMap_congr fun k' hk' => ?_
      rw [filter_filter]
      refine filter_congr fun a _ => ?_
      by_cases ha : key a = k'
      · have hne : ¬ k' = k := fun h => hk (h ▸ hk')
        simp [ha, hne]
      · simp [ha]
    rw [flatMap_cons, hothers]
    have hpart := filter_append_perm (fun a => decide (key a = k)) l
    exact ((List.Subperm.refl _).append (ih hks _)).trans hpart.subperm

end Packing
