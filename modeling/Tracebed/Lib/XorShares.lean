import Tracebed.Lib.PyText

/-!
# Random Bytes and XOR Secret Sharing

`Tape` is the supply `os.urandom` draws from: a fixed but arbitrary infinite sequence of
bytes, so that a statement about every tape is one about every outcome of every draw. A secret is
split into `n` shares by drawing `n - 1` of them and setting the last one so that all of them
together XOR to the secret; combining needs every share (`splitShares_secret`).
-/

open List

namespace Py

/-- The bytes `os.urandom` will return, in order. -/
abbrev Tape := ℕ → UInt8

/-- `os.urandom(n)`: the next bytes of the tape, and the rest of it. -/
def urandom (n : ℕ) (t : Tape) : Bytes × Tape := ((List.range n).map t, fun i => t (n + i))

@[simp] theorem urandom_length (n : ℕ) (t : Tape) : (urandom n t).1.length = n := by
  simp [urandom]

def xorBytes (a b : Bytes) : Bytes := List.zipWith (· ^^^ ·) a b

/-- `k` draws of `n` bytes each. -/
def drawBlocks (n : ℕ) : ℕ → Tape → List Bytes × Tape
  | 0, t => ([], t)
  | k + 1, t =>
    let first := urandom n t
    let others := drawBlocks n k first.2
    (first.1 :: others.1, others.2)

/-- `n` shares of a secret; `none` when `n` is zero. -/
def splitShares (secret : Bytes) (n : ℕ) (t : Tape) : Option (List Bytes × Tape) :=
  if n < 1 then none
  else if n = 1 then some ([secret], t)
  else
    let drawn := drawBlocks secret.length (n - 1) t
    some (drawn.1 ++ [drawn.1.foldl xorBytes secret], drawn.2)

/-- XOR the shares into an accumulator; `none` on a share of another length. -/
def combineFrom (acc : Bytes) : List Bytes → Option Bytes
  | [] => some acc
  | s :: shares => if s.length ≠ acc.length then none else combineFrom (xorBytes acc s) shares

/-- XOR all shares together; `none` without a share. -/
def combineShares : List Bytes → Option Bytes
  | [] => none
  | s :: shares => combineFrom s shares

theorem xorBytes_comm (a b : Bytes) : xorBytes a b = xorBytes b a :=
  zipWith_comm_of_comm UInt8.xor_comm

theorem xorBytes_assoc (a b c : Bytes) : xorBytes (xorBytes a b) c = xorBytes a (xorBytes b c) := by
  refine ext_getElem (by simp [xorBytes]) fun i _ _ => ?_
  simp only [xorBytes, getElem_zipWith, UInt8.xor_assoc]

theorem xorBytes_right_comm (a b c : Bytes) :
    xorBytes (xorBytes a b) c = xorBytes (xorBytes a c) b := by
  rw [xorBytes_assoc, xorBytes_comm b c, ← xorBytes_assoc]

/-- XOR with the same bytes twice gives the secret back. -/
theorem xorBytes_xorBytes_cancel {a b : Bytes} (h : a.length = b.length) :
    xorBytes a (xorBytes a b) = b := by
  refine ext_getElem (by simp [xorBytes, h]) fun i _ _ => ?_
  simp only [xorBytes, getElem_zipWith]
  rw [← UInt8.xor_assoc, UInt8.xor_self, UInt8.zero_xor]

@[simp] theorem xorBytes_length {a b : Bytes} (h : a.length = b.length) :
    (xorBytes a b).length = a.length := by
  simp [xorBytes, h]

/-- XOR-ing a value in before the shares or after them is the same. -/
theorem foldl_xorBytes_xorBytes (a c : Bytes) (shares : List Bytes) :
    shares.foldl xorBytes (xorBytes a c) = xorBytes (shares.foldl xorBytes a) c := by
  induction shares generalizing a with
  | nil => rfl
  | cons s shares ih =>
    rw [foldl_cons, foldl_cons, xorBytes_right_comm, ih]

variable {shares : List Bytes}

/-- Combining shares of one length never fails. -/
theorem combineFrom_eq_foldl {acc : Bytes} (h : ∀ s ∈ shares, s.length = acc.length) :
    combineFrom acc shares = some (shares.foldl xorBytes acc) ∧
      (shares.foldl xorBytes acc).length = acc.length := by
  induction shares generalizing acc with
  | nil => exact ⟨rfl, rfl⟩
  | cons s shares ih =>
    have hs : s.length = acc.length := h s mem_cons_self
    have hx : (xorBytes acc s).length = acc.length := xorBytes_length hs.symm
    have htail : ∀ r ∈ shares, r.length = (xorBytes acc s).length := fun r hr =>
      (h r (mem_cons_of_mem _ hr)).trans hx.symm
    obtain ⟨heq, hlen⟩ := ih htail
    refine ⟨?_, ?_⟩
    · rw [combineFrom, if_neg (by simp [hs]), heq, foldl_cons]
    · rw [foldl_cons, hlen, hx]

/-- Every draw has the length asked for. -/
theorem drawBlocks_spec (n k : ℕ) (t : Tape) :
    (drawBlocks n k t).1.length = k ∧ ∀ s ∈ (drawBlocks n k t).1, s.length = n := by
  induction k generalizing t with
  | zero => exact ⟨rfl, by simp [drawBlocks]⟩
  | succ k ih =>
    obtain ⟨hlen, hall⟩ := ih (urandom n t).2
    refine ⟨by simp [drawBlocks, hlen], ?_⟩
    intro s hs
    rw [drawBlocks, mem_cons] at hs
    rcases hs with rfl | hs
    · exact urandom_length n t
    · exact hall s hs

/-- Zero bytes change nothing. -/
theorem replicate_xorBytes (a : Bytes) : xorBytes (replicate a.length 0) a = a := by
  refine ext_getElem (by simp) fun i _ _ => ?_
  simp [xorBytes]

variable {n : ℕ}

/-- Combining shares of one length XORs all of them together. -/
theorem combineShares_eq_foldl (hne : shares ≠ []) (h : ∀ s ∈ shares, s.length = n) :
    combineShares shares = some (shares.foldl xorBytes (replicate n 0)) := by
  cases shares with
  | nil => exact absurd rfl hne
  | cons s rest =>
    obtain ⟨rfl, hrest⟩ := forall_mem_cons.mp h
    rw [combineShares, (combineFrom_eq_foldl hrest).1, foldl_cons, replicate_xorBytes]

/-- The order of the shares does not matter. -/
theorem combineShares_perm {shares' : List Bytes} (h : ∀ s ∈ shares, s.length = n)
    (hperm : shares'.Perm shares) :
    combineShares shares' = combineShares shares := by
  by_cases hne : shares = []
  · subst hne
    rw [hperm.eq_nil]
  · have hne' : shares' ≠ [] := fun hnil => hne (hnil ▸ hperm).nil_eq.symm
    have h' : ∀ s ∈ shares', s.length = n := fun s hs => h s (hperm.mem_iff.mp hs)
    rw [combineShares_eq_foldl hne h, combineShares_eq_foldl hne' h',
      hperm.foldl_eq' fun x _ y _ acc => xorBytes_right_comm acc x y]

/-- **The shares of a secret combine to it**: there are as many as asked for, each as long
as the secret. -/
theorem combineShares_splitShares {secret : Bytes} {t t' : Tape}
    (h : splitShares secret n t = some (shares, t')) :
    combineShares shares = some secret ∧ shares.length = n ∧
      ∀ s ∈ shares, s.length = secret.length := by
  unfold splitShares at h
  split_ifs at h with h0 h1
  · cases h
    exact ⟨rfl, h1.symm, by simp⟩
  · cases h
    obtain ⟨hlen, hall⟩ := drawBlocks_spec secret.length (n - 1) t
    generalize (drawBlocks secret.length (n - 1) t).1 = drawn at hlen hall ⊢
    have hzero : ∀ s ∈ drawn, s.length = (replicate secret.length (0 : UInt8)).length := by
      simpa using hall
    have hlens : ∀ s ∈ drawn ++ [drawn.foldl xorBytes secret], s.length = secret.length :=
      forall_mem_append.mpr ⟨hall, forall_mem_singleton.mpr (combineFrom_eq_foldl hall).2⟩
    -- the last share is the XOR of all drawn ones, with the secret XOR-ed in
    have hlast : drawn.foldl xorBytes secret =
        xorBytes (drawn.foldl xorBytes (replicate secret.length 0)) secret := by
      rw [← foldl_xorBytes_xorBytes, replicate_xorBytes]
    refine ⟨?_, by simp; omega, hlens⟩
    rw [combineShares_eq_foldl (by simp) hlens, foldl_append, foldl_cons, foldl_nil, hlast,
      xorBytes_xorBytes_cancel]
    rw [(combineFrom_eq_foldl hzero).2, length_replicate]

/-! ### Secrecy -/

/-- The tape with every byte XOR-ed with the mask's. -/
def maskTape (m t : Tape) : Tape := fun i => t i ^^^ m i

theorem maskTape_bijective (m : Tape) : Function.Bijective (maskTape m) := by
  refine Function.Involutive.bijective fun t => funext fun i => ?_
  rw [maskTape, maskTape, UInt8.xor_assoc, UInt8.xor_self, UInt8.xor_zero]

/-- Some mask changes one block by any bytes of its length, and nothing else. -/
theorem exists_maskTape {d : Bytes} (hd : d.length = n) {k j : ℕ} (hj : j < k) :
    ∃ m, ∀ t, drawBlocks n k (maskTape m t) =
      ((drawBlocks n k t).1.modify j (xorBytes · d), (drawBlocks n k t).2) := by
  induction k generalizing j with
  | zero => omega
  | succ k ih =>
    cases j with
    | zero =>
      refine ⟨fun i => d.getD i 0, fun t => ?_⟩
      have hfirst : (urandom n (maskTape (fun i => d.getD i 0) t)).1 =
          xorBytes (urandom n t).1 d := by
        refine ext_getElem (by simp [hd]) fun i hi _ => ?_
        rw [urandom_length] at hi
        simp [urandom, maskTape, xorBytes, hd, hi]
      have hothers : (urandom n (maskTape (fun i => d.getD i 0) t)).2 = (urandom n t).2 := by
        simp [urandom, maskTape, hd]
      simp only [drawBlocks, hfirst, hothers, modify_zero_cons]
    | succ j =>
      obtain ⟨m, hm⟩ := ih (j := j) (by omega)
      refine ⟨fun i => if i < n then 0 else m (i - n), fun t => ?_⟩
      have hfirst : (urandom n (maskTape (fun i => if i < n then 0 else m (i - n)) t)).1 =
          (urandom n t).1 := by
        refine map_congr_left fun i hi => ?_
        simp [maskTape, mem_range.mp hi]
      have hothers : (urandom n (maskTape (fun i => if i < n then 0 else m (i - n)) t)).2 =
          maskTape m (urandom n t).2 := by
        funext i
        simp only [urandom, maskTape, if_neg (show ¬ n + i < n by omega), Nat.add_sub_cancel_left]
      simp only [drawBlocks, hfirst, hothers, hm, modify_succ_cons]

/-- XOR-ing something into one share XORs it into all of them together. -/
theorem foldl_modify_xorBytes (acc d : Bytes) {j : ℕ} (hj : j < shares.length) :
    (shares.modify j (xorBytes · d)).foldl xorBytes acc =
      xorBytes (shares.foldl xorBytes acc) d := by
  induction shares generalizing acc j with
  | nil => simp at hj
  | cons s shares ih =>
    cases j with
    | zero => rw [modify_zero_cons, foldl_cons, foldl_cons, ← xorBytes_assoc,
        foldl_xorBytes_xorBytes]
    | succ j => rw [modify_succ_cons, foldl_cons, foldl_cons, ih _ (by simpa using hj)]

/-- **All shares but one say nothing about the secret**: whichever share is left out, some
mask of the random bytes takes the shares of one secret to those of any other of its length,
with the share left out as the only difference. -/
theorem splitShares_secret {a b : Bytes} (hab : a.length = b.length) {j : ℕ} (hn : 2 ≤ n)
    (hj : j < n) : ∃ m, ∀ t, ∃ sa sb t', splitShares a n t = some (sa, t') ∧
      splitShares b n (maskTape m t) = some (sb, t') ∧ ∀ i, i ≠ j → sa[i]? = sb[i]? := by
  simp only [splitShares, if_neg (show ¬ n < 1 by omega), if_neg (show ¬ n = 1 by omega)]
  rcases Nat.lt_or_ge j (n - 1) with hlt | hge
  · obtain ⟨m, hm⟩ := exists_maskTape (xorBytes_length hab) hlt
    refine ⟨m, fun t => ⟨_, _, _, rfl, by rw [← hab, hm], fun i hi => ?_⟩⟩
    obtain ⟨hlen, -⟩ := drawBlocks_spec a.length (n - 1) t
    rw [foldl_modify_xorBytes _ _ (by omega), ← foldl_xorBytes_xorBytes, xorBytes_comm a b,
      xorBytes_xorBytes_cancel hab.symm, getElem?_append, getElem?_append]
    simp [hi.symm]
  · -- the last share is left out: the drawn ones do not depend on the secret
    have hmask (t : Tape) : maskTape (fun _ => 0) t = t := funext fun _ => UInt8.xor_zero
    refine ⟨fun _ => 0, fun t => ⟨_, _, _, rfl, by rw [← hab, hmask], fun i hi => ?_⟩⟩
    obtain ⟨hlen, -⟩ := drawBlocks_spec a.length (n - 1) t
    rcases Nat.lt_or_ge i (n - 1) with hi' | hi'
    · rw [getElem?_append_left (by omega), getElem?_append_left (by omega)]
    · rw [getElem?_eq_none (by simp; omega), getElem?_eq_none (by simp; omega)]

end Py
