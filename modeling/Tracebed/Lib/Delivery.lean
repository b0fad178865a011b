import Mathlib

/-!
# Items Delivered Under Leases

An item waits in a queue, is handed out under a lease, and leaves the queue once: it is
acknowledged, rejected, or given up after it was handed out too often. Every hand-out has the next
number. What a holder says counts under the number and the lease it was given, and only while no
later hand-out or release has taken their place. Every step keeps the record of an item in
agreement with its place (`Recorded.step`).
-/

open List

namespace Delivery

variable {τ : Type*}

/-- Where an item is. -/
inductive Place (τ : Type*) where
  | queued (attempts : ℕ) (lease : Option τ)
  | dead
  | acknowledged

/-- What is put on record about an item. -/
inductive Deed (τ : Type*) where
  | handed (attempts : ℕ) (lease : τ)
  | nacked (attempts : ℕ) (lease : τ)
  | acked (attempts : ℕ) (lease : τ)
  | rejected (attempts : ℕ) (lease : τ)

/-- The item was handed out. -/
def Deed.isHanded : Deed τ → Bool
  | handed _ _ => true
  | _ => false

variable [LinearOrder τ]

/-- No lease is running. -/
def IsFree (now : τ) (lease : Option τ) : Prop := ∀ e ∈ lease, e < now

/-- What may happen to an item, with what is put on record. An item that was handed out more
often than its limit is given up, not handed out again. -/
inductive Step (limit : ℕ) (now : τ) : Place τ → Deed τ → Place τ → Prop
  | hand {n : ℕ} {lease : Option τ} (e : τ) (hn : n ≤ limit) (hfree : IsFree now lease) :
      Step limit now (.queued n lease) (.handed (n + 1) e) (.queued (n + 1) (some e))
  | nack (n : ℕ) (e : τ) : Step limit now (.queued n (some e)) (.nacked n e) (.queued n none)
  | ack (n : ℕ) (e : τ) : Step limit now (.queued n (some e)) (.acked n e) .acknowledged
  | reject (n : ℕ) (e : τ) : Step limit now (.queued n (some e)) (.rejected n e) .dead

/-- The record of an item agrees with its place: its hand-outs are numbered, and each of them is
over or is the present one. -/
structure Recorded (limit : ℕ) (now : τ) (past : List (Deed τ)) (place : Place τ) : Prop where
  handed_le : past.countP Deed.isHanded ≤ limit + 1
  count : ∀ n lease, place = .queued n lease → past.countP Deed.isHanded = n
  ended : ∀ n e, .handed n e ∈ past → .nacked n e ∈ past ∨ e < now ∨
    ∀ m lease, place = .queued m lease → m = n ∧ lease = some e
  acked : (∃ n e, .acked n e ∈ past) ↔ place = .acknowledged

namespace Recorded

variable {limit : ℕ} {now now' : τ} {past : List (Deed τ)} {place place' : Place τ}

theorem start (limit : ℕ) (now : τ) : Recorded limit now [] (.queued 0 none) where
  handed_le := Nat.zero_le _
  count := fun _ _ h => (Place.queued.inj h).1
  ended := nofun
  acked := ⟨fun ⟨_, _, h⟩ => (nomatch h), nofun⟩

/-- What was over stays over. -/
theorem later (h : Recorded limit now past place) (hle : now ≤ now') :
    Recorded limit now' past place :=
  { h with ended := fun n e hn => (h.ended n e hn).imp id (.imp (lt_of_lt_of_le · hle) id) }

variable {lease : Option τ} {n : ℕ}

theorem give_up (h : Recorded limit now past (.queued n lease)) :
    Recorded limit now past .dead where
  handed_le := h.handed_le
  count := nofun
  ended := fun m e hm => (h.ended m e hm).imp id (.imp id nofun)
  acked := ⟨fun hacked => (nomatch h.acked.mp hacked), nofun⟩

/-- **A second hand-out waits** until the lease of every earlier one has ended or was given
back. -/
theorem spaced {m : ℕ} {e : τ} (h : Recorded limit now past (.queued m lease))
    (hfree : IsFree now lease) (hn : .handed n e ∈ past) : .nacked n e ∈ past ∨ e < now := by
  by_contra hcon
  rw [not_or] at hcon
  obtain ⟨-, rfl⟩ := ((h.ended _ e hn).resolve_left hcon.1).resolve_left hcon.2 _ _ rfl
  exact hcon.2 (hfree e rfl)

variable {deed : Deed τ}

/-- What the holder says under its number and its lease ends the hand-out. -/
theorem settle {e : τ} (h : Recorded limit now past (.queued n (some e)))
    (hdeed : deed.isHanded = false)
    (hplace : place' = .queued n none ∧ deed = .nacked n e ∨ ∀ m lease, place' ≠ .queued m lease)
    (hacked : (∃ m f, deed = .acked m f) ↔ place' = .acknowledged) :
    Recorded limit now (past ++ [deed]) place' := by
  have hcount : (past ++ [deed]).countP Deed.isHanded = past.countP Deed.isHanded := by
    rw [countP_append, countP_singleton, hdeed]
    rfl
  have hn : past.countP Deed.isHanded = n := h.count n (some e) rfl
  refine ⟨hcount ▸ h.handed_le, fun m lease heq => ?_, fun m f hm => ?_, ?_⟩
  · rcases hplace with ⟨rfl, -⟩ | hgone
    · rw [hcount, hn]
      exact (Place.queued.inj heq).1
    · exact absurd heq (hgone m lease)
  · have hold : .handed m f ∈ past := by
      rcases mem_append.mp hm with hm | hm
      · exact hm
      · rw [← mem_singleton.mp hm] at hdeed
        cases hdeed
    rcases h.ended m f hold with hnack | hlate | hpresent
    · exact .inl (mem_append_left _ hnack)
    · exact .inr (.inl hlate)
    · obtain ⟨rfl, heq⟩ := hpresent n (some e) rfl
      cases heq
      rcases hplace with ⟨-, rfl⟩ | hgone
      · exact .inl (mem_append_right _ mem_cons_self)
      · exact .inr (.inr fun k lease hk => absurd hk (hgone k lease))
  · rw [← hacked]
    constructor
    · rintro ⟨m, f, hm⟩
      rcases mem_append.mp hm with hm | hm
      · exact nomatch h.acked.mp ⟨m, f, hm⟩
      · exact ⟨m, f, (mem_singleton.mp hm).symm⟩
    · rintro ⟨m, f, rfl⟩
      exact ⟨m, f, mem_append_right _ mem_cons_self⟩

/-- The next hand-out. -/
theorem hand (h : Recorded limit now past (.queued n lease)) (hn : n ≤ limit)
    (hfree : IsFree now lease) (e : τ) :
    Recorded limit now (past ++ [.handed (n + 1) e]) (.queued (n + 1) (some e)) := by
  have hcount : (past ++ [Deed.handed (n + 1) e]).countP Deed.isHanded = n + 1 := by
    rw [countP_append, h.count n lease rfl]
    rfl
  refine ⟨by omega, fun m l heq => hcount.trans (Place.queued.inj heq).1, fun m f hm => ?_,
    ⟨?_, nofun⟩⟩
  · rcases mem_append.mp hm with hm | hm
    · rcases h.spaced hfree hm with hnack | hlate
      · exact .inl (mem_append_left _ hnack)
      · exact .inr (.inl hlate)
    · obtain ⟨rfl, rfl⟩ := Deed.handed.inj (mem_singleton.mp hm)
      refine .inr (.inr fun m lease heq => ?_)
      obtain ⟨rfl, rfl⟩ := Place.queued.inj heq
      exact ⟨rfl, rfl⟩
  · rintro ⟨m, f, hm⟩
    rcases mem_append.mp hm with hm | hm
    · exact nomatch h.acked.mp ⟨m, f, hm⟩
    · exact nomatch mem_singleton.mp hm

/-- **A step keeps the record in agreement with the place.** -/
theorem step (h : Recorded limit now past place) (hstep : Step limit now place deed place') :
    Recorded limit now (past ++ [deed]) place' := by
  cases hstep with
  | hand e hn hfree => exact h.hand hn hfree e
  | nack n e =>
    exact h.settle rfl (.inl ⟨rfl, rfl⟩)
      ⟨fun ⟨_, _, heq⟩ => (nomatch heq), nofun⟩
  | ack n e =>
    exact h.settle rfl (.inr nofun) ⟨fun _ => rfl, fun _ => ⟨n, e, rfl⟩⟩
  | reject n e =>
    exact h.settle rfl (.inr nofun)
      ⟨fun ⟨_, _, heq⟩ => (nomatch heq), nofun⟩

end Recorded

end Delivery
