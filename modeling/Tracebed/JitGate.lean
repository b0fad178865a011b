import Tracebed.Hotpath
import Tracebed.Lib.Runs

/-!
# The One Shot of the Just-In-Time Gate

`JitGate._claim` of `hotpath/jit.py`: a run may fire the gate once, until its idle TTL is over.
All projects of a process share one dictionary of the runs that fired, which is expired from the
oldest end with the TTL of the call at hand; so a call of a project with a short TTL can expire
the entry of a run whose own TTL is longer, and that run fires again.

## Main results

* `JitGate.claims_apart`: calls granted to a run under one TTL are that far apart, in every
  sequence of calls that spare each other's entries.
* `JitGate.claim_within_ttl`: a run that fires twice within two minutes under a TTL of an hour.
-/

open List

namespace Tracebed

/-- `_MS_PER_MINUTE`. -/
def msPerMinute : ℤ := 60000

/-- A call of `_claim`: the run, the reading of the clock and `session.idle_ttl_min`. -/
structure JitClaim where
  runId : RunId
  nowMs : ℤ
  idleTtlMin : ℤ
  deriving DecidableEq

/-- The idle TTL of a call. -/
def JitClaim.ttlMs (c : JitClaim) : ℤ := c.idleTtlMin * msPerMinute

/-- A gate: `_fired`, a dictionary in the order of its insertions, and the calls it granted. -/
structure JitGate where
  fired : List (RunId × ℤ) := []
  granted : List JitClaim := []

namespace JitGate

variable {g : JitGate} {c : JitClaim} {now : ℤ}

/-- What the expiry of a call leaves: it stops at the first entry younger than the TTL. -/
def live (fired : List (RunId × ℤ)) (c : JitClaim) : List (RunId × ℤ) :=
  fired.dropWhile fun e => e.2 ≤ c.nowMs - c.ttlMs

/-- `_claim`: the answer and the dictionary afterwards. -/
def claim (fired : List (RunId × ℤ)) (c : JitClaim) : Bool × List (RunId × ℤ) :=
  if (live fired c).any (·.1 = c.runId) then (false, live fired c)
  else (true, live fired c ++ [(c.runId, c.nowMs)])

/-- A call on a gate. -/
def step (g : JitGate) (c : JitClaim) : JitGate :=
  ⟨(claim g.fired c).2, if (claim g.fired c).1 then g.granted ++ [c] else g.granted⟩

/-- Calls granted to one run under one TTL are that far apart. -/
def Apart (granted : List JitClaim) : Prop :=
  granted.Pairwise fun first second => first.runId = second.runId →
    first.idleTtlMin = second.idleTtlMin → first.nowMs + first.ttlMs ≤ second.nowMs

/-- A call spares the entries of the other runs as long as one of their claims lasts. -/
def Spares (g : JitGate) (c : JitClaim) : Prop :=
  ∀ first ∈ g.granted, first.runId ≠ c.runId → c.nowMs < first.nowMs + first.ttlMs →
    ∀ e ∈ g.fired, e.1 = first.runId → c.nowMs < e.2 + c.ttlMs

/-- All calls of a sequence do. -/
def Sparing : JitGate → List JitClaim → Prop
  | _, [] => True
  | g, c :: calls => g.Spares c ∧ Sparing (g.step c) calls

/-! ### One call -/

/-- An entry outlives the expiry of a call if its time is not over for that call. -/
theorem mem_live {fired : List (RunId × ℤ)} {e : RunId × ℤ} (he : e ∈ fired)
    (hlive : c.nowMs < e.2 + c.ttlMs) : e ∈ live fired c := by
  rw [← takeWhile_append_dropWhile (l := fired) (p := fun e => e.2 ≤ c.nowMs - c.ttlMs),
    mem_append] at he
  refine he.resolve_left fun hdropped => ?_
  have hover : e.2 ≤ c.nowMs - c.ttlMs := by simpa using mem_takeWhile_imp hdropped
  omega

/-- Everything a call can do. -/
theorem step_cases (g : JitGate) (c : JitClaim) :
    ((∃ e ∈ live g.fired c, e.1 = c.runId) ∧ g.step c = ⟨live g.fired c, g.granted⟩) ∨
      (∀ e ∈ live g.fired c, e.1 ≠ c.runId) ∧
        g.step c = ⟨live g.fired c ++ [(c.runId, c.nowMs)], g.granted ++ [c]⟩ := by
  by_cases h : (live g.fired c).any (·.1 = c.runId) = true
  · refine .inl ⟨by simpa using h, ?_⟩
    simp only [step, claim, if_pos h, Bool.false_eq_true, if_false]
  · refine .inr ⟨fun e he hrun => h (any_eq_true.mpr ⟨e, he, decide_eq_true hrun⟩), ?_⟩
    simp [step, claim, if_neg h]

/-- What holds of a gate at a time: its entries are the last claims of their runs, and a run whose
claim lasts has an entry. -/
structure Guards (now : ℤ) (g : JitGate) : Prop where
  past : ∀ first ∈ g.granted, first.nowMs ≤ now
  latest : ∀ first ∈ g.granted, ∀ e ∈ g.fired, e.1 = first.runId → first.nowMs ≤ e.2
  lasting : ∀ first ∈ g.granted, now < first.nowMs + first.ttlMs →
    ∃ e ∈ g.fired, e.1 = first.runId
  apart : Apart g.granted

theorem Guards.mono (h : Guards now g) {later : ℤ} (hle : now ≤ later) : Guards later g where
  past := fun first hfirst => (h.past first hfirst).trans hle
  latest := h.latest
  lasting := fun first hfirst hopen => h.lasting first hfirst (by omega)
  apart := h.apart

/-- A granted call is at a distance from the earlier calls granted to its run: the entry of their
claims was over for it. -/
theorem Guards.grant (h : Guards c.nowMs g) (hnone : ∀ e ∈ live g.fired c, e.1 ≠ c.runId) :
    Apart (g.granted ++ [c]) := by
  refine pairwise_append.mpr ⟨h.apart, pairwise_singleton _ _, fun first hfirst d hd => ?_⟩
  obtain rfl := mem_singleton.mp hd
  intro hrun httl
  have hsame : first.ttlMs = d.ttlMs := by rw [JitClaim.ttlMs, JitClaim.ttlMs, httl]
  by_contra hopen
  obtain ⟨e, he, hkey⟩ := h.lasting first hfirst (by omega)
  have hlater := h.latest first hfirst e he hkey
  exact hnone e (mem_live he (by omega)) (hkey.trans hrun)

/-- **A call that spares the entries of the others keeps what holds of a gate.** -/
theorem Guards.step (h : Guards c.nowMs g) (hspares : g.Spares c) : Guards c.nowMs (g.step c) := by
  have hsub : ∀ e ∈ live g.fired c, e ∈ g.fired := fun e he => (dropWhile_sublist _).subset he
  have hkept : ∀ first ∈ g.granted, first.runId ≠ c.runId →
      c.nowMs < first.nowMs + first.ttlMs → ∃ e ∈ live g.fired c, e.1 = first.runId := by
    intro first hfirst hrun hopen
    obtain ⟨e, he, hkey⟩ := h.lasting first hfirst hopen
    exact ⟨e, mem_live he (hspares first hfirst hrun hopen e he hkey), hkey⟩
  rcases step_cases g c with ⟨hown, heq⟩ | ⟨hnone, heq⟩
  · rw [heq]
    refine ⟨h.past, fun first hfirst e he => h.latest first hfirst e (hsub e he), ?_, h.apart⟩
    intro first hfirst hopen
    by_cases hrun : first.runId = c.runId
    · exact hrun ▸ hown
    · exact hkept first hfirst hrun hopen
  · rw [heq]
    refine ⟨?_, ?_, ?_, h.grant hnone⟩
    · simpa [or_imp, forall_and] using h.past
    · intro first hfirst e he hkey
      rcases mem_append.mp he with he | he
      · rcases mem_append.mp hfirst with hfirst | hfirst
        · exact h.latest first hfirst e (hsub e he) hkey
        · exact absurd (hkey.trans (by rw [mem_singleton.mp hfirst])) (hnone e he)
      · rw [mem_singleton.mp he]
        rcases mem_append.mp hfirst with hfirst | hfirst
        · exact h.past first hfirst
        · rw [mem_singleton.mp hfirst]
    · intro first hfirst hopen
      by_cases hrun : first.runId = c.runId
      · exact ⟨_, mem_append_right _ mem_cons_self, hrun.symm⟩
      · rcases mem_append.mp hfirst with hfirst | hfirst
        · obtain ⟨e, he, hkey⟩ := hkept first hfirst hrun hopen
          exact ⟨e, mem_append_left _ he, hkey⟩
        · exact absurd (by rw [mem_singleton.mp hfirst]) hrun

/-! ### Every sequence of calls -/

theorem Guards.exec (h : Guards now g) {calls : List JitClaim}
    (hclock : (now :: calls.map JitClaim.nowMs).Pairwise (· ≤ ·)) (hspares : Sparing g calls) :
    Apart (Runs.exec JitGate.step g calls).granted := by
  induction calls generalizing g now with
  | nil => exact h.apart
  | cons c calls ih =>
    have hle : now ≤ c.nowMs := rel_of_pairwise_cons hclock mem_cons_self
    exact ih ((h.mono hle).step hspares.1) (Pairwise.of_cons hclock) hspares.2

/-- **One shot for the time of its TTL.** Calls granted to a run under one TTL are that far apart,
if no call expires the entry of another run as long as a claim of that run lasts. -/
theorem claims_apart {calls : List JitClaim}
    (hclock : (calls.map JitClaim.nowMs).Pairwise (· ≤ ·)) (hspares : Sparing {} calls) :
    Apart (Runs.exec step {} calls).granted := by
  cases calls with
  | nil => exact Pairwise.nil
  | cons c calls =>
    have hstart : Guards c.nowMs {} := ⟨by simp, by simp, by simp, Pairwise.nil⟩
    exact hstart.exec (pairwise_cons.mpr ⟨by simpa using (pairwise_cons.mp hclock).1, hclock⟩)
      hspares

/-- A run fires again when its hour is over, and another one under the same TTL between. -/
theorem claims_apart_hour : Apart (Runs.exec step {}
    [⟨⟨⟨1⟩⟩, 0, 60⟩, ⟨⟨⟨2⟩⟩, 120000, 60⟩, ⟨⟨⟨1⟩⟩, 3600000, 60⟩]).granted :=
  claims_apart (by decide) (by simp [Sparing, Spares, step, claim, live, JitClaim.ttlMs,
    msPerMinute])

/-- Two projects with TTLs of an hour and of a minute: the call of the second expires the entry of
the first, and the same run fires twice within two minutes. -/
theorem claim_within_ttl :
    ([0, 120000, 120000] : List ℤ).Pairwise (· ≤ ·) ∧ ¬ Apart (Runs.exec step {}
      [⟨⟨⟨1⟩⟩, 0, 60⟩, ⟨⟨⟨2⟩⟩, 120000, 1⟩, ⟨⟨⟨1⟩⟩, 120000, 60⟩]).granted := by
  simp [Apart, Runs.exec, step, claim, live, JitClaim.ttlMs, msPerMinute]

end JitGate

end Tracebed
