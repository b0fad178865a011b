import Mathlib

/-!
# Runs of a Step Function

A system that reacts to a list of inputs one after the other: `exec step s inputs` is the
state after all of them. Nondeterminism, faults and refused operations live in the inputs,
so a statement about every run is a statement about every list.
-/

namespace Runs

variable {σ α : Type*}

/-- The state after reacting to all inputs in order. -/
def exec (step : σ → α → σ) (s : σ) (inputs : List α) : σ := inputs.foldl step s

variable {step : σ → α → σ}

/-- A run is a run of its first part followed by one of its second part. -/
theorem exec_append (s : σ) (first second : List α) :
    exec step s (first ++ second) = exec step (exec step s first) second :=
  List.foldl_append

variable {inputs : List α} {I : σ → Prop} {s : σ}

/-- **Invariant rule.** -/
theorem exec_invariant (hinit : I s) (hstep : ∀ s a, a ∈ inputs → I s → I (step s a)) :
    I (exec step s inputs) := by
  induction inputs generalizing s with
  | nil => exact hinit
  | cons a inputs ih =>
    exact ih (hstep s a List.mem_cons_self hinit)
      fun s b hb => hstep s b (List.mem_cons_of_mem _ hb)

/-- **Invariant rule along a run**: a step may assume how the run got there. -/
theorem exec_invariant_along (hinit : I s)
    (hstep : ∀ earlier a later, inputs = earlier ++ a :: later → I (exec step s earlier) →
      I (step (exec step s earlier) a)) : I (exec step s inputs) := by
  have hall : ∀ later earlier, inputs = earlier ++ later → I (exec step s earlier) →
      I (exec step s inputs) := by
    intro later
    induction later with
    | nil =>
      rintro earlier rfl h
      rwa [List.append_nil]
    | cons a later ih =>
      intro earlier heq h
      refine ih (earlier ++ [a]) (by rw [heq, List.append_assoc]; rfl) ?_
      rw [exec_append]
      exact hstep earlier a later heq h
  exact hall inputs [] rfl hinit

/-- **Relation rule.** Every step respects `R` from a state that satisfies the invariant,
so `R` relates the ends of every run. -/
theorem exec_rel {R : σ → σ → Prop} (hinit : I s) (hinv : ∀ s a, a ∈ inputs → I s → I (step s a))
    (hrefl : ∀ s, R s s) (htrans : ∀ a b c, R a b → R b c → R a c)
    (hstep : ∀ s a, a ∈ inputs → I s → R s (step s a)) : R s (exec step s inputs) := by
  induction inputs generalizing s with
  | nil => exact hrefl s
  | cons a inputs ih =>
    refine htrans _ _ _ (hstep s a List.mem_cons_self hinit) ?_
    exact ih (hinv s a List.mem_cons_self hinit)
      (fun s b hb => hinv s b (List.mem_cons_of_mem _ hb))
      (fun s b hb => hstep s b (List.mem_cons_of_mem _ hb))

end Runs
