import Tracebed.Lib.Interaction
import Tracebed.Lib.Runs

/-!
# Programs That Share One Environment

A pool is any number of programs over one shared state. A move lets one program make its next
call, or changes the shared state from outside; a call may be refused for now, which is how a
program waits for a lock. A run is a list of moves, so a statement about every list is one about
every interleaving.

`Safe` says that whatever the others do within the rely `R`, each call of the program keeps the
invariant and stays within the guarantee `G`, and its end satisfies the postcondition. If the
guarantee of each program is within the rely of every other one, this holds in every run of the
pool (`run_safe`).
-/

universe u v w

namespace Interaction

variable {ι : Type*} {κ : Type u} {ρ : κ → Type v} {α β : Type w} {σ χ ω : Type*}

/-- How the shared state answers a call of a program; `none` makes the program wait. -/
abbrev Serve (ι : Type*) (κ : Type u) (ρ : κ → Type v) (σ χ : Type*) :=
  ι → χ → σ → (c : κ) → Option (ρ c × σ)

/-- Programs with the state they share. -/
structure Pool (ι : Type*) (κ : Type u) (ρ : κ → Type v) (α : Type w) (σ : Type*) where
  programs : ι → Interaction κ ρ α
  shared : σ

/-- What happens next: a program moves, or the shared state changes from outside. -/
inductive Move (ι χ ω : Type*) where
  | program (i : ι) (x : χ)
  | world (w : ω)

/-- The pool after a move. -/
def Pool.step [DecidableEq ι] (serve : Serve ι κ ρ σ χ) (drift : ω → σ → σ)
    (p : Pool ι κ ρ α σ) : Move ι χ ω → Pool ι κ ρ α σ
  | .program i x =>
    match p.programs i with
    | .call c next =>
      match serve i x p.shared c with
      | some (r, s) => ⟨Function.update p.programs i (next r), s⟩
      | none => p
    | _ => p
  | .world w => { p with shared := drift w p.shared }

/-! ### One program under interference -/

/-- What the others may do between two moves of a program. -/
structure Rely (σ : Type*) where
  rel : σ → σ → Prop
  refl : ∀ s, rel s s
  trans : ∀ {a b c}, rel a b → rel b c → rel a c

instance : CoeFun (Rely σ) fun _ => σ → σ → Prop := ⟨Rely.rel⟩

/-- What the others cannot break. -/
def Rely.Stable (R : Rely σ) (P : σ → Prop) : Prop := ∀ ⦃s t⦄, R s t → P s → P t

theorem Rely.Stable.and {R : Rely σ} {P P' : σ → Prop} (h : R.Stable P) (h' : R.Stable P') :
    R.Stable fun s => P s ∧ P' s :=
  fun _ _ hR hs => ⟨h hR hs.1, h' hR hs.2⟩

section Safe

variable (serve : Serve ι κ ρ σ χ) (i : ι) (I : σ → Prop) (R : Rely σ) (G : σ → σ → Prop)

/-- Whatever the others do within `R`, every call of the program keeps `I` and stays within `G`,
and at its end `Q` holds and goes on to hold. -/
def Safe : Interaction κ ρ α → (α → σ → Prop) → σ → Prop
  | .done a, Q, s => ∀ s', R s s' → Q a s'
  | .cut, _, _ => True
  | .call c next, Q, s => ∀ s', R s s' → I s' → ∀ x r t, serve i x s' c = some (r, t) →
      I t ∧ G s' t ∧ Safe (next r) Q t

variable {serve i I R G}

variable {p : Interaction κ ρ α}

theorem Safe.rely {Q : α → σ → Prop} {s s' : σ} (h : Safe serve i I R G p Q s) (hR : R s s') :
    Safe serve i I R G p Q s' := by
  cases p with
  | done a => exact fun t ht => h t (R.trans hR ht)
  | cut => trivial
  | call c next => exact fun t ht => h t (R.trans hR ht)

/-- A weaker postcondition is owed too. -/
theorem Safe.mono {Q Q' : α → σ → Prop} {s : σ} (h : Safe serve i I R G p Q s)
    (hQ : ∀ a s, Q a s → Q' a s) : Safe serve i I R G p Q' s := by
  induction p generalizing s with
  | done a => exact fun t ht => hQ a t (h t ht)
  | cut => trivial
  | call c next ih =>
    intro s' hR hI x r t ht
    obtain ⟨hIt, hG, hnext⟩ := h s' hR hI x r t ht
    exact ⟨hIt, hG, ih r hnext⟩

theorem safe_bind_eq (p : Interaction κ ρ α) (f : α → Interaction κ ρ β) (Q : β → σ → Prop)
    (s : σ) : Safe serve i I R G (p.bind f) Q s ↔
      Safe serve i I R G p (fun a s => Safe serve i I R G (f a) Q s) s := by
  induction p generalizing s with
  | done a => exact ⟨fun h t ht => h.rely ht, fun h => h s (R.refl s)⟩
  | cut => exact Iff.rfl
  | call c next ih =>
    refine forall_congr' fun s' => forall_congr' fun _ => forall_congr' fun _ =>
      forall_congr' fun x => forall_congr' fun r => forall_congr' fun t =>
        forall_congr' fun _ => ?_
    rw [ih]

end Safe

/-! ### Runs of a pool -/

section Pool

variable {serve : Serve ι κ ρ σ χ} {drift : ω → σ → σ} {I : σ → Prop} {R : ι → Rely σ}
  {G : ι → σ → σ → Prop} {Q : ι → α → σ → Prop} {p : Pool ι κ ρ α σ}

/-- A pool in which the invariant holds and every program is safe. -/
def Pool.IsSafe (serve : Serve ι κ ρ σ χ) (I : σ → Prop) (R : ι → Rely σ) (G : ι → σ → σ → Prop)
    (Q : ι → α → σ → Prop) (p : Pool ι κ ρ α σ) : Prop :=
  I p.shared ∧ ∀ i, Safe serve i I (R i) (G i) (p.programs i) (Q i) p.shared

theorem Pool.IsSafe.post (h : p.IsSafe serve I R G Q) {i : ι} {a : α}
    (hdone : p.programs i = .done a) : Q i a p.shared := by
  have hi := h.2 i
  rw [hdone] at hi
  exact hi _ ((R i).refl _)

variable [DecidableEq ι]

/-- A move keeps a pool safe. -/
theorem Pool.IsSafe.step (hothers : ∀ i j s t, i ≠ j → I s → G i s t → R j s t)
    (hdrift : ∀ w s, I s → I (drift w s) ∧ ∀ i, R i s (drift w s))
    (h : p.IsSafe serve I R G Q) (m : Move ι χ ω) :
    (p.step serve drift m).IsSafe serve I R G Q := by
  cases m with
  | world w =>
    obtain ⟨hI, hR⟩ := hdrift w p.shared h.1
    exact ⟨hI, fun i => (h.2 i).rely (hR i)⟩
  | program i x =>
    rw [Pool.step]
    split
    · next c next hp =>
      split
      · next r s hserve =>
        have hi := h.2 i
        rw [hp] at hi
        obtain ⟨hI, hG, hnext⟩ := hi p.shared ((R i).refl _) h.1 x r s hserve
        refine ⟨hI, fun j => ?_⟩
        dsimp only
        by_cases hj : j = i
        · subst hj
          rw [Function.update_self]
          exact hnext
        · rw [Function.update_of_ne hj]
          exact (h.2 j).rely (hothers i j _ _ (Ne.symm hj) h.1 hG)
      · exact h
    · exact h

/-- **Every run of a pool is safe** if every program is safe under what the others guarantee. -/
theorem run_safe (hothers : ∀ i j s t, i ≠ j → I s → G i s t → R j s t)
    (hdrift : ∀ w s, I s → I (drift w s) ∧ ∀ i, R i s (drift w s))
    (h : p.IsSafe serve I R G Q) (moves : List (Move ι χ ω)) :
    (Runs.exec (Pool.step serve drift) p moves).IsSafe serve I R G Q :=
  Runs.exec_invariant (I := Pool.IsSafe serve I R G Q) h fun _ m _ hp =>
    hp.step hothers hdrift m

end Pool

/-! ### Routines -/

namespace Routine

variable {ε τ : Type v} {α β : Type v}

section Rules

variable (serve : Serve ι κ (fun c => Except ε (ρ c)) σ χ) (i : ι) (I : σ → Prop) (R : Rely σ)
  (G : σ → σ → Prop)

/-- A routine is safe under interference, over the result and its locals. -/
def safe (p : Routine κ ρ ε τ α) (l : τ) (Q : Except ε α → τ → σ → Prop) (s : σ) : Prop :=
  Safe serve i I R G (p l) (fun r s => Q r.1 r.2 s) s

variable {serve i I R G} {l : τ} {s : σ}

theorem safe_mono {p : Routine κ ρ ε τ α} {Q Q' : Except ε α → τ → σ → Prop}
    (h : safe serve i I R G p l Q s) (hQ : ∀ r l s, Q r l s → Q' r l s) :
    safe serve i I R G p l Q' s :=
  Safe.mono h fun r s => hQ r.1 r.2 s

theorem safe_bind {p : Routine κ ρ ε τ α} {f : α → Routine κ ρ ε τ β}
    {Q : Except ε β → τ → σ → Prop} :
    safe serve i I R G (p >>= f) l Q s ↔ safe serve i I R G p l (fun r l s =>
      match r with
      | .ok a => safe serve i I R G (f a) l Q s
      | .error e => ∀ s', R s s' → Q (.error e) l s') s := by
  refine (safe_bind_eq (p l) _ _ s).trans ?_
  refine iff_of_eq (congrArg (fun Q => Safe serve i I R G (p l) Q s) ?_)
  refine funext fun r => funext fun s => ?_
  obtain ⟨a | e, l⟩ := r <;> rfl

theorem safe_tryCatch {p : Routine κ ρ ε τ α} {f : ε → Routine κ ρ ε τ α}
    {Q : Except ε α → τ → σ → Prop} :
    safe serve i I R G (tryCatch p f) l Q s ↔ safe serve i I R G p l (fun r l s =>
      match r with
      | .ok a => ∀ s', R s s' → Q (.ok a) l s'
      | .error e => safe serve i I R G (f e) l Q s) s := by
  refine (safe_bind_eq (p l) _ _ s).trans ?_
  refine iff_of_eq (congrArg (fun Q => Safe serve i I R G (p l) Q s) ?_)
  refine funext fun r => funext fun s => ?_
  obtain ⟨a | e, l⟩ := r <;> rfl

/-! ### Triples -/

variable (serve i I R G) in
/-- From every state with `P` the routine is safe and ends with `Q`. -/
def Meets (P : σ → Prop) (p : Routine κ ρ ε PUnit α) (Q : Except ε α → σ → Prop) : Prop :=
  ∀ s, P s → safe serve i I R G p ⟨⟩ (fun r _ s => Q r s) s

variable {P P' : σ → Prop}

theorem meets_pure {a : α} {Q : Except ε α → σ → Prop} (hP : R.Stable P)
    (h : ∀ s, P s → Q (.ok a) s) : Meets serve i I R G P (pure a) Q :=
  fun _ hs s' hR => h s' (hP hR hs)

theorem meets_throw {e : ε} {Q : Except ε α → σ → Prop} (hP : R.Stable P)
    (h : ∀ s, P s → Q (.error e) s) : Meets serve i I R G P (throw e) Q :=
  fun _ hs s' hR => h s' (hP hR hs)

/-- A call keeps the invariant, stays within the guarantee and leads to the postcondition. -/
theorem meets_perform {c : κ} {Q : Except ε (ρ c) → σ → Prop} (hP : R.Stable P)
    (hQ : ∀ r, R.Stable (Q r)) (hstep : ∀ s, P s → I s → ∀ x r t, serve i x s c = some (r, t) →
      I t ∧ G s t ∧ Q r t) : Meets serve i I R G P (perform c) Q := by
  intro s hs s' hR hI x r t ht
  obtain ⟨hIt, hG, hQt⟩ := hstep s' (hP hR hs) hI x r t ht
  exact ⟨hIt, hG, fun t' ht' => hQ r ht' hQt⟩

variable {p : Routine κ ρ ε PUnit α} {f : α → Routine κ ρ ε PUnit β}

/-- One routine after another; what the first one raises is raised. -/
theorem meets_bind {Q : Except ε α → σ → Prop} {Q' : Except ε β → σ → Prop}
    (hp : Meets serve i I R G P p Q) (hf : ∀ a, Meets serve i I R G (Q (.ok a)) (f a) Q')
    (herror : ∀ e, R.Stable (Q' (.error e))) (hraise : ∀ e s, Q (.error e) s → Q' (.error e) s) :
    Meets serve i I R G P (p >>= f) Q' := by
  intro s hs
  rw [safe_bind]
  refine safe_mono (hp s hs) fun r l s hr => ?_
  match r with
  | .ok a => exact hf a s hr
  | .error e => exact fun s' hR => herror e hR (hraise e s hr)

/-- A handler takes over what is raised. -/
theorem meets_tryCatch {f : ε → Routine κ ρ ε PUnit α} {Q Q' : Except ε α → σ → Prop}
    (hp : Meets serve i I R G P p Q) (hf : ∀ e, Meets serve i I R G (Q (.error e)) (f e) Q')
    (hok : ∀ a, R.Stable (Q' (.ok a))) (hreturn : ∀ a s, Q (.ok a) s → Q' (.ok a) s) :
    Meets serve i I R G P (tryCatch p f) Q' := by
  intro s hs
  rw [safe_tryCatch]
  refine safe_mono (hp s hs) fun r l s hr => ?_
  match r with
  | .ok a => exact fun s' hR => hok a hR (hreturn a s hr)
  | .error e => exact hf e s hr

/-! ### Triples about what is returned -/

/-- What holds when a routine returns; nothing is said about what it raises. -/
def Returning (Q : α → σ → Prop) : Except ε α → σ → Prop
  | .ok a, s => Q a s
  | .error _, _ => True

variable (serve i I R G) in
/-- From every state with `P` the routine is safe, and what it returns satisfies `Q`. -/
def Ensures (P : σ → Prop) (p : Routine κ ρ ε PUnit α) (Q : α → σ → Prop) : Prop :=
  Meets serve i I R G P p (Returning Q)

theorem returning_stable {Q : α → σ → Prop} (hQ : ∀ a, R.Stable (Q a)) (r : Except ε α) :
    R.Stable (Returning Q r) := by
  intro s t hR h
  cases r with
  | ok a => exact hQ a hR h
  | error e => trivial

theorem ensures_pure {a : α} {Q : α → σ → Prop} (hP : R.Stable P) (h : ∀ s, P s → Q a s) :
    Ensures serve i I R G P (pure a : Routine κ ρ ε PUnit α) Q :=
  meets_pure hP h

theorem ensures_throw {e : ε} {Q : α → σ → Prop} :
    Ensures serve i I R G P (throw e : Routine κ ρ ε PUnit α) Q :=
  fun _ _ _ _ => trivial

theorem ensures_perform {c : κ} {Q : ρ c → σ → Prop} (hP : R.Stable P)
    (hQ : ∀ a, R.Stable (Q a)) (hstep : ∀ s, P s → I s → ∀ x r t, serve i x s c = some (r, t) →
      I t ∧ G s t ∧ Returning Q r t) :
    Ensures serve i I R G P (perform c : Routine κ ρ ε PUnit (ρ c)) Q :=
  meets_perform hP (returning_stable hQ) hstep

theorem ensures_bind {Q : α → σ → Prop} {Q' : β → σ → Prop} (hp : Ensures serve i I R G P p Q)
    (hf : ∀ a, Ensures serve i I R G (Q a) (f a) Q') : Ensures serve i I R G P (p >>= f) Q' :=
  meets_bind hp hf (fun _ _ _ _ _ => trivial) fun _ _ _ => trivial

/-- A precondition that does not speak of the state is a hypothesis. -/
theorem ensures_assuming {φ : Prop} {Q : α → σ → Prop} (h : φ → Ensures serve i I R G P p Q) :
    Ensures serve i I R G (fun s => P s ∧ φ) p Q :=
  fun s hs => h hs.2 s hs.1

theorem ensures_cleanup {cleanup : Routine κ ρ ε PUnit β} {Q : α → σ → Prop}
    (hp : Ensures serve i I R G P p Q) (hQ : ∀ a, R.Stable (Q a))
    (hcleanup : Ensures serve i I R G (fun _ => True) cleanup fun _ _ => True) :
    Ensures serve i I R G P (tryCatch p fun e => do let _ ← cleanup; throw e) Q :=
  meets_tryCatch hp (fun _ => ensures_bind hcleanup fun _ => ensures_throw) hQ fun _ _ h => h

theorem Ensures.consequence {Q Q' : α → σ → Prop} (h : Ensures serve i I R G P p Q)
    (hP : ∀ s, P' s → P s) (hQ : ∀ a s, Q a s → Q' a s) :
    Ensures serve i I R G P' p Q' := by
  refine fun s hs => safe_mono (h s (hP s hs)) fun r _ s hr => ?_
  cases r with
  | ok a => exact hQ a s hr
  | error e => trivial

end Rules

end Routine

end Interaction
