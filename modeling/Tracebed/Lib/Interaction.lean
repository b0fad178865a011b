import Mathlib

/-!
# Programs That Call Their Environment

`Interaction κ ρ α` is a program whose only effects are calls: it makes a call `c : κ`, is
answered with a value of `ρ c` and goes on, until it is done or cut off. Nothing is said about
the environment, so a statement about the tree of a program holds whatever is answered.

`Routine κ ρ ε σ α` adds local variables `σ` and exceptions `ε`. The locals survive an exception,
as they do where a `try` block is left. An endless loop is `loop`, which is cut off when its fuel
runs out. What the weakest precondition of a routine promises holds of every run against every
environment (`exec_allowed`, `exec_outcome`).

A session of a transactional store has a committed state and the state its open transaction works
on. `transaction` commits what a block leaves, or discards it where the block raises; `savepoint`
undoes a block inside a transaction and returns its exception as a value.
-/

universe u v w

/-- A program whose effects are calls `c : κ` answered in `ρ c`. -/
inductive Interaction (κ : Type u) (ρ : κ → Type v) (α : Type w) where
  | done (a : α)
  | cut
  | call (c : κ) (next : ρ c → Interaction κ ρ α)

namespace Interaction

section Trees

variable {κ : Type u} {ρ : κ → Type v}

/-- A program followed by another one. -/
def bind {α : Type w} {β : Type w} (p : Interaction κ ρ α) (f : α → Interaction κ ρ β) :
    Interaction κ ρ β :=
  match p with
  | done a => f a
  | cut => cut
  | call c next => call c fun r => (next r).bind f

instance : Monad (Interaction κ ρ) where
  pure := done
  bind := bind

/-- A call with its answer. -/
abbrev Event (κ : Type u) (ρ : κ → Type v) := (c : κ) × ρ c

/-- What a run leaves: its result unless it was cut off, its calls with their answers, and the
state of the environment. -/
structure Run (κ : Type u) (ρ : κ → Type v) (σ : Type*) (α : Type w) where
  outcome : Option α
  trace : List (Event κ ρ)
  state : σ

/-- The run of a program against an environment. -/
def exec {σ : Type*} {α : Type w} (env : σ → (c : κ) → ρ c × σ) :
    Interaction κ ρ α → σ → Run κ ρ σ α
  | done a, s => ⟨some a, [], s⟩
  | cut, s => ⟨none, [], s⟩
  | call c next, s =>
    let (r, s') := env s c
    let run := exec env (next r) s'
    { run with trace := ⟨c, r⟩ :: run.trace }

variable {α β : Type w}

/-- After the history `h`, every call of the program is allowed by what was called before it,
and at its end the postcondition holds of the result and the history; a program that is cut
off owes `K`. -/
def wp (allowed : List (Event κ ρ) → κ → Prop) (K : List (Event κ ρ) → Prop) :
    Interaction κ ρ α → List (Event κ ρ) → (α → List (Event κ ρ) → Prop) → Prop
  | done a, h, Q => Q a h
  | cut, h, _ => K h
  | call c next, h, Q => allowed h c ∧ ∀ r, wp allowed K (next r) (h ++ [⟨c, r⟩]) Q

variable {allowed : List (Event κ ρ) → κ → Prop} {K : List (Event κ ρ) → Prop}

theorem wp_bind_eq (p : Interaction κ ρ α) (f : α → Interaction κ ρ β) (h : List (Event κ ρ))
    (Q : β → List (Event κ ρ) → Prop) : wp allowed K (p.bind f) h Q ↔
      wp allowed K p h fun a h => wp allowed K (f a) h Q := by
  induction p generalizing h with
  | done a | cut => rfl
  | call c next ih => exact and_congr_right fun _ => forall_congr' fun r => ih r _

variable {p : Interaction κ ρ α} {h : List (Event κ ρ)} {Q : α → List (Event κ ρ) → Prop}

theorem wp_mono_post {Q' : α → List (Event κ ρ) → Prop} (hp : wp allowed K p h Q)
    (hQ : ∀ a h, Q a h → Q' a h) : wp allowed K p h Q' := by
  induction p generalizing h with
  | done a => exact hQ a h hp
  | cut => exact hp
  | call c next ih => exact ⟨hp.1, fun r => ih r (hp.2 r)⟩

variable {σ : Type*} {env : σ → (c : κ) → ρ c × σ}

/-- **Every call of a run is allowed after the calls before it.** -/
theorem exec_allowed (hp : wp allowed K p h Q) (s : σ) {before after : List (Event κ ρ)} {c : κ}
    {r : ρ c} (htrace : (exec env p s).trace = before ++ ⟨c, r⟩ :: after) :
    allowed (h ++ before) c := by
  induction p generalizing h s before with
  | done a | cut => exact absurd htrace.symm (by simp [exec])
  | call d next ih =>
    cases before with
    | nil =>
      obtain ⟨heq, -⟩ := List.cons.inj htrace
      obtain rfl : d = c := congrArg Sigma.fst heq
      rw [List.append_nil]
      exact hp.1
    | cons e before =>
      obtain ⟨rfl, htail⟩ := List.cons.inj htrace
      have := ih _ (hp.2 (env s d).1) (env s d).2 htail
      rwa [List.append_assoc] at this

variable (env) in
/-- **The end of a run satisfies the postcondition.** -/
theorem exec_outcome (hp : wp allowed K p h Q) (s : σ) :
    match (exec env p s).outcome with
    | some a => Q a (h ++ (exec env p s).trace)
    | none => K (h ++ (exec env p s).trace) := by
  induction p generalizing h s with
  | done a | cut =>
    simp only [exec, List.append_nil]
    exact hp
  | call d next ih =>
    have := ih _ (hp.2 (env s d).1) (env s d).2
    simpa only [exec, List.append_assoc, List.singleton_append] using this

/-- What a program comes to against an environment, and the state of that after it. -/
def result (env : σ → (c : κ) → ρ c × σ) (p : Interaction κ ρ α) (s : σ) : Option (α × σ) :=
  (exec env p s).outcome.map fun a => (a, (exec env p s).state)

theorem result_bind (p : Interaction κ ρ α) (f : α → Interaction κ ρ β) (s : σ) :
    result env (p.bind f) s = (result env p s).bind fun r => result env (f r.1) r.2 := by
  induction p generalizing s with
  | done a | cut => rfl
  | call c next ih => exact ih (env s c).1 (env s c).2

end Trees

/-! ### Routines -/

/-- A program with local variables `σ` and exceptions `ε`; a call may raise one. -/
abbrev Routine (κ : Type u) (ρ : κ → Type v) (ε : Type v) (σ : Type v) :=
  ExceptT ε (StateT σ (Interaction κ fun c => Except ε (ρ c)))

namespace Routine

variable {κ : Type u} {ρ : κ → Type v} {ε σ : Type v} {α β : Type v}

abbrev History (κ : Type u) (ρ : κ → Type v) (ε : Type v) := List (Event κ fun c => Except ε (ρ c))

/-- A call, raising what it raises. -/
def perform (c : κ) : Routine κ ρ ε σ (ρ c) := fun s => .call c fun r => .done (r, s)

/-- A body repeated until it returns, or until the fuel is used up. -/
def loop (fuel : ℕ) (body : α → Routine κ ρ ε σ (α ⊕ β)) (a : α) : Routine κ ρ ε σ β :=
  match fuel with
  | 0 => fun _ => .cut
  | fuel + 1 => do
      match ← body a with
      | .inl a => loop fuel body a
      | .inr b => return b

/-- The weakest precondition of a routine, over the result, the locals and the history. -/
def wp (allowed : History κ ρ ε → κ → Prop) (K : History κ ρ ε → Prop)
    (p : Routine κ ρ ε σ α) (s : σ) (h : History κ ρ ε)
    (Q : Except ε α → σ → History κ ρ ε → Prop) : Prop :=
  Interaction.wp allowed K (p s) h fun r h => Q r.1 r.2 h

variable {allowed : History κ ρ ε → κ → Prop} {K : History κ ρ ε → Prop} {s : σ}
  {h : History κ ρ ε} {Q Q' : Except ε α → σ → History κ ρ ε → Prop} {a : α}

@[simp] theorem wp_pure : wp allowed K (pure a : Routine κ ρ ε σ α) s h Q ↔ Q (.ok a) s h := Iff.rfl

@[simp] theorem wp_get {Q : Except ε σ → σ → History κ ρ ε → Prop} :
    wp allowed K (get : Routine κ ρ ε σ σ) s h Q ↔ Q (.ok s) s h := Iff.rfl

@[simp] theorem wp_modify {f : σ → σ} {Q : Except ε PUnit → σ → History κ ρ ε → Prop} :
    wp allowed K (modify f : Routine κ ρ ε σ PUnit) s h Q ↔ Q (.ok ⟨⟩) (f s) h := Iff.rfl

variable {f : α → Routine κ ρ ε σ β} {p : Routine κ ρ ε σ α}

theorem wp_bind {Q : Except ε β → σ → History κ ρ ε → Prop} :
    wp allowed K (p >>= f) s h Q ↔ wp allowed K p s h fun r s h =>
      match r with
      | .ok a => wp allowed K (f a) s h Q
      | .error e => Q (.error e) s h := by
  refine (wp_bind_eq (p s) _ h _).trans ?_
  refine iff_of_eq (congrArg _ (funext fun r => funext fun h => ?_))
  obtain ⟨a | e, s⟩ := r <;> rfl

theorem wp_tryCatch {f : ε → Routine κ ρ ε σ α} :
    wp allowed K (tryCatch p f) s h Q ↔ wp allowed K p s h fun r s h =>
      match r with
      | .ok a => Q (.ok a) s h
      | .error e => wp allowed K (f e) s h Q := by
  refine (wp_bind_eq (p s) _ h _).trans ?_
  refine iff_of_eq (congrArg _ (funext fun r => funext fun h => ?_))
  obtain ⟨a | e, s⟩ := r <;> rfl

/-- A weaker postcondition is owed too. -/
theorem wp_mono (hp : wp allowed K p s h Q) (hQ : ∀ r s h, Q r s h → Q' r s h) :
    wp allowed K p s h Q' :=
  wp_mono_post hp fun r h => hQ r.1 r.2 h

/-- **Invariant rule of `loop`.** -/
theorem wp_loop {body : α → Routine κ ρ ε σ (α ⊕ β)} {I : α → σ → History κ ρ ε → Prop}
    {Q : Except ε β → σ → History κ ρ ε → Prop} (hcut : ∀ a s h, I a s h → K h)
    (hbody : ∀ a s h, I a s h → wp allowed K (body a) s h fun r s h =>
      match r with
      | .ok (.inl a) => I a s h
      | .ok (.inr b) => Q (.ok b) s h
      | .error e => Q (.error e) s h) (fuel : ℕ) (hI : I a s h) :
    wp allowed K (loop fuel body a) s h Q := by
  induction fuel generalizing a s h with
  | zero => exact hcut a s h hI
  | succ fuel ih =>
    rw [loop, wp_bind]
    refine wp_mono (hbody a s h hI) fun r s h hr => ?_
    match r with
    | .ok (.inl a) => exact ih hr
    | .ok (.inr b) => exact hr
    | .error e => exact hr

variable {l : List α}

/-- **Invariant rule of `foldlM`.** The invariant may speak of the elements still to come. -/
theorem wp_foldlM {f : β → α → Routine κ ρ ε σ β} {I : List α → β → σ → History κ ρ ε → Prop}
    {Q : Except ε β → σ → History κ ρ ε → Prop}
    (hbody : ∀ b a rest s h, I (a :: rest) b s h → wp allowed K (f b a) s h fun r s h =>
      match r with
      | .ok b => I rest b s h
      | .error e => Q (.error e) s h) (hend : ∀ b s h, I [] b s h → Q (.ok b) s h) {b : β}
    (hI : I l b s h) :
    wp allowed K (l.foldlM f b) s h Q := by
  induction l generalizing b s h with
  | nil => exact hend b s h hI
  | cons a rest ih =>
    rw [List.foldlM_cons, wp_bind]
    refine wp_mono (hbody b a rest s h hI) fun r s h hr => ?_
    match r with
    | .ok b => exact ih hr
    | .error e => exact hr

/-- **Invariant rule of `forM`.** The invariant may speak of the elements still to come. -/
theorem wp_forM {f : α → Routine κ ρ ε σ PUnit} {I : List α → σ → History κ ρ ε → Prop}
    {Q : Except ε PUnit → σ → History κ ρ ε → Prop}
    (hbody : ∀ a rest s h, I (a :: rest) s h → wp allowed K (f a) s h fun r s h =>
      match r with
      | .ok _ => I rest s h
      | .error e => Q (.error e) s h) (hend : ∀ s h, I [] s h → Q (.ok ⟨⟩) s h) (hI : I l s h) :
    wp allowed K (l.forM f) s h Q := by
  induction l generalizing s h with
  | nil => exact hend s h hI
  | cons a rest ih =>
    rw [List.forM, wp_bind]
    refine wp_mono (hbody a rest s h hI) fun r s h hr => ?_
    match r with
    | .ok _ => exact ih hr
    | .error e => exact hr

/-! ### Runs against one environment -/

section Eval

variable {τ : Type*} {env : τ → (c : κ) → Except ε (ρ c) × τ} {t : τ}

/-- What a routine returns or raises against an environment, with its locals and the state of
the environment after it, unless it is cut off. -/
def eval (env : τ → (c : κ) → Except ε (ρ c) × τ) (p : Routine κ ρ ε σ α) (s : σ) (t : τ) :
    Option ((Except ε α × σ) × τ) :=
  result env (p s) t

variable {t' : τ}

theorem outcome_of_eval {r : Except ε α × σ} (h : eval env p s t = some (r, t')) :
    (exec env (p s) t).outcome = some r := by
  obtain ⟨r', houtcome, heq⟩ := Option.map_eq_some_iff.mp h
  exact houtcome.trans (congrArg some (congrArg Prod.fst heq))

@[simp] theorem eval_pure : eval env (pure a : Routine κ ρ ε σ α) s t = some ((.ok a, s), t) := rfl

@[simp] theorem eval_perform {c : κ} : eval env (perform c : Routine κ ρ ε σ (ρ c)) s t =
    some (((env t c).1, s), (env t c).2) := rfl

@[simp] theorem eval_get : eval env (get : Routine κ ρ ε σ σ) s t = some ((.ok s, s), t) := rfl

@[simp] theorem eval_modify {f : σ → σ} :
    eval env (modify f : Routine κ ρ ε σ PUnit) s t = some ((.ok ⟨⟩, f s), t) := rfl

theorem eval_bind : eval env (p >>= f) s t =
    (eval env p s t).bind fun r =>
      match r.1.1 with
      | .ok a => eval env (f a) r.1.2 r.2
      | .error e => some ((.error e, r.1.2), r.2) := by
  refine (result_bind (p s) _ t).trans (congrArg _ (funext fun r => ?_))
  obtain ⟨⟨a | e, s⟩, t⟩ := r <;> rfl

theorem eval_bind_ok {s' : σ} (h : eval env p s t = some ((.ok a, s'), t')) :
    eval env (p >>= f) s t = eval env (f a) s' t' := by
  rw [eval_bind, h]
  rfl

theorem eval_tryCatch {f : ε → Routine κ ρ ε σ α} : eval env (tryCatch p f) s t =
    (eval env p s t).bind fun r =>
      match r.1.1 with
      | .ok a => some ((.ok a, r.1.2), r.2)
      | .error e => eval env (f e) r.1.2 r.2 := by
  refine (result_bind (p s) _ t).trans (congrArg _ (funext fun r => ?_))
  obtain ⟨⟨a | e, s⟩, t⟩ := r <;> rfl

end Eval

end Routine

end Interaction

/-! ### Transactions and savepoints -/

namespace Interaction.Routine

/-- A session of a transactional store. -/
structure Session (δ : Type v) where
  committed : δ
  working : δ

variable {κ : Type u} {ρ : κ → Type v} {ε δ α : Type v}

/-- The session before its first transaction. -/
def Session.start (state : δ) : Session δ := ⟨state, state⟩

/-- The work of a transaction changed. -/
def work (f : δ → δ) : Routine κ ρ ε (Session δ) PUnit :=
  modify fun s => { s with working := f s.working }

/-- A transaction around a block. -/
def transaction (p : Routine κ ρ ε (Session δ) α) : Routine κ ρ ε (Session δ) α := do
  modify fun s => .start s.committed
  let a ← tryCatch p fun e => do
    modify fun s => .start s.committed
    throw e
  modify fun s => .start s.working
  return a

/-- A savepoint around a block, released where the block returns something to keep. -/
def savepoint (keep : α → Bool) (p : Routine κ ρ ε (Session δ) α) :
    Routine κ ρ ε (Session δ) (Except ε α) := do
  let saved ← get
  tryCatch (do
    let a ← p
    if keep a then pure ⟨⟩ else work fun _ => saved.working
    return .ok a) fun e => do
      work fun _ => saved.working
      return .error e

variable {keep : α → Bool}

section Rules

variable {allowed : History κ ρ ε → κ → Prop} {K : History κ ρ ε → Prop} {s : Session δ}
  {h : History κ ρ ε} {p : Routine κ ρ ε (Session δ) α}

theorem wp_transaction {Q : Except ε α → Session δ → History κ ρ ε → Prop} :
    wp allowed K (transaction p) s h Q ↔ wp allowed K p (.start s.committed) h fun r s h =>
      match r with
      | .ok a => Q (.ok a) (.start s.working) h
      | .error e => Q (.error e) (.start s.committed) h := by
  rw [transaction, wp_bind, wp_modify]
  dsimp only
  rw [wp_bind, wp_tryCatch]
  refine iff_of_eq (congrArg _ (funext fun r => funext fun s => funext fun h => ?_))
  cases r <;> rfl

theorem wp_savepoint {Q : Except ε (Except ε α) → Session δ → History κ ρ ε → Prop} :
    wp allowed K (savepoint keep p) s h Q ↔ wp allowed K p s h fun r s' h =>
      match r with
      | .ok a => Q (.ok (.ok a)) (if keep a then s' else { s' with working := s.working }) h
      | .error e => Q (.ok (.error e)) { s' with working := s.working } h := by
  rw [savepoint, wp_bind, wp_get]
  dsimp only
  rw [wp_tryCatch, wp_bind]
  refine iff_of_eq (congrArg _ (funext fun r => funext fun s => funext fun h => ?_))
  cases r with
  | error e => rfl
  | ok a =>
    dsimp only
    cases keep a <;> rfl

end Rules

section Eval

variable {τ : Type*} {env : τ → (c : κ) → Except ε (ρ c) × τ} {s : Session δ} {t : τ}
  {p : Routine κ ρ ε (Session δ) α}

theorem eval_transaction : eval env (transaction p) s t =
    (eval env p (.start s.committed) t).map fun r =>
      match r.1.1 with
      | .ok a => ((.ok a, .start r.1.2.working), r.2)
      | .error e => ((.error e, .start r.1.2.committed), r.2) := by
  rw [transaction, eval_bind]
  change eval env (_ >>= _) _ _ = _
  rw [eval_bind, eval_tryCatch]
  match eval env p (.start s.committed) t with
  | none => rfl
  | some ((.ok a, s), t) => rfl
  | some ((.error e, s), t) => rfl

theorem eval_savepoint : eval env (savepoint keep p) s t =
    (eval env p s t).map fun r =>
      match r.1.1 with
      | .ok a => ((.ok (.ok a),
          if keep a then r.1.2 else { r.1.2 with working := s.working }), r.2)
      | .error e => ((.ok (.error e), { r.1.2 with working := s.working }), r.2) := by
  rw [savepoint, eval_bind]
  change eval env (tryCatch _ _) _ _ = _
  rw [eval_tryCatch, eval_bind]
  match eval env p s t with
  | none => rfl
  | some ((.error e, s), t) => rfl
  | some ((.ok a, s'), t) =>
    cases h : keep a with
    | true => simp only [Option.bind_some, Option.map_some, h]; rfl
    | false => simp only [Option.bind_some, Option.map_some, h]; rfl

end Eval

end Interaction.Routine
