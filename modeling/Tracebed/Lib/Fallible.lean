import Mathlib

/-!
# Inverting Computations That Can Fail

A computation in `Except` or `Option` that returns did so at every one of its steps. These
lemmas take such a computation apart one step at a time.
-/

namespace Fallible

universe u v w

variable {ε : Type u} {ε' : Type w} {α β : Type v}

/-- A value, or the error its absence stands for. -/
def orThrow (x : Option α) (e : ε) : Except ε α :=
  match x with
  | some a => .ok a
  | none => .error e

/-- An error unless a test passes. -/
def ensure (b : Bool) (e : ε) : Except ε Unit := if b then .ok () else .error e

variable {e : ε} {a : α} {x : Except ε α} {f : α → Except ε β} {b : β} {l : List α} {r : List β}

@[simp] theorem orThrow_eq_ok {x : Option α} : orThrow x e = .ok a ↔ x = some a := by
  cases x with
  | none | some b => simp [orThrow]

@[simp] theorem ensure_eq_ok {b : Bool} {u : Unit} : ensure b e = .ok u ↔ b = true := by
  cases b with
  | false | true => simp [ensure]

theorem ensure_bind {α : Type} {b : Bool} {f : Unit → Except ε α} :
    (ensure b e >>= f) = if b then f () else .error e := by
  cases b <;> rfl

theorem bind_eq_ok : (x >>= f) = .ok b ↔ ∃ a, x = .ok a ∧ f a = .ok b := by
  cases x with
  | error e | ok a => simp [bind, Except.bind]

/-- The rule that runs a computation forward, one returning step at a time. -/
theorem bind_ok (hx : x = .ok a) (hf : f a = .ok b) : (x >>= f) = .ok b :=
  bind_eq_ok.mpr ⟨a, hx, hf⟩

/-- A check that passes. -/
theorem guard_ok {β : Type} {b : β} {x : Except ε Unit} {f : Unit → Except ε β} (hx : x = .ok ())
    (hf : f () = .ok b) : (x >>= f) = .ok b :=
  bind_ok hx hf

theorem bind_eq_error : (x >>= f) = .error e ↔ x = .error e ∨ ∃ a, x = .ok a ∧ f a = .error e := by
  cases x with
  | error e | ok a => simp [bind, Except.bind]

@[simp] theorem mapError_eq_ok {f : ε → ε'} : x.mapError f = .ok a ↔ x = .ok a := by
  cases x with
  | error e | ok b => simp [Except.mapError]

/-- A mapped result is the result of the computation, mapped. -/
theorem map_eq_ok {f : α → β} : x.map f = .ok b ↔ ∃ a, x = .ok a ∧ f a = b := by
  cases x with
  | error e | ok a => simp [Except.map]

/-- `mapM` returns exactly when the function does on every element. -/
theorem mapM_eq_ok : l.mapM f = .ok r ↔ List.Forall₂ (fun a b => f a = .ok b) l r := by
  induction l generalizing r with
  | nil =>
    rw [List.mapM_nil, List.forall₂_nil_left_iff]
    exact ⟨fun h => (Except.ok.inj h).symm, fun h => h ▸ rfl⟩
  | cons a l ih =>
    rw [List.mapM_cons, bind_eq_ok, List.forall₂_cons_left_iff]
    constructor
    · rintro ⟨b, hb, h⟩
      obtain ⟨bs, hbs, h⟩ := bind_eq_ok.mp h
      exact ⟨b, bs, hb, ih.mp hbs, (Except.ok.inj h).symm⟩
    · rintro ⟨b, bs, hb, hbs, rfl⟩
      exact ⟨b, hb, bind_eq_ok.mpr ⟨bs, ih.mpr hbs, rfl⟩⟩

variable {R : α → β → Prop}

/-- If every element has a partner, the list has a related one. -/
theorem exists_forall₂ (h : ∀ a ∈ l, ∃ b, R a b) : ∃ r, List.Forall₂ R l r := by
  induction l with
  | nil => exact ⟨[], .nil⟩
  | cons a l ih =>
    obtain ⟨b, hb⟩ := h a List.mem_cons_self
    obtain ⟨r, hr⟩ := ih (List.forall_mem_cons.mp h).2
    exact ⟨b :: r, .cons hb hr⟩

/-- Every element of related lists has its partner. -/
theorem forall₂_mem (h : List.Forall₂ R l r) : ∀ a ∈ l, ∃ b ∈ r, R a b := by
  intro a ha
  obtain ⟨i, hi, rfl⟩ := List.getElem_of_mem ha
  have hi' : i < r.length := h.length_eq ▸ hi
  exact ⟨r[i], List.getElem_mem hi', h.get hi hi'⟩

/-- Every element has its result. -/
theorem mapM_mem (h : l.mapM f = .ok r) :
    ∀ a ∈ l, ∃ b ∈ r, f a = .ok b := forall₂_mem (mapM_eq_ok.mp h)

/-- `forM` returns exactly when the function does on every element. -/
theorem forM_eq_ok {f : α → Except ε PUnit.{v + 1}} :
    l.forM f = .ok ⟨⟩ ↔ ∀ a ∈ l, f a = .ok ⟨⟩ := by
  induction l with
  | nil => simp [pure, Except.pure]
  | cons a l ih =>
    rw [List.forM, bind_eq_ok, List.forall_mem_cons, ← ih]
    constructor
    · rintro ⟨⟨⟩, ha, hl⟩
      exact ⟨ha, hl⟩
    · rintro ⟨ha, hl⟩
      exact ⟨⟨⟩, ha, hl⟩

variable {I : β → Prop}

/-- **Invariant rule of `foldlM`**: if every step returns and keeps the invariant, the loop
returns and the result has it. -/
theorem foldlM_invariant {f : β → α → Except ε β} (hinit : I b)
    (hstep : ∀ b, ∀ a ∈ l, I b → ∃ b', f b a = .ok b' ∧ I b') :
    ∃ b', l.foldlM f b = .ok b' ∧ I b' := by
  induction l generalizing b with
  | nil => exact ⟨b, rfl, hinit⟩
  | cons a l ih =>
    obtain ⟨c, hc, hI⟩ := hstep b a List.mem_cons_self hinit
    obtain ⟨b', hb', hI'⟩ := ih hI fun b a ha => hstep b a (List.mem_cons_of_mem _ ha)
    refine ⟨b', ?_, hI'⟩
    exact bind_eq_ok.mpr ⟨c, hc, hb'⟩

/-- What every step that returns keeps, a fold that returns keeps. -/
theorem foldlM_preserves {f : β → α → Except ε β} {b' : β} (h : l.foldlM f b = .ok b') (hinit : I b)
    (hstep : ∀ b a b', a ∈ l → f b a = .ok b' → I b → I b') : I b' := by
  induction l generalizing b with
  | nil =>
    cases h
    exact hinit
  | cons a l ih =>
    obtain ⟨c, hc, h⟩ := bind_eq_ok.mp h
    exact ih h (hstep b a c List.mem_cons_self hc hinit)
      fun b a' b' ha' => hstep b a' b' (List.mem_cons_of_mem _ ha')

theorem ensure_ne_error {b : Bool} {e' : ε} (h : e ≠ e') : ensure b e ≠ .error e' := by
  cases b with
  | true => exact fun h' => nomatch h'
  | false => exact fun h' => h (Except.error.inj h')

theorem orThrow_ne_error {x : Option α} {e' : ε} (h : e ≠ e') : orThrow x e ≠ .error e' := by
  cases x with
  | none => exact fun h' => h (Except.error.inj h')
  | some a => exact fun h' => nomatch h'

theorem bind_ne_error (hx : x ≠ .error e) (hf : ∀ a, x = .ok a → f a ≠ .error e) :
    (x >>= f) ≠ .error e := by
  intro h
  rcases bind_eq_error.mp h with h | ⟨a, ha, h⟩
  · exact hx h
  · exact hf a ha h

theorem foldlM_ne_error {f : β → α → Except ε β} (hstep : ∀ b, ∀ a ∈ l, f b a ≠ .error e) :
    l.foldlM f b ≠ .error e := by
  induction l generalizing b with
  | nil => exact nofun
  | cons a l ih =>
    exact bind_ne_error (hstep b a List.mem_cons_self) fun c _ =>
      ih fun b a ha => hstep b a (List.mem_cons_of_mem _ ha)

/-- Forgetting the error keeps exactly the results. -/
@[simp] theorem toOption_eq_some : x.toOption = some a ↔ x = .ok a := by
  cases x with
  | error e | ok b => simp [Except.toOption]

theorem toOption_bind : (x >>= f).toOption = x.toOption.bind fun a => (f a).toOption := by
  cases x <;> rfl

/-- Results with equal images are both missing, or both there. -/
theorem map_eq_map_cases {γ δ : Type*} {f g : γ → δ} {v v' : Option γ} (h : v.map f = v'.map g) :
    v = none ∧ v' = none ∨ ∃ c c', v = some c ∧ v' = some c' ∧ f c = g c' := by
  cases v <;> cases v' <;> simp_all

end Fallible
