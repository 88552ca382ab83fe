import KineticText.Fault
import Mathlib.Data.List.Forall2
import Mathlib.Tactic.Common

/-!
# Operations that may fail

A chain of operations has a result where each of them has one, and it fails with
the first failure.  With `bind_eq_ok_iff` and `bind_eq_error_iff` a chain is taken
apart into its operations, with `guard_eq_ok_iff` the checks between them into what
they check, and with `mapM_eq_ok_iff` and `mapM_eq_error_iff` a list of operations
into its members.  The same is done for operations on a state, which may also have
changed it before a failure (`run_bind_eq_ok_iff`, `Fails`).

`Ends P Q` says of an operation that its result satisfies `P`, or its failure
satisfies `Q`.  One such statement for each operation gives that of a chain
(`Ends.bind`, `Ends.guard`).
-/

namespace KineticText

variable {ε α β : Type}

/-! ## Results -/

/-- Whether an operation has a given result can be found out by running it. -/
instance decidableEqOk [DecidableEq α] (x : Except ε α) (a : α) : Decidable (x = .ok a) :=
  match x with
  | .ok b => decidable_of_iff (b = a) (by simp)
  | .error _ => .isFalse (by simp)

theorem bind_eq_ok_iff {x : Except ε α} {f : α → Except ε β} {b : β} :
    (x >>= f) = .ok b ↔ ∃ a, x = .ok a ∧ f a = .ok b := by
  cases x <;> simp [bind, Except.bind]

theorem bind_eq_error_iff {x : Except ε α} {f : α → Except ε β} {e : ε} :
    (x >>= f) = .error e ↔ x = .error e ∨ ∃ a, x = .ok a ∧ f a = .error e := by
  cases x <;> simp [bind, Except.bind]

theorem map_eq_ok_iff {x : Except ε α} {f : α → β} {b : β} :
    x.map f = .ok b ↔ ∃ a, x = .ok a ∧ f a = b := by
  cases x <;> simp [Except.map]

theorem map_eq_error_iff {x : Except ε α} {f : α → β} {e : ε} :
    x.map f = .error e ↔ x = .error e := by
  cases x <;> simp [Except.map]

theorem mapError_eq_ok_iff {ε' : Type} {x : Except ε α} {f : ε → ε'} {a : α} :
    x.mapError f = .ok a ↔ x = .ok a := by
  cases x <;> simp [Except.mapError]

theorem toOption_eq_some_iff {x : Except ε α} {a : α} :
    x.toOption = some a ↔ x = .ok a := by
  cases x <;> simp [Except.toOption]

/-- A check that stops a chain has passed where the chain has a result. -/
theorem guard_eq_ok_iff {p : Prop} [Decidable p] {e : ε} {f : PUnit → Except ε α}
    {x : Except ε α} {a : α} :
    (if p then (throw e : Except ε PUnit) >>= f else x) = .ok a ↔ ¬p ∧ x = .ok a := by
  split_ifs with h
  · simp [h, throw, throwThe, MonadExceptOf.throw, bind, Except.bind]
  · simp [h]

theorem exists_of_mem_forall₂ {p : α → β → Prop} {xs : List α} {ys : List β}
    (h : List.Forall₂ p xs ys) : ∀ y ∈ ys, ∃ x ∈ xs, p x y := by
  induction h with
  | nil => simp
  | @cons x y xs ys hxy _ ih =>
    intro z hz
    rcases List.mem_cons.1 hz with rfl | hz
    · exact ⟨x, List.mem_cons_self .., hxy⟩
    · obtain ⟨w, hw, hwz⟩ := ih z hz
      exact ⟨w, List.mem_cons_of_mem _ hw, hwz⟩

/-- A chain over a list has the results of its operations, in order. -/
theorem mapM_eq_ok_iff {f : α → Except ε β} {l : List α} {bs : List β} :
    l.mapM f = .ok bs ↔ List.Forall₂ (fun a b => f a = .ok b) l bs := by
  induction l generalizing bs with
  | nil =>
    rw [List.mapM_nil, List.forall₂_nil_left_iff, eq_comm (a := bs)]
    exact ⟨Except.ok.inj, congrArg Except.ok⟩
  | cons a rest ih =>
    rw [List.mapM_cons, bind_eq_ok_iff, List.forall₂_cons_left_iff]
    refine exists_congr fun b => ?_
    simp only [bind_eq_ok_iff, ih]
    constructor
    · rintro ⟨hb, bs', hrest, ⟨⟩⟩
      exact ⟨bs', hb, hrest, rfl⟩
    · rintro ⟨bs', hb, hrest, rfl⟩
      exact ⟨hb, bs', hrest, rfl⟩

/-- A chain over a list fails with the first of its operations that fails. -/
theorem mapM_eq_error_iff {f : α → Except ε β} {l : List α} {e : ε} :
    l.mapM f = .error e ↔ ∃ front a back, l = front ++ a :: back ∧
      (∃ bs, front.mapM f = .ok bs) ∧ f a = .error e := by
  induction l with
  | nil =>
    rw [List.mapM_nil]
    exact iff_of_false (by rintro ⟨⟩) (by simp)
  | cons a rest ih =>
    rw [List.mapM_cons, bind_eq_error_iff]
    constructor
    · rintro (hfirst | ⟨b, hb, hothers⟩)
      · exact ⟨[], a, rest, rfl, ⟨[], rfl⟩, hfirst⟩
      · rcases bind_eq_error_iff.1 hothers with hrest | ⟨bs, -, ⟨⟩⟩
        obtain ⟨front, c, back, rfl, ⟨bs, hbs⟩, hc⟩ := ih.1 hrest
        refine ⟨a :: front, c, back, rfl, ⟨b :: bs, ?_⟩, hc⟩
        exact mapM_eq_ok_iff.2 (.cons hb (mapM_eq_ok_iff.1 hbs))
    · rintro ⟨front, c, back, heq, ⟨bs, hbs⟩, hc⟩
      cases front with
      | nil =>
        cases heq
        exact .inl hc
      | cons d front =>
        cases heq
        cases mapM_eq_ok_iff.1 hbs with
        | cons hb hfront =>
          exact .inr ⟨_, hb, bind_eq_error_iff.2
            (.inl (ih.2 ⟨front, c, back, rfl, ⟨_, mapM_eq_ok_iff.2 hfront⟩, hc⟩))⟩

/-! ## Results on a state -/

section State

variable {σ : Type} {s t : σ} {x : EStateM ε σ α} {f : α → EStateM ε σ β} {a : α} {b : β} {e : ε}

theorem run_pure_eq_ok_iff {a' : α} :
    (pure a : EStateM ε σ α).run s = .ok a' t ↔ a = a' ∧ s = t := by
  rw [EStateM.run_pure, EStateM.Result.ok.injEq]

theorem run_bind_eq_ok_iff :
    (x >>= f).run s = .ok b t ↔ ∃ a s', x.run s = .ok a s' ∧ (f a).run s' = .ok b t := by
  rw [EStateM.run_bind]
  cases x.run s <;> simp

theorem run_bind_eq_error_iff :
    (x >>= f).run s = .error e t ↔
      x.run s = .error e t ∨ ∃ a s', x.run s = .ok a s' ∧ (f a).run s' = .error e t := by
  rw [EStateM.run_bind]
  cases x.run s <;> simp

theorem run_bind_of_ok {s' : σ} (h : x.run s = .ok a s') : (x >>= f).run s = (f a).run s' := by
  rw [EStateM.run_bind, h]

theorem run_bind_of_error (h : x.run s = .error e t) : (x >>= f).run s = .error e t := by
  rw [EStateM.run_bind, h]

/-- An operation without a state leaves it as it is. -/
theorem run_lift (y : Except ε α) (s : σ) :
    (liftM y : EStateM ε σ α).run s = match y with
      | .ok a => .ok a s
      | .error e => .error e s := by
  cases y <;> rfl

theorem run_lift_eq_ok_iff {y : Except ε α} :
    (liftM y : EStateM ε σ α).run s = .ok a t ↔ y = .ok a ∧ s = t := by
  rw [run_lift]
  cases y <;> simp

theorem run_lift_eq_error_iff {y : Except ε α} :
    (liftM y : EStateM ε σ α).run s = .error e t ↔ y = .error e ∧ s = t := by
  rw [run_lift]
  cases y <;> simp

theorem run_guard_eq_ok_iff {p : Prop} [Decidable p] {k : PUnit → EStateM ε σ α}  :
    (if p then (throw e : EStateM ε σ PUnit) >>= k else x).run s = .ok a t ↔
      ¬p ∧ x.run s = .ok a t := by
  split_ifs with h
  · simp [h]
  · simp [h]

/-- The operation ends in a failure, whatever it leaves of the state. -/
def Fails (x : EStateM ε σ α) (s : σ) (e : ε) : Prop := ∃ t, x.run s = .error e t

theorem fails_lift {y : Except ε α} (h : y = .error e) (s : σ) :
    Fails (liftM y : EStateM ε σ α) s e := by
  rw [Fails, run_lift, h]
  exact ⟨s, rfl⟩

theorem Fails.bind (h : Fails x s e) (f : α → EStateM ε σ β) : Fails (x >>= f) s e := by
  obtain ⟨t, ht⟩ := h
  exact ⟨t, run_bind_of_error ht⟩

theorem Fails.of_ok {s' : σ} (h : x.run s = .ok a s') (hf : Fails (f a) s' e) :
    Fails (x >>= f) s e := by
  obtain ⟨t, ht⟩ := hf
  exact ⟨t, (run_bind_of_ok h).trans ht⟩

end State

/-! ## Results and failures -/

/-- An operation that ends in a result with one property or in a failure with
another. -/
def Ends (P : α → Prop) (Q : ε → Prop) : Except ε α → Prop
  | .ok a => P a
  | .error e => Q e

namespace Ends

variable {P P' : α → Prop} {Q Q' : ε → Prop} {R : β → Prop} {x : Except ε α}

theorem of_ok {a : α} (h : Ends P Q x) (ha : x = .ok a) : P a := by
  rwa [ha] at h

theorem of_error {e : ε} (h : Ends P Q x) (he : x = .error e) : Q e := by
  rwa [he] at h

theorem mono (h : Ends P Q x) (hP : ∀ a, P a → P' a) (hQ : ∀ e, Q e → Q' e) : Ends P' Q' x := by
  cases x with
  | ok a => exact hP a h
  | error e => exact hQ e h

theorem bind {f : α → Except ε β} (hx : Ends P Q x) (hf : ∀ a, P a → Ends R Q (f a)) :
    Ends R Q (x >>= f) := by
  cases x with
  | ok a => exact hf a hx
  | error e => exact hx

theorem map {f : α → β} (hx : Ends P Q x) (hf : ∀ a, P a → R (f a)) : Ends R Q (f <$> x) := by
  cases x with
  | ok a => exact hf a hx
  | error e => exact hx

/-- A check that stops a chain with a failure. -/
theorem guard {p : Prop} [Decidable p] {e : ε} {f : PUnit → Except ε α} (he : p → Q e)
    (hx : ¬p → Ends P Q x) :
    Ends P Q (if p then (throw e : Except ε PUnit) >>= f else x) := by
  split_ifs with h
  · exact he h
  · exact hx h

theorem with_eq (h : Ends P Q x) : Ends (fun a => x = .ok a ∧ P a) Q x := by
  cases x with
  | ok a => exact ⟨rfl, h⟩
  | error e => exact h

/-- An operation that ends has a result or fails. -/
theorem ok_or_error (h : Ends P Q x) : (∃ a, x = .ok a ∧ P a) ∨ ∃ e, x = .error e ∧ Q e := by
  cases x with
  | ok a => exact .inl ⟨a, rfl, h⟩
  | error e => exact .inr ⟨e, rfl, h⟩

/-- An operation that ends in a result where something holds, and only there. -/
theorem exists_ok_iff {p : Prop} (h : Ends (fun _ => p) (fun _ => ¬p) x) :
    (∃ a, x = .ok a) ↔ p := by
  cases x with
  | ok a => exact iff_of_true ⟨a, rfl⟩ h
  | error e => exact iff_of_false (fun ⟨_, ha⟩ => nomatch ha) h

end Ends

end KineticText
