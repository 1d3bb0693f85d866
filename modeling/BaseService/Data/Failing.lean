import Mathlib

/-!
# Computations that fail and keep their effects

* `Failing` : computations with a state that an exception leaves as it finds it;
* `bind_ok`, `bind_error` : such a computation step by step;
* `run_bind` and so on : simp lemmas that evaluate it.
-/

namespace BaseService

/-- A computation on a state. An exception leaves the effects of what came before it. -/
abbrev Failing (ε σ : Type) := ExceptT ε (StateM σ)

namespace Failing
variable {ε σ α β : Type} {x : Failing ε σ α} {f : α → Failing ε σ β} {s s' : σ} {e : ε}

theorem bind_ok {a : α} (h : x s = (.ok a, s')) : (x >>= f) s = f a s' := by
  show ExceptT.bindCont f (x s).1 (x s).2 = _
  rw [h]
  rfl

theorem bind_error (h : x s = (.error e, s')) : (x >>= f) s = (.error e, s') := by
  show ExceptT.bindCont f (x s).1 (x s).2 = _
  rw [h]
  rfl

variable (x f s) in
@[simp] theorem run_bind : (x >>= f) s = match x s with
    | (.ok a, s') => f a s'
    | (.error e, s') => (.error e, s') := by
  rcases h : x s with ⟨_ | a, s'⟩
  · exact bind_error h
  · exact bind_ok h

variable (x s) in
@[simp] theorem run_map (g : α → β) : (g <$> x) s = match x s with
    | (.ok a, s') => (.ok (g a), s')
    | (.error e, s') => (.error e, s') := by
  rw [map_eq_pure_bind, run_bind]
  rfl

@[simp] theorem run_pure (a : α) (s : σ) : (pure a : Failing ε σ α) s = (.ok a, s) := rfl

@[simp] theorem run_throw (e : ε) (s : σ) : (throw e : Failing ε σ α) s = (.error e, s) := rfl

@[simp] theorem run_get (s : σ) : (get : Failing ε σ σ) s = (.ok s, s) := rfl

@[simp] theorem run_set (s s' : σ) : (set s' : Failing ε σ PUnit) s = (.ok ⟨⟩, s') := rfl

@[simp] theorem run_modify (g : σ → σ) (s : σ) : (modify g : Failing ε σ PUnit) s = (.ok ⟨⟩, g s) := rfl

end Failing

end BaseService
