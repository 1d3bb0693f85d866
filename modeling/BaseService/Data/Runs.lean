import Mathlib

/-!
# Runs of labelled transition systems

* `Run step s ls s'` : the labels `ls` lead from `s` to `s'`;
* `Run.history` : induction on a run, with the labels seen so far; `Run.invariant` : without them;
* `Run.split` : a run over two parts of its labels;
* `Run.simulate` : a run followed step by step in another system;
* `Run.congr` : two systems whose steps agree as long as `I` holds have the same runs.
-/

namespace BaseService

variable {σ τ ℓ : Type}

inductive Run (step : σ → ℓ → σ → Prop) (s : σ) : List ℓ → σ → Prop
  | nil : Run step s [] s
  | snoc {ls : List ℓ} {s' s'' : σ} {l : ℓ} :
    Run step s ls s' → step s' l s'' → Run step s (ls ++ [l]) s''

namespace Run
variable {step : σ → ℓ → σ → Prop} {s s' s'' : σ} {ls ls' : List ℓ}

theorem history {I : List ℓ → σ → Prop} (h : Run step s ls s') (h₀ : I [] s)
    (hstep : ∀ ls s' l s'', I ls s' → step s' l s'' → I (ls ++ [l]) s'') : I ls s' := by
  induction h with
  | nil => exact h₀
  | snoc _ hs ih => exact hstep _ _ _ _ ih hs

theorem invariant {I : σ → Prop} (h : Run step s ls s') (h₀ : I s)
    (hstep : ∀ s l s', I s → step s l s' → I s') : I s' :=
  Run.history (I := fun _ => I) h h₀ (fun _ s l s' => hstep s l s')

theorem append (h : Run step s ls s') (h' : Run step s' ls' s'') :
    Run step s (ls ++ ls') s'' := by
  induction h' with
  | nil => rwa [List.append_nil]
  | snoc _ hs ih =>
    rw [← List.append_assoc]
    exact ih.snoc hs

theorem single {l : ℓ} (h : step s l s') : Run step s [l] s' := nil.snoc h

theorem snoc_inv {l : ℓ} (h : Run step s (ls ++ [l]) s'') :
    ∃ s', Run step s ls s' ∧ step s' l s'' := by
  generalize hls : ls ++ [l] = ls₀ at h
  cases h with
  | nil => simp at hls
  | snoc h hs =>
    obtain ⟨rfl, hl⟩ := List.append_inj' hls rfl
    obtain rfl := List.singleton_inj.mp hl
    exact ⟨_, h, hs⟩

theorem single_inv {l : ℓ} (h : Run step s [l] s') : step s l s' := by
  rw [← List.nil_append [l]] at h
  obtain ⟨m, hm, hs⟩ := h.snoc_inv
  generalize hls : ([] : List ℓ) = ls₀ at hm
  cases hm with
  | nil => exact hs
  | snoc => simp at hls

theorem split (h : Run step s (ls ++ ls') s'') : ∃ s', Run step s ls s' ∧ Run step s' ls' s'' := by
  induction ls' using List.reverseRecOn generalizing s'' with
  | nil =>
    rw [List.append_nil] at h
    exact ⟨s'', h, nil⟩
  | append_singleton ls' l ih =>
    rw [← List.append_assoc] at h
    obtain ⟨m, hm, hs⟩ := h.snoc_inv
    obtain ⟨m', h₁, h₂⟩ := ih hm
    exact ⟨m', h₁, h₂.snoc hs⟩

/-- A step of the first system is a step of the second between the images of its states, as long
as `I` holds. -/
theorem simulate {I : σ → Prop} {f : σ → τ} (step' : τ → ℓ → τ → Prop) (h : Run step s ls s')
    (h₀ : I s) (hstep : ∀ s l s', I s → step s l s' → I s' ∧ step' (f s) l (f s')) :
    I s' ∧ Run step' (f s) ls (f s') := by
  induction h with
  | nil => exact ⟨h₀, nil⟩
  | snoc _ hs ih =>
    obtain ⟨hi, hr⟩ := ih
    obtain ⟨hi', hs'⟩ := hstep _ _ _ hi hs
    exact ⟨hi', hr.snoc hs'⟩

theorem congr {I : σ → Prop} {step' : σ → ℓ → σ → Prop} (h₀ : I s)
    (hiff : ∀ s l s', I s → (step s l s' ↔ step' s l s'))
    (hinv : ∀ s l s', I s → step s l s' → I s') : Run step s ls s' ↔ Run step' s ls s' := by
  have hleft (h : Run step s ls s') : I s' ∧ Run step' s ls s' :=
    h.simulate (f := id) step' h₀ fun s l s' hi hs => ⟨hinv s l s' hi hs, (hiff s l s' hi).1 hs⟩
  have hright (h : Run step' s ls s') : I s' ∧ Run step s ls s' :=
    h.simulate (f := id) step h₀ fun s l s' hi hs =>
      ⟨hinv s l s' hi ((hiff s l s' hi).2 hs), (hiff s l s' hi).2 hs⟩
  exact ⟨fun h => (hleft h).2, fun h => (hright h).2⟩

end Run

end BaseService
