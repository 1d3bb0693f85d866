import Mathlib

/-!
# What a log has since

* `Since p q log` : the log has `p`, and after one of its occurrences no `q`;
* `Since.kept`, `Since.last`, `Since.of_append` : what records at the end change of this.
-/

namespace BaseService

variable {α : Type} {p q : α} {log rs : List α}

def Since (p q : α) (log : List α) : Prop := ∃ before after, log = before ++ p :: after ∧ q ∉ after

theorem not_since_nil (p q : α) : ¬ Since p q [] := by
  rintro ⟨before, after, h, -⟩
  simp at h

theorem Since.kept (h : Since p q log) (hq : q ∉ rs) : Since p q (log ++ rs) := by
  obtain ⟨before, after, rfl, hafter⟩ := h
  refine ⟨before, after ++ rs, by simp, ?_⟩
  rw [List.mem_append, not_or]
  exact ⟨hafter, hq⟩

theorem Since.last (hp : p ∈ rs) (hq : q ∉ rs) : Since p q (log ++ rs) := by
  obtain ⟨before, after, rfl⟩ := List.append_of_mem hp
  refine ⟨log ++ before, after, by simp, fun h => hq ?_⟩
  exact List.mem_append_right _ (List.mem_cons_of_mem _ h)

/-- Either the end has `p` itself, or there is none of it and no `q` in the end. -/
theorem Since.of_append (h : Since p q (log ++ rs)) : p ∈ rs ∨ Since p q log ∧ q ∉ rs := by
  obtain ⟨before, after, hsplit, hafter⟩ := h
  rcases List.append_eq_append_iff.1 hsplit with ⟨c, -, hrs⟩ | ⟨c, hlog, htail⟩
  · left
    rw [hrs]
    exact List.mem_append_right _ List.mem_cons_self
  · cases c with
    | nil =>
      left
      rw [List.nil_append] at htail
      rw [← htail]
      exact List.mem_cons_self
    | cons x c =>
      rw [List.cons_append] at htail
      obtain ⟨rfl, rfl⟩ := List.cons.inj htail
      rw [List.mem_append, not_or] at hafter
      exact .inr ⟨⟨before, c, hlog, hafter.1⟩, hafter.2⟩

end BaseService
