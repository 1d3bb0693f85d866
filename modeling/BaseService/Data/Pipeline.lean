import Mathlib

/-!
# Replies without identifiers

A connection carries requests to a server, which answers them in their order. The requests have
numbers, of which the server and the client see nothing.

* `Pipeline` : the requests that the server has not served yet, and its replies on their way back;
* `outstanding` : the numbers of both, in the order of the replies to come;
* `own_iff` : the next reply is that to the last request just if no other is outstanding.
-/

namespace BaseService

structure Pipeline (C R : Type) where
  requests : List (Nat × C)
  replies : List (Nat × R)

namespace Pipeline
variable {C R : Type}

def empty : Pipeline C R := ⟨[], []⟩

/-- The replies to come, by the numbers of their requests. -/
def outstanding (p : Pipeline C R) : List Nat := p.replies.map Prod.fst ++ p.requests.map Prod.fst

def send (p : Pipeline C R) (id : Nat) (c : C) : Pipeline C R :=
  { p with requests := p.requests ++ [(id, c)] }

/-- The server answers `reply` to its next request. -/
inductive Serves (p : Pipeline C R) : C → R → Pipeline C R → Prop
  | mk {id : Nat} {c : C} {requests : List (Nat × C)} (reply : R) :
    p.requests = (id, c) :: requests →
      Serves p c reply ⟨requests, p.replies ++ [(id, reply)]⟩

/-- The client takes the next reply, to the request `id`. -/
inductive Reads (p : Pipeline C R) : Nat → R → Pipeline C R → Prop
  | mk {id : Nat} {reply : R} {replies : List (Nat × R)} :
    p.replies = (id, reply) :: replies → Reads p id reply ⟨p.requests, replies⟩

@[simp]
theorem outstanding_empty : (empty : Pipeline C R).outstanding = [] := rfl

@[simp]
theorem outstanding_send (p : Pipeline C R) (id : Nat) (c : C) :
    (p.send id c).outstanding = p.outstanding ++ [id] := by
  simp [outstanding, send]

theorem Serves.outstanding {p p' : Pipeline C R} {c : C} {reply : R} (h : Serves p c reply p') :
    p'.outstanding = p.outstanding := by
  obtain ⟨_, hrequests⟩ := h
  simp [Pipeline.outstanding, hrequests]

theorem Reads.outstanding {p p' : Pipeline C R} {id : Nat} {reply : R} (h : Reads p id reply p') :
    p.outstanding = id :: p'.outstanding := by
  obtain ⟨hreplies⟩ := h
  simp [Pipeline.outstanding, hreplies]

end Pipeline

/-- The first in a line that ends with `own`. -/
theorem own_iff {own first : Nat} {before rest : List Nat} (h : first :: rest = before ++ [own])
    (hown : own ∉ before) : first = own ↔ before = [] := by
  cases before with
  | nil =>
    obtain ⟨rfl, -⟩ := List.cons.inj h
    exact iff_of_true rfl rfl
  | cons b before =>
    obtain ⟨rfl, -⟩ := List.cons.inj h
    exact iff_of_false (fun heq => hown (heq ▸ List.mem_cons_self)) (List.cons_ne_nil _ _)

end BaseService
