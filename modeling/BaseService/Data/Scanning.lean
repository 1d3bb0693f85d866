import Mathlib

/-!
# Scanners

* `Scanner` : an automaton that cuts a text into lexemes;
* `reach` : the state after some characters; `reach_invariant` : states that are not left; `Longest` : the longest match at the front of a text;
* `munch` : the scan for it, which marks each match and gives up when nothing longer can follow;
* `munch_eq_some_iff` : the scan finds the longest match;
* `munch_append` : a match is found where the text goes on with what the automaton cannot read.
-/

namespace BaseService

structure Scanner (σ α : Type) where
  next : σ → α → Option σ
  accepts : σ → Bool
  /-- Nothing longer matches. -/
  closes : σ → Bool
  next_closes : ∀ {q}, closes q = true → ∀ c, next q c = none

namespace Scanner
variable {σ α : Type} (S : Scanner σ α)

/-- The state after the characters. -/
def reach (q : σ) : List α → Option σ
  | [] => some q
  | c :: cs => (S.next q c).bind fun q' => reach q' cs

/-- The scan after `n` characters, with the last match so far. -/
def munch (marked : Option (σ × Nat)) (n : Nat) (q : σ) : List α → Option (σ × Nat)
  | [] => marked
  | c :: cs =>
    match S.next q c with
    | none => marked
    | some q' =>
      if S.accepts q' then
        if S.closes q' then some (q', n + 1) else munch (some (q', n + 1)) (n + 1) q' cs
      else munch marked (n + 1) q' cs

/-- No part at the front of the text matches. -/
def Fails (q : σ) (text : List α) : Prop :=
  ∀ n q', 0 < n → n ≤ text.length → S.reach q (text.take n) = some q' → S.accepts q' = false

/-- The first `n` characters match, and no more than these. -/
structure Longest (q : σ) (text : List α) (q' : σ) (n : Nat) : Prop where
  positive : 0 < n
  le : n ≤ text.length
  reaches : S.reach q (text.take n) = some q'
  accepts : S.accepts q' = true
  longest : ∀ m q'', n < m → m ≤ text.length → S.reach q (text.take m) = some q'' → S.accepts q'' = false

variable {S} {q q' q₁ : σ} {c : α} {cs text w rest : List α} {n k : Nat}

theorem reach_cons (h : S.next q c = some q₁) : S.reach q (c :: cs) = S.reach q₁ cs := by
  rw [reach, h, Option.bind_some]

theorem reach_append : S.reach q (w ++ rest) = (S.reach q w).bind fun q' => S.reach q' rest := by
  induction w generalizing q with
  | nil => rfl
  | cons c w ih =>
    rw [List.cons_append, reach, reach]
    cases S.next q c with
    | none => rfl
    | some q₁ => exact ih

/-- States that a step does not leave. -/
theorem reach_invariant {P : σ → Prop} (hnext : ∀ q c q', P q → S.next q c = some q' → P q')
    (hq : P q) (h : S.reach q w = some q') : P q' := by
  induction w generalizing q with
  | nil => exact Option.some.inj h ▸ hq
  | cons c w ih =>
    obtain ⟨q₁, hq₁, hw⟩ := Option.bind_eq_some_iff.1 h
    exact ih (hnext q c q₁ hq hq₁) hw

theorem Longest.unique {q'' : σ} (h : S.Longest q text q' n) (h' : S.Longest q text q'' k) :
    q' = q'' ∧ n = k := by
  obtain hlt | rfl | hlt := Nat.lt_trichotomy n k
  · have := h.longest k q'' hlt h'.le h'.reaches
    rw [h'.accepts] at this
    cases this
  · exact ⟨Option.some.inj (h.reaches.symm.trans h'.reaches), rfl⟩
  · have := h'.longest n q' hlt h.le h.reaches
    rw [h.accepts] at this
    cases this

theorem Longest.not_fails (h : S.Longest q text q' n) : ¬ S.Fails q text := fun hfails => by
  have := hfails n q' h.positive h.le h.reaches
  rw [h.accepts] at this
  cases this

/-- One character on. -/
theorem Longest.cons (hnext : S.next q c = some q₁) (h : S.Longest q₁ cs q' n) :
    S.Longest q (c :: cs) q' (n + 1) where
  positive := Nat.succ_pos n
  le := Nat.succ_le_succ h.le
  reaches := by rw [List.take_succ_cons, reach_cons hnext, h.reaches]
  accepts := h.accepts
  longest := by
    intro m q'' hm hle hreach
    obtain ⟨m, rfl⟩ := Nat.exists_eq_succ_of_ne_zero (n := m) (by omega)
    rw [Nat.succ_eq_add_one, List.take_succ_cons, reach_cons hnext] at hreach
    exact h.longest m q'' (by omega) (Nat.le_of_succ_le_succ hle) hreach

theorem longest_single (hnext : S.next q c = some q₁) (haccepts : S.accepts q₁ = true)
    (hfails : S.Fails q₁ cs) : S.Longest q (c :: cs) q₁ 1 where
  positive := Nat.one_pos
  le := Nat.succ_le_succ (Nat.zero_le _)
  reaches := by rw [List.take_succ_cons, reach_cons hnext, List.take_zero, reach]
  accepts := haccepts
  longest := by
    intro m q'' hm hle hreach
    obtain ⟨m, rfl⟩ := Nat.exists_eq_succ_of_ne_zero (n := m) (by omega)
    rw [Nat.succ_eq_add_one, List.take_succ_cons, reach_cons hnext] at hreach
    exact hfails m q'' (by omega) (Nat.le_of_succ_le_succ hle) hreach

theorem fails_nil : S.Fails q [] := fun _ _ hpos hle _ => absurd (hpos.trans_le hle) (lt_irrefl 0)

theorem fails_of_next (h : S.next q c = none) : S.Fails q (c :: cs) := by
  intro n q' hpos _ hreach
  obtain ⟨n, rfl⟩ := Nat.exists_eq_succ_of_ne_zero hpos.ne'
  rw [Nat.succ_eq_add_one, List.take_succ_cons, reach, h] at hreach
  cases hreach

theorem fails_closes (h : S.closes q = true) : S.Fails q text := by
  cases text with
  | nil => exact fails_nil
  | cons c cs => exact fails_of_next (S.next_closes h c)

theorem Fails.cons (hnext : S.next q c = some q₁) (haccepts : S.accepts q₁ = false)
    (h : S.Fails q₁ cs) : S.Fails q (c :: cs) := by
  intro n q' hpos hle hreach
  obtain ⟨n, rfl⟩ := Nat.exists_eq_succ_of_ne_zero hpos.ne'
  rw [Nat.succ_eq_add_one, List.take_succ_cons, reach_cons hnext] at hreach
  obtain rfl | hn := Nat.eq_zero_or_pos n
  · rw [List.take_zero, reach] at hreach
    exact Option.some.inj hreach ▸ haccepts
  · exact h n q' hn (Nat.le_of_succ_le_succ hle) hreach

/-- The scan comes to the longest match, or to the one before when there is none. -/
theorem munch_spec (marked : Option (σ × Nat)) (n : Nat) (q : σ) (text : List α) :
    (∃ q' k, S.Longest q text q' k ∧ S.munch marked n q text = some (q', n + k)) ∨
      S.Fails q text ∧ S.munch marked n q text = marked := by
  induction text generalizing marked n q with
  | nil => exact .inr ⟨fails_nil, rfl⟩
  | cons c cs ih =>
    rw [munch]
    cases hnext : S.next q c with
    | none => exact .inr ⟨fails_of_next hnext, rfl⟩
    | some q₁ =>
      dsimp only
      by_cases haccepts : S.accepts q₁ = true
      · rw [if_pos haccepts]
        by_cases hcloses : S.closes q₁ = true
        · rw [if_pos hcloses]
          exact .inl ⟨q₁, 1, longest_single hnext haccepts (fails_closes hcloses), rfl⟩
        · rw [if_neg hcloses]
          obtain ⟨q', k, hlongest, hmunch⟩ | ⟨hfails, hmunch⟩ := ih (some (q₁, n + 1)) (n + 1) q₁
          · exact .inl ⟨q', k + 1, hlongest.cons hnext, by rw [hmunch, Nat.add_right_comm, Nat.add_assoc]⟩
          · exact .inl ⟨q₁, 1, longest_single hnext haccepts hfails, hmunch⟩
      · rw [if_neg haccepts]
        obtain ⟨q', k, hlongest, hmunch⟩ | ⟨hfails, hmunch⟩ := ih marked (n + 1) q₁
        · exact .inl ⟨q', k + 1, hlongest.cons hnext, by rw [hmunch, Nat.add_right_comm, Nat.add_assoc]⟩
        · exact .inr ⟨hfails.cons hnext (Bool.eq_false_iff.2 haccepts), hmunch⟩

/-- **The scan finds the longest match.** -/
theorem munch_eq_some_iff : S.munch none 0 q text = some (q', n) ↔ S.Longest q text q' n := by
  obtain ⟨q₀, k, hlongest, hmunch⟩ | ⟨hfails, hmunch⟩ := munch_spec none 0 q text (S := S)
  · rw [hmunch, Nat.zero_add, Option.some.injEq, Prod.mk.injEq]
    constructor
    · rintro ⟨rfl, rfl⟩
      exact hlongest
    · exact fun h => hlongest.unique h
  · rw [hmunch]
    exact ⟨nofun, fun h => absurd hfails h.not_fails⟩

/-- A match is found whole where the text goes on with what the automaton cannot read. -/
theorem munch_append (hreach : S.reach q w = some q') (haccepts : S.accepts q' = true) (hne : w ≠ [])
    (hrest : ∀ c ∈ rest.head?, S.next q' c = none) :
    S.munch none 0 q (w ++ rest) = some (q', w.length) := by
  refine munch_eq_some_iff.2 ⟨List.length_pos_of_ne_nil hne, ?_, ?_, haccepts, ?_⟩
  · rw [List.length_append]
    omega
  · rw [List.take_left, hreach]
  · intro m q'' hm hle h
    obtain ⟨k, rfl⟩ := Nat.exists_eq_add_of_lt hm
    rw [List.length_append] at hle
    rw [Nat.add_assoc, List.take_length_add_append, reach_append, hreach, Option.bind_some] at h
    cases rest with
    | nil => simp at hle
    | cons c cs =>
      rw [List.take_succ_cons, reach, hrest c rfl] at h
      cases h

/-- Where one character is enough, there is a match. -/
theorem exists_longest (hnext : S.next q c = some q₁) (haccepts : S.accepts q₁ = true) :
    ∃ q' n, S.Longest q (c :: cs) q' n := by
  obtain ⟨q', k, hlongest, -⟩ | ⟨hfails, -⟩ := munch_spec none 0 q (c :: cs) (S := S)
  · exact ⟨q', k, hlongest⟩
  · have := hfails 1 q₁ Nat.one_pos (Nat.succ_le_succ (Nat.zero_le _))
      (by rw [List.take_succ_cons, reach_cons hnext, List.take_zero, reach])
    rw [haccepts] at this
    cases this

end Scanner

end BaseService
