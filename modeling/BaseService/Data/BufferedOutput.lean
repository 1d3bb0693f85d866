import Mathlib

/-!
# A buffer before a stream

Pieces are written to a buffer of bounded capacity; where a piece does not fit, the buffer goes to the
stream first.

* `BufferedOutput` : the stream and the buffer; `write` : a piece;
* `contents_writes` : together they hold what has been written;
* `buffer_eq_iff` : the buffer alone does, just if it has all fitted.
-/

namespace BaseService

/-- What is written at once. -/
abbrev Piece (α : Type) (capacity : Nat) := {piece : List α // piece.length ≤ capacity}

structure BufferedOutput (α : Type) (capacity : Nat) where
  stream : List α
  buffer : List α
  fits : buffer.length ≤ capacity

namespace BufferedOutput
variable {α : Type} {capacity : Nat}

def empty : BufferedOutput α capacity := ⟨[], [], Nat.zero_le _⟩

def write (output : BufferedOutput α capacity) (piece : Piece α capacity) :
    BufferedOutput α capacity :=
  if h : output.buffer.length + piece.1.length ≤ capacity then
    ⟨output.stream, output.buffer ++ piece.1, by rwa [List.length_append]⟩
  else ⟨output.stream ++ output.buffer, piece.1, piece.2⟩

def writes (pieces : List (Piece α capacity)) : BufferedOutput α capacity := pieces.foldl write empty

def contents (output : BufferedOutput α capacity) : List α := output.stream ++ output.buffer

theorem contents_write (output : BufferedOutput α capacity) (piece : Piece α capacity) :
    (output.write piece).contents = output.contents ++ piece.1 := by
  unfold write contents
  split
  · rw [List.append_assoc]
  · rfl

theorem contents_writes (pieces : List (Piece α capacity)) :
    (writes pieces).contents = pieces.flatMap (·.1) := by
  have hfold (output : BufferedOutput α capacity) :
      (pieces.foldl write output).contents = output.contents ++ pieces.flatMap (·.1) := by
    induction pieces generalizing output with
    | nil => rw [List.foldl_nil, List.flatMap_nil, List.append_nil]
    | cons piece pieces ih =>
      rw [List.foldl_cons, ih, contents_write, List.flatMap_cons, List.append_assoc]
  rw [writes, hfold]
  rfl

/-- The buffer goes to the stream only when it is full. -/
theorem write_overflows {output : BufferedOutput α capacity} (piece : Piece α capacity)
    (h : output.stream ≠ [] → capacity < output.contents.length)
    (hstream : (output.write piece).stream ≠ []) :
    capacity < (output.write piece).contents.length := by
  rw [contents_write, List.length_append]
  unfold write at hstream
  split at hstream
  · have hlt := h hstream
    omega
  · rw [contents, List.length_append]
    omega

theorem foldl_overflows (pieces : List (Piece α capacity)) {output : BufferedOutput α capacity}
    (h : output.stream ≠ [] → capacity < output.contents.length)
    (hstream : (pieces.foldl write output).stream ≠ []) :
    capacity < (pieces.foldl write output).contents.length := by
  induction pieces generalizing output with
  | nil => exact h hstream
  | cons piece pieces ih => exact ih (write_overflows piece h) hstream

theorem buffer_eq_iff (pieces : List (Piece α capacity)) :
    (writes pieces).buffer = pieces.flatMap (·.1) ↔ (pieces.flatMap (·.1)).length ≤ capacity := by
  rw [← contents_writes]
  constructor
  · intro h
    rw [← h]
    exact (writes pieces).fits
  · intro hle
    have hstream : (writes pieces).stream = [] := by
      by_contra hne
      have hlt := foldl_overflows pieces (fun h => absurd rfl h) hne
      rw [← writes] at hlt
      omega
    rw [contents, hstream, List.nil_append]

end BufferedOutput

end BaseService
