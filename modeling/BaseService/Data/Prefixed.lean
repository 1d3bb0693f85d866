import BaseService.Data.Bytes

/-!
# Length-prefixed messages

* `put width m` : the bytes of `m` after their number, which takes `width` bytes; `putAll` : of a list;
* `get`, `getAll` : reading them back, with the rest;
* `get_eq_some_iff`, `getAll_eq_some_iff` : what is read is what was put.
-/

namespace BaseService.Prefixed

def put (width : Nat) (m : List Byte) : List Byte := Bytes.encode width m.length ++ m

def putAll (width : Nat) (ms : List (List Byte)) : List Byte := ms.flatMap (put width)

/-- A message and the bytes after it. -/
def get (width : Nat) (bytes : List Byte) : Option (List Byte × List Byte) :=
  let n := Bytes.decode (bytes.take width)
  let rest := bytes.drop width
  if width ≤ bytes.length ∧ n ≤ rest.length then some (rest.take n, rest.drop n) else none

/-- The next `n` messages. -/
def getAll (width : Nat) : Nat → List Byte → Option (List (List Byte) × List Byte)
  | 0, bytes => some ([], bytes)
  | n + 1, bytes => do
    let (m, rest) ← get width bytes
    let (ms, rest) ← getAll width n rest
    some (m :: ms, rest)

variable {width n : Nat} {m bytes rest : List Byte} {ms : List (List Byte)}

theorem put_length (width : Nat) (m : List Byte) : (put width m).length = width + m.length := by
  rw [put, List.length_append, Bytes.encode_length]

theorem putAll_length (width : Nat) (ms : List (List Byte)) :
    (putAll width ms).length = (ms.map fun m => width + m.length).sum := by
  unfold putAll
  simp only [List.length_flatMap, put_length]

theorem get_eq_some_iff :
    get width bytes = some (m, rest) ↔ bytes = put width m ++ rest ∧ m.length < 256 ^ width := by
  unfold get put
  constructor
  · intro h
    dsimp only at h
    split at h
    · next hlength =>
      obtain ⟨hwidth, hn⟩ := hlength
      have hlt := Bytes.decode_lt (bytes.take width)
      rw [List.length_take_of_le hwidth] at hlt
      simp only [Option.some.injEq, Prod.mk.injEq] at h
      obtain ⟨rfl, rfl⟩ := h
      rw [List.length_take_of_le hn]
      refine ⟨?_, hlt⟩
      rw [← Bytes.take_eq_encode hwidth, List.append_assoc, List.take_append_drop,
        List.take_append_drop]
    · cases h
  · rintro ⟨rfl, hlt⟩
    have hlength := Bytes.encode_length width m.length
    rw [List.append_assoc, List.take_left' hlength, List.drop_left' hlength, Bytes.decode_encode,
      Nat.mod_eq_of_lt hlt, if_pos (by simp [hlength]), List.take_left, List.drop_left]

theorem getAll_eq_some_iff :
    getAll width n bytes = some (ms, rest) ↔
      bytes = putAll width ms ++ rest ∧ ms.length = n ∧ ∀ m ∈ ms, m.length < 256 ^ width := by
  induction n generalizing bytes ms rest with
  | zero =>
    rw [getAll, List.length_eq_zero_iff]
    constructor
    · intro h
      cases h
      simp [putAll]
    · rintro ⟨rfl, rfl, -⟩
      rfl
  | succ n ih =>
    simp only [getAll, Option.bind_eq_bind, Option.bind_eq_some_iff, Prod.exists, get_eq_some_iff,
      ih, Option.some.injEq, Prod.mk.injEq]
    constructor
    · rintro ⟨m, _, ⟨rfl, hm⟩, ms, _, ⟨rfl, rfl, hms⟩, rfl, rfl⟩
      simp [putAll, hm]
      exact hms
    · rintro ⟨rfl, hlength, hms⟩
      obtain ⟨m, ms, rfl⟩ := List.exists_cons_of_length_eq_add_one hlength
      rw [List.forall_mem_cons] at hms
      refine ⟨m, putAll width ms ++ rest, ⟨by simp [putAll], hms.1⟩, ms, rest, ⟨rfl, ?_, hms.2⟩, rfl, rfl⟩
      simpa using hlength

end BaseService.Prefixed
