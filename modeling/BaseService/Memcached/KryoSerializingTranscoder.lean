import BaseService.Data.Bytes
import BaseService.Data.BufferedOutput
import BaseService.Java
import BaseService.Notify.Wire

/-!
# The transcoder of the memcached client

* `Value` : what is encoded; a string is a list of UTF-16 units;
* `Libraries`, `Libraries.Lawful` : what the transcoder calls, and what it relies on;
* `KryoSerializer` : `write` and `read`;
* `encode`, `decode` : the transcoder;
* `roundTrips_iff` : the values that `decode` gives back;
* `client` : a transcoder with UTF-8 and a serializer for lists.
-/

namespace BaseService.Memcached

/-- `IllegalArgumentException` and `KryoException`. -/
inductive Failure
  | illegalArgument
  | kryo
  deriving DecidableEq, Repr

/-- An object, by the branch of `encode` that it takes. A `Float` and a `Double` are their bits, a `Date`
its time. -/
inductive Value (V : Type)
  | string (s : List Nat)
  | long (n : Int64)
  | integer (n : Int32)
  | boolean (b : Bool)
  | date (time : Int64)
  | byte (n : Int8)
  | float (bits : Int32)
  | double (bits : Int64)
  | byteArray (bytes : List Byte)
  | other (obj : V)

/-! ## What the transcoder calls -/

/-- The size of the buffer of an `Output`. -/
def bufferSize : Nat := 4096

/-- `writeClassAndObject` requires room for each piece that it writes. -/
structure Kryo (V : Type) where
  writeClassAndObject : V → List (Piece Byte bufferSize)
  readClassAndObject : List Byte → Except Failure V

/-- The complete stream of an object. -/
def Kryo.stream {V : Type} (kryo : Kryo V) (obj : V) : List Byte :=
  (kryo.writeClassAndObject obj).flatMap (·.1)

/-- `TranscoderUtils`, `BaseSerializingTranscoder` and `StringUtils` of the client, and Kryo. -/
structure Libraries (V : Type) where
  encodeLong : Int64 → List Byte
  decodeLong : List Byte → Int64
  encodeInt : Int32 → List Byte
  decodeInt : List Byte → Int32
  encodeBoolean : Bool → List Byte
  decodeBoolean : List Byte → Bool
  encodeByte : Int8 → List Byte
  decodeByte : List Byte → Int8
  encodeString : List Nat → List Byte
  decodeString : List Byte → List Nat
  compress : List Byte → List Byte
  /-- Null for data that are not compressed. -/
  decompress : List Byte → Option (List Byte)
  isJsonObject : List Nat → Bool
  kryo : Kryo V

/-- The pairs are inverse to each other: `decodeString` for strings of characters, which is all that it
gives, and Kryo for complete streams, which it reads from the first byte. -/
structure Libraries.Lawful {V : Type} (lib : Libraries V) : Prop where
  long : ∀ n, lib.decodeLong (lib.encodeLong n) = n
  int : ∀ n, lib.decodeInt (lib.encodeInt n) = n
  boolean : ∀ b, lib.decodeBoolean (lib.encodeBoolean b) = b
  byte : ∀ n, lib.decodeByte (lib.encodeByte n) = n
  string : ∀ s : String, lib.decodeString (lib.encodeString (units s)) = units s
  characters : ∀ bytes, ∃ s : String, lib.decodeString bytes = units s
  decompress : ∀ bytes, lib.decompress (lib.compress bytes) = some bytes
  read_stream : ∀ obj, lib.kryo.readClassAndObject (lib.kryo.stream obj) = .ok obj
  stream_read : ∀ bytes obj, lib.kryo.readClassAndObject bytes = .ok obj → lib.kryo.stream obj <+: bytes

namespace KryoSerializer
variable {V : Type} (kryo : Kryo V)

/-- `toBytes` gives what is in the buffer of the `Output`. -/
def write (obj : V) : List Byte := (BufferedOutput.writes (kryo.writeClassAndObject obj)).buffer

def read (bytes : List Byte) : Except Failure V := kryo.readClassAndObject bytes

theorem write_eq_iff (obj : V) :
    write kryo obj = kryo.stream obj ↔ (kryo.stream obj).length ≤ bufferSize :=
  BufferedOutput.buffer_eq_iff _

theorem length_write_le (obj : V) : (write kryo obj).length ≤ bufferSize := BufferedOutput.fits _

end KryoSerializer

/-! ## The transcoder -/

abbrev Flags := BitVec 32

def SERIALIZED : Flags := 1
def COMPRESSED : Flags := 2
def SPECIAL_MASK : Flags := 0xff00
def SPECIAL_BOOLEAN : Flags := 1 <<< 8
def SPECIAL_INT : Flags := 2 <<< 8
def SPECIAL_LONG : Flags := 3 <<< 8
def SPECIAL_DATE : Flags := 4 <<< 8
def SPECIAL_BYTE : Flags := 5 <<< 8
def SPECIAL_FLOAT : Flags := 6 <<< 8
def SPECIAL_DOUBLE : Flags := 7 <<< 8
def SPECIAL_BYTEARRAY : Flags := 8 <<< 8

structure CachedData where
  flags : Flags
  data : List Byte

structure KryoSerializingTranscoder (V : Type) extends Libraries V where
  compressionThreshold : Nat
  maxSize : Nat

namespace KryoSerializingTranscoder
variable {V : Type} (this : KryoSerializingTranscoder V)

/-- The `switch`; null, after a warning, for other flags. -/
def decodeSpecial (flags : Flags) (data : List Byte) : Option (Value V) :=
  if flags = SPECIAL_BOOLEAN then some (.boolean (this.decodeBoolean data))
  else if flags = SPECIAL_INT then some (.integer (this.decodeInt data))
  else if flags = SPECIAL_LONG then some (.long (this.decodeLong data))
  else if flags = SPECIAL_DATE then some (.date (this.decodeLong data))
  else if flags = SPECIAL_BYTE then some (.byte (this.decodeByte data))
  else if flags = SPECIAL_FLOAT then some (.float (this.decodeInt data))
  else if flags = SPECIAL_DOUBLE then some (.double (this.decodeLong data))
  else if flags = SPECIAL_BYTEARRAY then some (.byteArray data)
  else none

/-- What `decode` does with the data when they are not compressed any more. -/
def decodeData (flags : Flags) (data : List Byte) : Except Failure (Option (Value V)) :=
  if flags &&& SERIALIZED ≠ 0 then
    (KryoSerializer.read this.kryo data).map fun obj => some (.other obj)
  else if flags &&& SPECIAL_MASK ≠ 0 then .ok (this.decodeSpecial (flags &&& SPECIAL_MASK) data)
  else .ok (some (.string (this.decodeString data)))

/-- The object, or null. -/
def decode (d : CachedData) : Except Failure (Option (Value V)) :=
  match if d.flags &&& COMPRESSED ≠ 0 then this.decompress d.data else some d.data with
  | none => .ok none
  | some data => this.decodeData d.flags data

/-- The flags and the data of an object, not compressed. -/
def encodeData : Value V → CachedData
  | .string s => ⟨0, this.encodeString s⟩
  | .long n => ⟨SPECIAL_LONG, this.encodeLong n⟩
  | .integer n => ⟨SPECIAL_INT, this.encodeInt n⟩
  | .boolean b => ⟨SPECIAL_BOOLEAN, this.encodeBoolean b⟩
  | .date time => ⟨SPECIAL_DATE, this.encodeLong time⟩
  | .byte n => ⟨SPECIAL_BYTE, this.encodeByte n⟩
  | .float bits => ⟨SPECIAL_FLOAT, this.encodeInt bits⟩
  | .double bits => ⟨SPECIAL_DOUBLE, this.encodeLong bits⟩
  | .byteArray bytes => ⟨SPECIAL_BYTEARRAY, bytes⟩
  | .other obj => ⟨SERIALIZED, KryoSerializer.write this.kryo obj⟩

/-- A string that looks like JSON is not compressed. -/
def isJson : Value V → Bool
  | .string s => this.isJsonObject s
  | _ => false

def packed (o : Value V) : CachedData :=
  let d := this.encodeData o
  if this.isJson o then d
  else if this.compressionThreshold < d.data.length then
    let compressed := this.compress d.data
    if compressed.length < d.data.length then ⟨d.flags ||| COMPRESSED, compressed⟩ else d
  else d

/-- The constructor of `CachedData` throws for data that are too large. -/
def encode (o : Value V) : Except Failure CachedData :=
  let d := this.packed o
  if this.maxSize < d.data.length then .error .illegalArgument else .ok d

def RoundTrips (o : Value V) : Prop := ∃ d, this.encode o = .ok d ∧ this.decode d = .ok (some o)

/-- A string has no unpaired surrogates, and Kryo's stream of an object fits into its buffer. -/
def Whole : Value V → Prop
  | .string s => ∃ t : String, units t = s
  | .other obj => (this.kryo.stream obj).length ≤ bufferSize
  | _ => True

/-! ## The round trip -/

theorem decodeData_or_compressed (flags : Flags) (data : List Byte) :
    this.decodeData (flags ||| COMPRESSED) data = this.decodeData flags data := by
  have hor (mask : Flags) (h : COMPRESSED &&& mask = 0) :
      (flags ||| COMPRESSED) &&& mask = flags &&& mask := by
    rw [BitVec.and_or_distrib_right, h]
    exact BitVec.or_zero
  unfold decodeData
  rw [hor SERIALIZED (by decide), hor SPECIAL_MASK (by decide)]

theorem flags_not_compressed (o : Value V) : (this.encodeData o).flags &&& COMPRESSED = 0 := by
  cases o <;> simp only [encodeData] <;> decide

section
variable {this}
variable (h : this.Lawful)
include h

/-- Compression does not matter. -/
theorem decode_packed (o : Value V) :
    this.decode (this.packed o) = this.decodeData (this.encodeData o).flags (this.encodeData o).data := by
  have hplain : this.decode (this.encodeData o) =
      this.decodeData (this.encodeData o).flags (this.encodeData o).data := by
    unfold decode
    rw [if_neg (not_not.2 (this.flags_not_compressed o))]
  have hcompressed : this.decode ⟨(this.encodeData o).flags ||| COMPRESSED,
        this.compress (this.encodeData o).data⟩ =
      this.decodeData (this.encodeData o).flags (this.encodeData o).data := by
    have hflag : ((this.encodeData o).flags ||| COMPRESSED) &&& COMPRESSED ≠ 0 := by
      rw [BitVec.and_or_distrib_right, this.flags_not_compressed]
      decide
    unfold decode
    rw [if_pos hflag, h.decompress]
    exact this.decodeData_or_compressed _ _
  unfold packed
  split
  · exact hplain
  · dsimp only
    split
    · split
      · exact hcompressed
      · exact hplain
    · exact hplain

omit h in
theorem decodeData_special (flags : Flags) {data : List Byte} {o : Value V}
    (hflags : flags &&& SERIALIZED = 0 ∧ flags &&& SPECIAL_MASK = flags ∧ flags ≠ 0)
    (ho : this.decodeSpecial flags data = some o) :
    this.decodeData flags data = .ok (some o) := by
  obtain ⟨hserialized, hmask, hne⟩ := hflags
  unfold decodeData
  rw [if_neg (not_not.2 hserialized), hmask, if_pos hne, ho]

theorem decodeData_string (s : List Nat) :
    this.decodeData 0 (this.encodeString s) = .ok (some (.string s)) ↔
      ∃ t : String, units t = s := by
  have hdecode : this.decodeData 0 (this.encodeString s) =
      .ok (some (.string (this.decodeString (this.encodeString s)))) := by
    unfold decodeData
    rw [if_neg (by decide), if_neg (by decide)]
  rw [hdecode]
  constructor
  · intro heq
    obtain ⟨t, ht⟩ := h.characters (this.encodeString s)
    injection heq with heq
    injection heq with heq
    injection heq with heq
    exact ⟨t, ht.symm.trans heq⟩
  · rintro ⟨t, rfl⟩
    rw [h.string]

theorem decodeData_other (obj : V) :
    this.decodeData SERIALIZED (KryoSerializer.write this.kryo obj) = .ok (some (.other obj)) ↔
      (this.kryo.stream obj).length ≤ bufferSize := by
  have hdecode (data : List Byte) : this.decodeData SERIALIZED data =
      (KryoSerializer.read this.kryo data).map fun obj => some (.other obj) := by
    unfold decodeData
    rw [if_pos (by decide)]
  rw [hdecode]
  constructor
  · intro heq
    cases hread : KryoSerializer.read this.kryo (KryoSerializer.write this.kryo obj) with
    | error e =>
      rw [hread] at heq
      cases heq
    | ok obj' =>
      rw [hread] at heq
      cases heq
      -- What is read is no longer than what was written.
      have hstart := h.stream_read _ _ hread
      exact hstart.length_le.trans (KryoSerializer.length_write_le _ _)
  · intro hle
    rw [(KryoSerializer.write_eq_iff _ obj).2 hle]
    unfold KryoSerializer.read
    rw [h.read_stream]
    rfl

theorem decodeData_iff (o : Value V) :
    this.decodeData (this.encodeData o).flags (this.encodeData o).data = .ok (some o) ↔
      this.Whole o := by
  cases o with
  | string s => exact decodeData_string h s
  | other obj => exact decodeData_other h obj
  | long n =>
    refine iff_of_true (decodeData_special SPECIAL_LONG (by decide) ?_) trivial
    exact congrArg (some ∘ Value.long) (h.long n)
  | integer n =>
    refine iff_of_true (decodeData_special SPECIAL_INT (by decide) ?_) trivial
    exact congrArg (some ∘ Value.integer) (h.int n)
  | boolean b =>
    refine iff_of_true (decodeData_special SPECIAL_BOOLEAN (by decide) ?_) trivial
    exact congrArg (some ∘ Value.boolean) (h.boolean b)
  | date time =>
    refine iff_of_true (decodeData_special SPECIAL_DATE (by decide) ?_) trivial
    exact congrArg (some ∘ Value.date) (h.long time)
  | byte n =>
    refine iff_of_true (decodeData_special SPECIAL_BYTE (by decide) ?_) trivial
    exact congrArg (some ∘ Value.byte) (h.byte n)
  | float bits =>
    refine iff_of_true (decodeData_special SPECIAL_FLOAT (by decide) ?_) trivial
    exact congrArg (some ∘ Value.float) (h.int bits)
  | double bits =>
    refine iff_of_true (decodeData_special SPECIAL_DOUBLE (by decide) ?_) trivial
    exact congrArg (some ∘ Value.double) (h.long bits)
  | byteArray bytes => exact iff_of_true (decodeData_special SPECIAL_BYTEARRAY (by decide) rfl) trivial

omit h in
theorem roundTrips_eq (o : Value V) : this.RoundTrips o ↔
    (this.packed o).data.length ≤ this.maxSize ∧ this.decode (this.packed o) = .ok (some o) := by
  unfold RoundTrips encode
  constructor
  · rintro ⟨d, hencode, hdecode⟩
    dsimp only at hencode
    split at hencode
    · cases hencode
    · next hle =>
      cases hencode
      exact ⟨Nat.le_of_not_lt hle, hdecode⟩
  · rintro ⟨hle, hdecode⟩
    exact ⟨_, if_neg (Nat.not_lt.2 hle), hdecode⟩

end

/-- **Which values round-trip.** -/
theorem roundTrips_iff {this : KryoSerializingTranscoder V} (h : this.Lawful) (o : Value V) :
    this.RoundTrips o ↔ this.Whole o ∧ (this.packed o).data.length ≤ this.maxSize := by
  rw [roundTrips_eq, decode_packed h, decodeData_iff h, and_comm]

end KryoSerializingTranscoder

/-! ### A client -/

/-- The bytes of a number, without the zeros in front. -/
def encodeNum (width n : Nat) : List Byte := (Bytes.encode width n).dropWhile (· = 0)

theorem decode_encodeNum (width n : Nat) : Bytes.decode (encodeNum width n) = n % 256 ^ width := by
  have hdrop (bytes : List Byte) : Bytes.decode (bytes.dropWhile (· = 0)) = Bytes.decode bytes := by
    induction bytes with
    | nil => rfl
    | cons b bytes ih =>
      rw [List.dropWhile_cons]
      split
      · next hb =>
        rw [ih, of_decide_eq_true hb]
        rfl
      · rfl
  rw [encodeNum, hdrop, Bytes.decode_encode]

/-- UTF-8. -/
def encodeUtf8 (s : List Nat) : List Byte :=
  (String.ofList (characters s)).toByteArray.data.toList.map UInt8.toBitVec

def decodeUtf8 (bytes : List Byte) : String :=
  (String.fromUTF8? ⟨(bytes.map UInt8.ofBitVec).toArray⟩).getD "�"

theorem decodeUtf8_units (s : String) : decodeUtf8 (encodeUtf8 (units s)) = s := by
  have hmap (l : List UInt8) : (l.map UInt8.toBitVec).map UInt8.ofBitVec = l := by
    rw [List.map_map]
    exact List.map_id l
  unfold decodeUtf8 encodeUtf8
  rw [characters_units, String.ofList_toList, hmap]
  show (String.fromUTF8? s.toByteArray).getD _ = s
  rw [String.fromUTF8?, dif_pos s.isValidUTF8]
  rfl

/-- Lists of bytes: each element comes after a one, and a zero at the end. -/
def readList : List Byte → Except Failure (List Byte)
  | [] => .error .kryo
  | [mark] => if mark = 0 then .ok [] else .error .kryo
  | mark :: b :: bytes =>
    if mark = 0 then .ok []
    else if mark = 1 then (readList bytes).map (b :: ·)
    else .error .kryo

def listKryo : Kryo (List Byte) where
  writeClassAndObject obj := obj.map (fun b => ⟨[1, b], by simp [bufferSize]⟩) ++ [⟨[0], by decide⟩]
  readClassAndObject := readList

theorem stream_cons (b : Byte) (obj : List Byte) :
    listKryo.stream (b :: obj) = 1 :: b :: listKryo.stream obj := rfl

theorem readList_stream (obj : List Byte) : readList (listKryo.stream obj) = .ok obj := by
  induction obj with
  | nil => rfl
  | cons b obj ih =>
    rw [stream_cons, readList, if_neg (by decide), if_pos rfl, ih]
    rfl

theorem stream_readList {bytes obj : List Byte} (h : readList bytes = .ok obj) :
    listKryo.stream obj <+: bytes := by
  induction bytes using readList.induct generalizing obj with
  | case1 => cases h
  | case2 =>
    cases h
    exact List.prefix_rfl
  | case3 mark hmark =>
    rw [readList, if_neg hmark] at h
    cases h
  | case4 b bytes =>
    cases h
    exact List.prefix_append [0] (b :: bytes)
  | case5 b bytes hmark ih =>
    rw [readList, if_neg hmark, if_pos rfl] at h
    cases hread : readList bytes with
    | error e =>
      rw [hread] at h
      cases h
    | ok rest =>
      rw [hread] at h
      cases h
      rw [stream_cons]
      exact List.cons_prefix_cons.2 ⟨rfl, List.cons_prefix_cons.2 ⟨rfl, ih hread⟩⟩
  | case6 mark b bytes hmark hone =>
    rw [readList, if_neg hmark, if_neg hone] at h
    cases h

/-- The defaults of the client for the threshold and the size. -/
def client : KryoSerializingTranscoder (List Byte) where
  encodeLong n := encodeNum 8 n.toBitVec.toNat
  decodeLong bytes := Int64.ofBitVec (BitVec.ofNat 64 (Bytes.decode bytes))
  encodeInt n := encodeNum 4 n.toBitVec.toNat
  decodeInt bytes := Int32.ofBitVec (BitVec.ofNat 32 (Bytes.decode bytes))
  encodeBoolean b := [if b then 49 else 48]
  decodeBoolean bytes := bytes = [49]
  encodeByte n := [n.toBitVec]
  decodeByte bytes := Int8.ofBitVec (bytes.headD 0)
  encodeString := encodeUtf8
  decodeString bytes := units (decodeUtf8 bytes)
  compress bytes := bytes
  decompress bytes := some bytes
  isJsonObject s := s.head? = some '{'.toNat ∨ s.head? = some '['.toNat
  kryo := listKryo
  compressionThreshold := 16384
  maxSize := 20 * 1024 * 1024

theorem decode_long (n : BitVec 64) : BitVec.ofNat 64 (Bytes.decode (encodeNum 8 n.toNat)) = n := by
  have hlt : n.toNat < 256 ^ 8 := lt_of_lt_of_eq n.isLt (by norm_num)
  rw [decode_encodeNum, Nat.mod_eq_of_lt hlt, BitVec.ofNat_toNat, BitVec.setWidth_eq]

theorem decode_int (n : BitVec 32) : BitVec.ofNat 32 (Bytes.decode (encodeNum 4 n.toNat)) = n := by
  have hlt : n.toNat < 256 ^ 4 := lt_of_lt_of_eq n.isLt (by norm_num)
  rw [decode_encodeNum, Nat.mod_eq_of_lt hlt, BitVec.ofNat_toNat, BitVec.setWidth_eq]

theorem client_lawful : client.Lawful where
  long n := congrArg Int64.ofBitVec (decode_long n.toBitVec)
  int n := congrArg Int32.ofBitVec (decode_int n.toBitVec)
  boolean := by decide
  byte _ := rfl
  string s := by
    have hencode (l : List Nat) : client.encodeString l = encodeUtf8 l := rfl
    have hdecode (bytes : List Byte) : client.decodeString bytes = units (decodeUtf8 bytes) := rfl
    rw [hencode, hdecode, decodeUtf8_units]
  characters bytes := ⟨decodeUtf8 bytes, rfl⟩
  decompress _ := rfl
  read_stream := readList_stream
  stream_read _ _ := stream_readList

theorem roundTrips_list : client.RoundTrips (.other [1, 2, 3]) :=
  (KryoSerializingTranscoder.roundTrips_iff client_lawful _).2
    ⟨(by decide : (listKryo.stream [1, 2, 3]).length ≤ bufferSize), by decide⟩

theorem length_stream (obj : List Byte) : (listKryo.stream obj).length = 2 * obj.length + 1 := by
  induction obj with
  | nil => rfl
  | cons b obj ih =>
    rw [stream_cons, List.length_cons, List.length_cons, List.length_cons, ih]
    omega

/-- Of 4097 bytes, only the last is left in the buffer. -/
theorem not_roundTrips_long : ¬ ∀ o, client.RoundTrips o := by
  intro h
  have hdecode := (KryoSerializingTranscoder.roundTrips_eq _).1 (h (.other (.replicate 2048 0)))
  rw [KryoSerializingTranscoder.decode_packed client_lawful,
    KryoSerializingTranscoder.decodeData_iff client_lawful] at hdecode
  have hle : (listKryo.stream (.replicate 2048 0)).length ≤ bufferSize := hdecode.2
  rw [length_stream, List.length_replicate] at hle
  exact absurd hle (by decide)

end BaseService.Memcached
