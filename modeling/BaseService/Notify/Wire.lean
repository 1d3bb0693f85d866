import BaseService.Notify.Message
import BaseService.Notify.ObjectTree

/-!
# Messages on the wire

* `Message.bean`, `Message.toString` : the message as the encoder sees it, and its text;
* `IsText`, `bean_isText` : the text is a string of characters;
* `Wire` : what the charset and json-lib do; `convert_toString` : the round trip.
-/

namespace BaseService.Notify
open JsonUtil
open Failing (bind_ok)

def nullable : Option String → Tree
  | none => .null
  | some s => .string (units s)

namespace Message

/-- The properties in the order of the `BeanInfo`, which is that of their names. -/
def properties (this : Message) : List (List Nat × Tree) :=
  [(units "h", nullable this.h), (units "m", nullable this.m),
    (units "p", .primitive (.integer this.p)), (units "t", nullable this.t)]

def bean (this : Message) : Tree := .bean this.properties

def toString (this : Message) : Action (List Nat) := getJsonStringFromObject this.bean.toObj

end Message

/-- What `SmcNSQProducer.produce(topic, message)` gives to the `NSQProducer`. -/
def produce (getBytes : List Nat → List Byte) (message : String) : Action (List Byte) := do
  let msg : Message := ⟨none, none, 0, some message⟩
  let text ← msg.toString
  pure (getBytes text)

/-- The two ends of the wire: they have one charset, which can encode every string, and json-lib
gives a message the fields that a text has for it. -/
structure Wire (getBytes : List Nat → List Byte) (platform : Platform) : Prop where
  charset : ∀ s : String, platform.newString (getBytes (units s)) = s
  decodes : ∀ (text : String) (message : Message),
    Json.parse (units text) = some message.bean.value → platform.toBean text = .ok (some message)

/-! ## The text of a message -/

/-- The units of a string of characters. -/
def IsText (l : List Nat) : Prop := ∃ s : String, units s = l

theorem IsText.append {l l' : List Nat} (h : IsText l) (h' : IsText l') : IsText (l ++ l') := by
  obtain ⟨s, rfl⟩ := h
  obtain ⟨s', rfl⟩ := h'
  exact ⟨s ++ s', units_append s s'⟩

theorem isText_ascii {l : List Nat} (h : ∀ u ∈ l, u < 128) : IsText l := exists_units_of_ascii h

theorem isText_nullable (s : Option String) : IsText (nullable s).text := by
  cases s with
  | none =>
    rw [nullable, Tree.text]
    exact ⟨"null", rfl⟩
  | some s =>
    rw [nullable, Tree.text]
    have hq : IsText ['"'.toNat] := isText_ascii (by decide)
    exact hq.append (IsText.append (quoted_units 0 s) hq)

theorem isText_join {parts : List (List Nat)} (h : ∀ part ∈ parts, IsText part) :
    IsText (Json.join parts) := by
  induction parts with
  | nil => exact ⟨"", rfl⟩
  | cons part parts ih =>
    obtain ⟨hpart, hparts⟩ := List.forall_mem_cons.mp h
    cases parts with
    | nil => exact hpart
    | cons next parts =>
      have hcomma : IsText [','.toNat] := isText_ascii (by decide)
      exact hpart.append (hcomma.append (ih hparts))

namespace Message
variable (this : Message)

theorem memberTexts_ne_nil : memberTexts true this.properties ≠ [] := by
  rw [Ne, memberTexts_eq_nil, not_not]
  exact ⟨(units "p", .primitive (.integer this.p)), by simp [properties], rfl⟩

theorem bean_text : this.bean.text =
    '{'.toNat :: Json.join (memberTexts true this.properties) ++ ['}'.toNat] := by
  rw [bean, Tree.text]
  exact if_neg fun h => this.memberTexts_ne_nil h.2

theorem bean_isText : IsText this.bean.text := by
  have hpart : ∀ p ∈ this.properties, IsText p.1 ∧ IsText p.2.text := by
    simp only [properties, List.forall_mem_cons, List.not_mem_nil, false_implies, implies_true,
      and_true, isText_nullable]
    refine ⟨⟨_, rfl⟩, ⟨_, rfl⟩, ⟨⟨_, rfl⟩, ?_⟩, ⟨_, rfl⟩⟩
    rw [Tree.text]
    exact ⟨_, rfl⟩
  have hparts : ∀ part ∈ memberTexts true this.properties, IsText part := by
    intro part hmem
    rw [(members_eq true this.properties).1] at hmem
    obtain ⟨p, hp, rfl⟩ := List.mem_map.mp hmem
    obtain ⟨hname, htext⟩ := hpart p (List.mem_filter.mp hp).1
    have hquote : IsText ['"'.toNat] := isText_ascii (by decide)
    have hcolon : IsText ['"'.toNat, ':'.toNat] := isText_ascii (by decide)
    exact ((hquote.append hname).append hcolon).append htext
  rw [bean_text]
  have hopen : IsText ['{'.toNat] := isText_ascii (by decide)
  have hclose : IsText ['}'.toNat] := isText_ascii (by decide)
  exact (hopen.append (isText_join hparts)).append hclose

theorem bean_regular : this.bean.Regular := by
  rw [bean, Tree.Regular, (members_eq true this.properties).2.2]
  refine ⟨Or.inr ⟨(units "p", .primitive (.integer this.p)), by simp [properties], rfl⟩, ?_⟩
  intro p hp
  have hmem := (List.mem_filter.mp hp).1
  have hnull : ∀ s, (nullable s).Regular := fun s => by
    cases s <;> rw [nullable, Tree.Regular] <;> trivial
  simp only [properties, List.mem_cons, List.not_mem_nil, or_false] at hmem
  rcases hmem with rfl | rfl | rfl | rfl
  · exact ⟨(by decide : Json.Unescaped (units "h")), hnull _⟩
  · exact ⟨(by decide : Json.Unescaped (units "m")), hnull _⟩
  · exact ⟨(by decide : Json.Unescaped (units "p")), by rw [Tree.Regular]; trivial⟩
  · exact ⟨(by decide : Json.Unescaped (units "t")), hnull _⟩

end Message

theorem not_blank {s : String} {l : List Nat} (h : units s = '{'.toNat :: l) :
    StringUtils.isBlank s = false := by
  unfold units at h
  unfold StringUtils.isBlank
  cases hs : s.toList with
  | nil =>
    rw [hs] at h
    cases h
  | cons c cs =>
    rw [hs, List.flatMap_cons] at h
    by_cases hc : c.toNat < 0x10000
    · have hunits : utf16 c = [c.toNat] := if_pos hc
      rw [hunits] at h
      have hbrace : c.toNat = '{'.toNat := (List.cons.inj h).1
      obtain rfl : c = '{' := Char.toNat_inj.mp hbrace
      rfl
    · have hunits : utf16 c = [0xD800 + (c.toNat - 0x10000) / 0x400,
        0xDC00 + (c.toNat - 0x10000) % 0x400] := if_neg hc
      rw [hunits] at h
      have hbrace : 0xD800 + (c.toNat - 0x10000) / 0x400 = 123 := (List.cons.inj h).1
      omega

/-! ## The round trip -/

section
variable {getBytes : List Nat → List Byte} {platform : Platform} {thread : Thread}

theorem convert_bean (hwire : Wire getBytes platform) (message : Message) :
    Message.convert platform (platform.newString (getBytes message.bean.text)) = some message := by
  obtain ⟨text, htext⟩ := message.bean_isText
  have hblank : StringUtils.isBlank text = false := not_blank (htext.trans message.bean_text)
  have hparse : Json.parse (units text) = some message.bean.value := by
    rw [htext]
    exact (Json.parse_exact (text_exact _)).mpr message.bean_regular
  rw [← htext, hwire.charset, Message.convert, hblank, hwire.decodes text message hparse]
  rfl

/-- **Messages survive the wire**, and `produce` delivers the string it is given. The thread has no
builder, as before its first message and again after each. -/
theorem convert_toString (hwire : Wire getBytes platform) (hthread : thread.localBuilder = none) :
    (∀ message : Message, ∃ s thread', message.toString thread = (.ok s, thread') ∧
      thread'.localBuilder = none ∧
      Message.convert platform (platform.newString (getBytes s)) = some message) ∧
    ∀ s : String, ∃ bytes thread', produce getBytes s thread = (.ok bytes, thread') ∧
      thread'.localBuilder = none ∧
      ∃ message, Message.convert platform (platform.newString bytes) = some message ∧
        message.m = some s := by
  have htext : ∀ message : Message, ∃ thread',
      message.toString thread = (.ok message.bean.text, thread') ∧
        thread'.localBuilder = none := fun message => by
    obtain ⟨htext, hnone⟩ := getJsonStringFromObject_text message.bean hthread
    exact ⟨_, Prod.ext htext rfl, hnone⟩
  constructor
  · intro message
    obtain ⟨thread', hr, hnone⟩ := htext message
    exact ⟨_, thread', hr, hnone, convert_bean hwire message⟩
  · intro s
    let msg : Message := ⟨none, none, 0, some s⟩
    obtain ⟨thread', hr, hnone⟩ := htext msg
    refine ⟨getBytes msg.bean.text, thread', ?_, hnone, msg, convert_bean hwire msg, rfl⟩
    rw [produce, bind_ok hr]
    rfl

end

/-! ### UTF-16 -/

/-- `getBytes` in the charset UTF-16BE. -/
def utf16Bytes (l : List Nat) : List Byte := l.flatMap (Bytes.encode 2)

def unitsOfBytes : List Byte → List Nat
  | a :: b :: rest => Bytes.decode [a, b] :: unitsOfBytes rest
  | _ => []

theorem unitsOfBytes_units (s : String) : unitsOfBytes (utf16Bytes (units s)) = units s := by
  have hlt : ∀ u ∈ units s, u < 0x10000 := by
    intro u hu
    obtain ⟨c, -, hu⟩ := List.mem_flatMap.mp hu
    have hvalid : c.toNat < 0xD800 ∨ 0xDFFF < c.toNat ∧ c.toNat < 0x110000 := c.valid
    unfold utf16 at hu
    split at hu
    · rw [List.mem_singleton.mp hu]
      assumption
    · simp only [List.mem_cons, List.not_mem_nil, or_false] at hu
      omega
  generalize units s = l at hlt
  induction l with
  | nil => rfl
  | cons u l ih =>
    obtain ⟨hu, hl⟩ := List.forall_mem_cons.mp hlt
    have hdecode : Bytes.decode (Bytes.encode 2 u) = u :=
      (Bytes.decode_encode 2 u).trans (Nat.mod_eq_of_lt hu)
    have hcons : unitsOfBytes (utf16Bytes (u :: l)) =
      Bytes.decode (Bytes.encode 2 u) :: unitsOfBytes (utf16Bytes l) := rfl
    rw [hcons, hdecode, ih hl]

def stringField (members : List (List Nat × Json)) (name : String) : Option String :=
  match members.lookup (units name) with
  | some (.string s) => some (String.ofList (characters s))
  | _ => none

/-- UTF-16BE, and a message from the members of an object. -/
def utf16Platform : Platform where
  newString bytes := String.ofList (characters (unitsOfBytes bytes))
  toBean text :=
    match Json.parse (units text) with
    | some (.object members) => .ok (some
        { t := stringField members "t"
          h := stringField members "h"
          p := match members.lookup (units "p") with
            | some (.number n) => n.num
            | _ => 0
          m := stringField members "m" })
    | _ => .error .jsonException

theorem utf16_wire : Wire utf16Bytes utf16Platform := by
  constructor
  · intro s
    simp only [utf16Platform, unitsOfBytes_units, characters_units, String.ofList_toList]
  · intro text message hparse
    have hobject : message.bean.value = .object (memberValues true message.properties) := rfl
    have hmembers : memberValues true message.properties =
        message.h.toList.map (fun s => (units "h", .string (units s))) ++
        message.m.toList.map (fun s => (units "m", .string (units s))) ++
        (units "p", .number message.p) ::
        message.t.toList.map (fun s => (units "t", .string (units s))) := by
      obtain ⟨t, h, p, m⟩ := message
      cases t <;> cases h <;> cases m <;> rfl
    have hfield : ∀ s : String, String.ofList (characters (units s)) = s := fun s => by
      rw [characters_units, String.ofList_toList]
    obtain ⟨t, h, p, m⟩ := message
    simp only [utf16Platform, hparse, hobject, hmembers]
    have hh : units "h" = [104] := rfl
    have hm : units "m" = [109] := rfl
    have hp : units "p" = [112] := rfl
    have ht : units "t" = [116] := rfl
    cases t <;> cases h <;> cases m <;> simp [stringField, List.lookup, hh, hm, hp, ht, hfield]

theorem convert_toString_utf16 :
    ∃ s thread', Message.toString ⟨some "t", none, -1, some "😀"⟩ .init = (.ok s, thread') ∧
      thread'.localBuilder = none ∧
      Message.convert utf16Platform (utf16Platform.newString (utf16Bytes s)) =
        some ⟨some "t", none, -1, some "😀"⟩ :=
  (convert_toString utf16_wire rfl).1 ⟨some "t", none, -1, some "😀"⟩

end BaseService.Notify
