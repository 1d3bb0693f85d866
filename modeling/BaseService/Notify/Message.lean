import BaseService.Data.Bytes
import BaseService.StringUtils

/-!
# Messages

`Host`, `MessageType` and `Message`, and the decoding of a message body by `Message.convert`. The
charset of the platform and json-lib are not part of the repository; `Platform` has what the
callbacks use of them.
-/

namespace BaseService.Notify

structure Host where
  host : Option String
  port : Int
  deriving DecidableEq, Repr

/-- `StringBuilder.append` writes a null reference as `null`. -/
def Host.toString (this : Host) : String :=
  (match this.host with
    | some host => StringUtils.replace host '.' '_'
    | none => "null") ++ "-" ++ ToString.toString this.port

inductive MessageType
  | LOCAL_CAHCE_DELETE
  | LOCAL_CACHE_REFRUSH_GROUP
  | SCHEDULE_SINGLE_EXECUTE
  | SCHEDULE_ALL_EXECUTE
  deriving DecidableEq, Repr

namespace MessageType

def code : MessageType → String
  | LOCAL_CAHCE_DELETE => "LD"
  | LOCAL_CACHE_REFRUSH_GROUP => "LR"
  | SCHEDULE_SINGLE_EXECUTE => "SS"
  | SCHEDULE_ALL_EXECUTE => "SA"

def values : List MessageType :=
  [LOCAL_CAHCE_DELETE, LOCAL_CACHE_REFRUSH_GROUP, SCHEDULE_SINGLE_EXECUTE, SCHEDULE_ALL_EXECUTE]

def getMessageTypeByCode (code : Option String) : Option MessageType :=
  values.find? fun each => some each.code = code

/-- A type is found by its code. -/
theorem getMessageTypeByCode_code (type : MessageType) :
    getMessageTypeByCode (some type.code) = some type := by
  cases type <;> decide

end MessageType

/-- Type, host and port of the sender, and the content. -/
structure Message where
  t : Option String
  h : Option String
  p : Int
  m : Option String
  deriving DecidableEq, Repr

/-- `new Message(type, host, port, message)`. -/
def Message.new (type : MessageType) (host : Host) (message : String) : Message :=
  ⟨some type.code, host.host, host.port, some message⟩

/-- The `JSONException` of json-lib. -/
inductive JSONException
  | jsonException

structure Platform where
  /-- `new String(bytes)`, in the charset of the platform. -/
  newString : List Byte → String
  /-- `JSONObject.toBean(JSONObject.fromObject(json), Message.class)`, which may be null. -/
  toBean : String → Except JSONException (Option Message)

/-- `Message.convert`; `none` is null. -/
def Message.convert (platform : Platform) (json : String) : Option Message :=
  if StringUtils.isBlank json then none
  else
    match platform.toBean json with
    | .ok msg => msg
    | .error _ => some ⟨none, none, 0, some json⟩

end BaseService.Notify
