import CoEdit.LocalCopy

/-!
# Messages

Messages that the network carries for one document.
-/

namespace CoEdit

/-- Payload of a message. -/
inductive Message (α : Type) where
  | operation (op : Operation α)
  | fill (data : Fill α)
deriving DecidableEq

end CoEdit
