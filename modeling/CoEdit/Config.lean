import CoEdit.LocalCopy

/-!
# Configuration

What the replicas of one document agree on.
-/

namespace CoEdit

/-- With wave a client has one operation in flight, which the server's echo acknowledges. With
jupiter any number is under way, counted at both ends of a link. -/
inductive AlgorithmKind where
  | wave
  | jupiter
deriving DecidableEq

instance : Inhabited AlgorithmKind := ⟨.wave⟩

/-- Configuration shared by all replicas of a document. -/
structure Config where
  algorithm : AlgorithmKind
  policy : Policy
  fillMode : FillMode
deriving DecidableEq, Inhabited

end CoEdit
