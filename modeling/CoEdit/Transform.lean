import CoEdit.Policy

/-!
# Inclusion transformation

Two operations made from the same document are rewritten, each for the document that the other one
leaves, so that both orders of application end in the same sequence.

An insertion pushes everything at or behind its position one place up, a deletion pulls everything
behind its position one place down, and an update moves nothing. Of two insertions at one position
the server's keeps it. What was deleted cannot be changed or deleted again, and two updates of one
element are settled by the policy.

Positions are unbounded numbers. An insertion that pushes a position past the last word, where a
machine stops or starts again at zero, is outside of what is described here.
-/

namespace CoEdit

/-- An edit as far as positions go. -/
inductive Shape where
  | noop
  | insert (position : Nat)
  | update (position : Nat)
  | delete (position : Nat)
deriving DecidableEq

variable {α : Type}

/-- Replacements and entity updates look alike from outside the element. -/
def Edit.shape : Edit α → Shape
  | .noop => .noop
  | .insert p _ => .insert p
  | .delete p => .delete p
  | .replace p _ | .update p _ _ => .update p

/-- The table of all cases, with the steps up and down left open: it is the same for the steps of a
machine. -/
def transformBy (up down : Nat → Nat) (policy : Policy) (role : Role) (remote own : Operation α) :
    Except SyncError (Operation α × Operation α) :=
  match remote.edit.shape, own.edit.shape with
  | .noop, _ | _, .noop => .ok (remote, own)
  | .insert r, .insert l =>
    if r < l ∨ r = l ∧ role = .client then .ok (remote, own.moveTo (up l))
    else .ok (remote.moveTo (up r), own)
  | .insert r, .update l =>
    if r ≤ l then .ok (remote, own.moveTo (up l)) else .ok (remote, own)
  | .insert r, .delete l =>
    if r ≤ l then .ok (remote, own.moveTo (up l)) else .ok (remote.moveTo (down r), own)
  | .update r, .insert l =>
    if r < l then .ok (remote, own) else .ok (remote.moveTo (up r), own)
  | .update r, .update l =>
    if r = l then policy.resolve role remote own else .ok (remote, own)
  | .update r, .delete l =>
    if r < l then .ok (remote, own)
    else if r = l then .ok (remote.collapsed, own)
    else .ok (remote.moveTo (down r), own)
  | .delete r, .insert l =>
    if r < l then .ok (remote, own.moveTo (down l)) else .ok (remote.moveTo (up r), own)
  | .delete r, .update l =>
    if r < l then .ok (remote, own.moveTo (down l))
    else if r = l then .ok (remote, own.collapsed)
    else .ok (remote, own)
  | .delete r, .delete l =>
    if r < l then .ok (remote, own.moveTo (down l))
    else if r = l then .ok (remote.collapsed, own.collapsed)
    else .ok (remote.moveTo (down r), own)

/-- Rewrites a remote operation and a local one for each other. -/
def transform (policy : Policy) (role : Role) (remote own : Operation α) :
    Except SyncError (Operation α × Operation α) :=
  transformBy (· + 1) (· - 1) policy role remote own

/-- Takes a remote operation past a queue of local ones, the oldest first, and rewrites the queue
for the document with the remote operation applied. -/
def transformPast (policy : Policy) (role : Role) (remote : Operation α) :
    List (Operation α) → Except SyncError (Operation α × List (Operation α))
  | [] => .ok (remote, [])
  | own :: rest => do
    let (remote, own) ← transform policy role remote own
    let (remote, rest) ← transformPast policy role remote rest
    return (remote, own :: rest)

end CoEdit
