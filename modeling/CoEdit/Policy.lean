import CoEdit.Operation

/-!
# Conflict policy

The policy settles what becomes of two concurrent updates of one element. The server orders the two;
the policy says whether the earlier or the later one prevails, and each side of a link knows from
its role which of them that is. Whole replacements beat entity updates under both policies, and of
two entity updates the weaker one keeps the fields that the other does not write.
-/

namespace CoEdit

/-- Which side of a link transforms an operation pair. What the server holds came first. -/
inductive Role where
  | client
  | server
deriving DecidableEq, Inhabited

inductive Policy where
  | firstWriterWins
  | lastWriterWins
deriving DecidableEq

instance : Inhabited Policy := ⟨.lastWriterWins⟩

namespace Operation

variable {α : Type}

/-- An entity update without the fields in `taken`, cancelled if none is left. Other operations
stay as they are. -/
def without (op : Operation α) (taken : Fields) : Operation α :=
  match op.edit with
  | .update p tag delta =>
    let rest := delta.filterKeys fun f => !taken.contains f
    if rest.isEmpty then op.collapsed else { op with edit := .update p tag rest }
  | _ => op

end Operation

namespace Policy

variable {α : Type}

/-- Whether the remote one of two updates prevails at a side. On the server the remote operation
is the later one, on a client it is the earlier one. -/
def prefersRemote : Policy → Role → Bool
  | firstWriterWins, .client | lastWriterWins, .server => true
  | firstWriterWins, .server | lastWriterWins, .client => false

/-- Settles two concurrent updates of one element; no other pair is settled. -/
def resolve (policy : Policy) (role : Role) (remote own : Operation α) :
    Except SyncError (Operation α × Operation α) :=
  match remote.edit, own.edit with
  | .replace .., .replace .. =>
    .ok (if policy.prefersRemote role then (remote, own.collapsed) else (remote.collapsed, own))
  | .update _ _ theirs, .update _ _ ours =>
    .ok (if policy.prefersRemote role then (remote, own.without theirs)
      else (remote.without ours, own))
  | .replace .., .update .. => .ok (remote, own.collapsed)
  | .update .., .replace .. => .ok (remote.collapsed, own)
  | _, _ => .error (.unsupportedPair remote.edit.kindName own.edit.kindName)

end Policy

end CoEdit
