import CoEdit.Error
import CoEdit.Text.Quoted

/-!
# State vectors

One event counter per axis. What an axis counts is up to the algorithm that owns the vector. An axis
that does not exist reads as zero and cannot be written.

Counters are unbounded. What a machine does as it counts past the last word is left out.
-/

namespace CoEdit

/-- Event counters, one per axis. -/
structure StateVector where
  components : List Nat
deriving DecidableEq, Inhabited

namespace StateVector

/-- The vector of `axes` counters that have counted nothing. -/
def zeroed (axes : Nat) : StateVector := ⟨List.replicate axes 0⟩

def size (v : StateVector) : Nat := v.components.length

def isEmpty (v : StateVector) : Bool := v.components.isEmpty

def get (v : StateVector) (axis : Nat) : Nat := v.components.getD axis 0

/-- Overwrites the count on an axis. -/
def set (v : StateVector) (axis value : Nat) : Except SyncError StateVector :=
  if axis < v.size then .ok ⟨v.components.set axis value⟩ else .error (.missingAxis axis)

/-- Counts one event on an axis. -/
def increment (v : StateVector) (axis : Nat) : Except SyncError StateVector :=
  v.set axis (v.get axis + 1)

/-- Takes over all counts of a vector of the same shape. -/
def copyFrom (v w : StateVector) : Except SyncError StateVector :=
  if w.size = v.size then .ok w else .error (.stateShape v.size w.size)

/-- Axis and count in parentheses, all in brackets. -/
def text (v : StateVector) : String :=
  "[" ++ Text.joined "," (v.components.zipIdx.map fun (count, axis) =>
    "(" ++ toString axis ++ ":" ++ toString count ++ ")") ++ "]"

theorem get_of_size_le {v : StateVector} {axis : Nat} (h : v.size ≤ axis) : v.get axis = 0 := by
  simp [get, List.getElem?_eq_none h]

theorem copyFrom_of_size {v w : StateVector} (shape : w.size = v.size) :
    v.copyFrom w = .ok w := if_pos shape

example : (StateVector.mk [3, 2]).text = "[(0:3),(1:2)]" := by decide +kernel

end StateVector

end CoEdit
