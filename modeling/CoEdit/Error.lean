import CoEdit.Identity

/-!
# Errors

What can go wrong, as causes. `SyncError.message` gives the wording; nothing else in the library
looks at the text.
-/

namespace CoEdit

/-- Why the arguments of a call are refused. -/
inductive ArgumentFault where
  | untaggedUpdate
  | emptyUpdate
deriving DecidableEq

/-- How a peer broke the protocol. -/
inductive ProtocolFault where
  | revisionAhead (revision length : Nat)
  | nothingInFlight (site : SiteId)
  | stalledBuffer (site : SiteId) (buffered : Nat)
deriving DecidableEq

/-- Errors of the library. -/
inductive SyncError where
  | positionOutOfRange (position size : Nat)
  | unsupportedPair (remote own : String)
  | unstamped
  | invalidArgument (fault : ArgumentFault)
  | unknownField (tag field : String)
  | wrongTag (expected found : String)
  | stateShape (expected found : Nat)
  | missingAxis (axis : Nat)
  | cursorTaken (id : CursorId)
  | unknownCursor (id : CursorId)
  | notJoined
  | alreadyJoined
  | unknownSite (site : SiteId)
  | siteTaken (site : SiteId)
  | protocol (fault : ProtocolFault)
  | malformed
deriving DecidableEq

namespace ArgumentFault

def message : ArgumentFault → String
  | untaggedUpdate => "entity update without a type tag"
  | emptyUpdate => "entity update without any field"

end ArgumentFault

namespace ProtocolFault

def message : ProtocolFault → String
  | revisionAhead revision length =>
    "revision " ++ toString revision ++ " is ahead of history length " ++ toString length
  | nothingInFlight site =>
    "site " ++ site.text ++ " got an acknowledgement with nothing in flight"
  | stalledBuffer site buffered =>
    "site " ++ site.text ++ " has " ++ toString buffered
      ++ " buffered operations but none in flight"

end ProtocolFault

namespace SyncError

def message : SyncError → String
  | positionOutOfRange position size =>
    "Position " ++ toString position ++ " out of range for model of size " ++ toString size
  | unsupportedPair remote own =>
    "No transformation for remote " ++ remote ++ " against local " ++ own
  | unstamped => "Operation carries no metadata"
  | invalidArgument fault => "Invalid argument: " ++ fault.message
  | unknownField tag field => "Entity type " ++ tag ++ " has no field " ++ field
  | wrongTag expected found =>
    "Entity type mismatch: expected " ++ expected ++ ", found " ++ found
  | stateShape expected found =>
    "State has " ++ toString found ++ " components, expected " ++ toString expected
  | missingAxis axis => "State has no component " ++ toString axis
  | cursorTaken id => "Cursor " ++ id.name ++ " is already registered"
  | unknownCursor id => "Cursor " ++ id.name ++ " is not registered"
  | notJoined => "Replica has not received its initial fill"
  | alreadyJoined => "Replica has already been filled"
  | unknownSite site => "Unknown site " ++ site.text
  | siteTaken site => "Site " ++ site.text ++ " is already registered"
  | protocol fault => "Protocol violation: " ++ fault.message
  | malformed => "Serialization error"

end SyncError

end CoEdit
