/-!
# Events

An event is a flag with a bit for a pending notification and a bit for the
loss of one of its ends.  Every function below is one atomic access.
-/

namespace Thubo

/-- The flag of an event. -/
structure Event where
  ok : Bool
  err : Bool
deriving DecidableEq, Repr

/-- Result of checking the flag. -/
inductive EventCheck where
  | unset
  | ok
  | err
deriving DecidableEq, Repr

namespace Event

def new : Event :=
  ⟨false, false⟩

/-- Check the flag and clear its notification. -/
def check (event : Event) : EventCheck × Event :=
  let after := { event with ok := false }
  if event.err then
    (.err, after)
  else if event.ok then
    (.ok, after)
  else
    (.unset, after)

/-- Set the notification; whether both ends are there. -/
def set (event : Event) : Bool × Event :=
  (!event.err, { event with ok := true })

/-- One end is dropped.  The store overwrites a pending notification. -/
def fail (_ : Event) : Event :=
  ⟨false, true⟩

end Event
end Thubo
