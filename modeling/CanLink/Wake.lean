/-!
Wake signals: a hint from one side of a ring to the other that there is something to do. A
notification that nobody waits for is remembered until the next wait, which consumes it; several
count as one.
-/

namespace CanLink

inductive Wake where
  /-- Wakes nobody; for peers that poll. -/
  | never
  | event (signaled : Bool)
  deriving DecidableEq, Repr

namespace Wake

def notify : Wake → Wake
  | never => never
  | event _ => event true

/-- A wait without delay: was there a notification, which is then consumed? -/
def wait : Wake → Bool × Wake
  | never => (false, never)
  | event signaled => (signaled, event false)

end Wake

end CanLink
