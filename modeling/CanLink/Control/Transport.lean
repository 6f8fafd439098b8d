import CanLink.Bytes

/-!
The way to the server that owns the device. Control messages need configuration access, which one
client holds at a time; `withAccess` takes it, does some work and always gives it back. `Recorded`
adds a record of all calls to any transport.
-/

namespace CanLink

/-- A transport with state `τ`. Every call gives an answer and the state after it. -/
class Transport (τ : Type) where
  /-- Asks for configuration access; false if another client holds it. -/
  acquire : τ → Except Error Bool × τ
  /-- Gives configuration access back. -/
  release : τ → Except Error Unit × τ
  /-- Sends one control message. -/
  send : Bytes → τ → Except Error Unit × τ

namespace Transport

variable {τ α : Type} [Transport τ]

/-- Sends messages in order up to the first that is rejected. -/
def sendAll : List Bytes → τ → Except Error Unit × τ
  | [], t => (.ok (), t)
  | message :: rest, t =>
      match send message t with
      | (.error e, t) => (.error e, t)
      | (.ok (), t) => sendAll rest t

/-- Sends messages in order, each whatever became of the others. -/
def sendEach : List Bytes → τ → List (Except Error Unit) × τ
  | [], t => ([], t)
  | message :: rest, t =>
      let (answer, t) := send message t
      let (answers, t) := sendEach rest t
      (answer :: answers, t)

/-- Does some work with configuration access held. Access is given back when the work is done, and
it does not matter if that fails. -/
def withAccess (work : τ → α × τ) (t : τ) : Except Error α × τ :=
  match acquire t with
  | (.error e, t) => (.error e, t)
  | (.ok false, t) => (.error .accessDenied, t)
  | (.ok true, t) =>
      let (result, t) := work t
      let (_, t) := release t
      (.ok result, t)

end Transport

/-- A call of a transport, with what became of it. -/
inductive Call where
  | acquire (granted : Bool)
  | release
  | send (message : Bytes) (accepted : Bool)
  deriving DecidableEq

/-- A transport with the calls made so far, oldest first. -/
structure Recorded (τ : Type) where
  inner : τ
  calls : List Call

namespace Recorded

variable {τ : Type} [Transport τ]

def start (inner : τ) : Recorded τ := ⟨inner, []⟩

/-- Access was granted; a failed request counts as refused. -/
def granted : Except Error Bool → Bool
  | .ok granted => granted
  | .error _ => false

def acquire (t : Recorded τ) : Except Error Bool × Recorded τ :=
  let (answer, inner) := Transport.acquire t.inner
  (answer, ⟨inner, t.calls ++ [.acquire (granted answer)]⟩)

def release (t : Recorded τ) : Except Error Unit × Recorded τ :=
  let (answer, inner) := Transport.release t.inner
  (answer, ⟨inner, t.calls ++ [.release]⟩)

def send (message : Bytes) (t : Recorded τ) : Except Error Unit × Recorded τ :=
  let (answer, inner) := Transport.send message t.inner
  (answer, ⟨inner, t.calls ++ [.send message answer.isOk]⟩)

instance : Transport (Recorded τ) := ⟨acquire, release, send⟩

end Recorded

end CanLink
