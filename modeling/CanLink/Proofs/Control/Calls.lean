import CanLink.Control.Transport

/-!
The calls of a recorded transport. Every operation only adds to the record, and what it adds is
known up to the answers: messages sent in order stop at the first that is rejected, and work done
with access held stands between one successful request for access and its return.
-/

namespace CanLink

/-- The message of a call that was sent and accepted. -/
def Call.accepted? : Call → Option Bytes
  | send message true => some message
  | _ => none

/-- The messages that were accepted, oldest first. -/
def acceptedMessages (calls : List Call) : List Bytes := calls.filterMap Call.accepted?

/-- The message of a call that sent one. -/
def Call.sent? : Call → Option Bytes
  | send message _ => some message
  | _ => none

/-- The messages that were sent, accepted or not, oldest first. -/
def sentMessages (calls : List Call) : List Bytes := calls.filterMap Call.sent?

/-- A view of the calls that shows accepted messages shows all of these. -/
theorem filterMap_all {view : Call → Option Bytes}
    (shows : ∀ message, view (.send message true) = some message) (messages : List Bytes) :
    (messages.map (Call.send · true)).filterMap view = messages := by
  have same : view ∘ (Call.send · true) = some := funext shows
  rw [List.filterMap_map, same, List.filterMap_some]

/-- Asking for access and giving it back are no messages. -/
theorem filterMap_held {view : Call → Option Bytes} (acquire : view (.acquire true) = none)
    (release : view .release = none) (calls : List Call) :
    ([Call.acquire true] ++ calls ++ [Call.release]).filterMap view = calls.filterMap view := by
  have before : [Call.acquire true].filterMap view = [] := by simp [acquire]
  have after : [Call.release].filterMap view = [] := by simp [release]
  rw [List.filterMap_append, List.filterMap_append, before, after, List.nil_append,
    List.append_nil]

@[simp] theorem acceptedMessages_append (before after : List Call) :
    acceptedMessages (before ++ after) = acceptedMessages before ++ acceptedMessages after :=
  List.filterMap_append ..

@[simp] theorem acceptedMessages_all (messages : List Bytes) :
    acceptedMessages (messages.map (Call.send · true)) = messages :=
  filterMap_all (fun _ => rfl) messages

@[simp] theorem acceptedMessages_held (calls : List Call) :
    acceptedMessages ([.acquire true] ++ calls ++ [.release]) = acceptedMessages calls :=
  filterMap_held rfl rfl calls

@[simp] theorem sentMessages_append (before after : List Call) :
    sentMessages (before ++ after) = sentMessages before ++ sentMessages after :=
  List.filterMap_append ..

@[simp] theorem sentMessages_all (messages : List Bytes) :
    sentMessages (messages.map (Call.send · true)) = messages :=
  filterMap_all (fun _ => rfl) messages

@[simp] theorem sentMessages_held (calls : List Call) :
    sentMessages ([.acquire true] ++ calls ++ [.release]) = sentMessages calls :=
  filterMap_held rfl rfl calls

/-- The calls that send messages in order, and the answer they end with. -/
inductive Sent (messages : List Bytes) : List Call → Except Error Unit → Prop where
  | all : Sent messages (messages.map (Call.send · true)) (.ok ())
  | cut (done : List Bytes) (message : Bytes) (rest : List Bytes) {e : Error}
      (stopped : messages = done ++ message :: rest) :
      Sent messages (done.map (Call.send · true) ++ [.send message false]) (.error e)

/-- What is sent are the messages up to the one that is rejected, if one is. -/
theorem Sent.sentMessages_prefix {messages : List Bytes} {calls : List Call}
    {answer : Except Error Unit} (sent : Sent messages calls answer) :
    sentMessages calls <+: messages := by
  cases sent with
  | all =>
      refine ⟨[], ?_⟩
      rw [sentMessages_all, List.append_nil]
  | cut done message rest stopped =>
      rw [sentMessages_append, sentMessages_all, stopped]
      exact (List.prefix_append_right_inj done).mpr ⟨rest, rfl⟩

/-- All messages are accepted exactly if the answer is good. -/
theorem Sent.ok_iff {messages : List Bytes} {calls : List Call} {answer : Except Error Unit}
    (sent : Sent messages calls answer) :
    answer = .ok () ↔ acceptedMessages calls = messages := by
  cases sent with
  | all => exact iff_of_true rfl (acceptedMessages_all messages)
  | cut done message rest stopped =>
      refine iff_of_false (fun good => nomatch good) ?_
      rw [acceptedMessages_append, acceptedMessages_all, stopped]
      intro same
      exact absurd (List.append_cancel_left same) (List.cons_ne_nil message rest).symm

/-- Messages in front that are accepted do not change how the rest is sent. -/
theorem Sent.cons {messages : List Bytes} {calls : List Call} {answer : Except Error Unit}
    (message : Bytes) (sent : Sent messages calls answer) :
    Sent (message :: messages) (.send message true :: calls) answer := by
  cases sent with
  | all => exact .all
  | cut done rejected rest stopped =>
      refine .cut (message :: done) rejected rest ?_
      rw [stopped]
      rfl

namespace Recorded

variable {τ α : Type} [Transport τ]

theorem sendAll_sent (messages : List Bytes) (t : Recorded τ) :
    ∃ calls, (Transport.sendAll messages t).2.calls = t.calls ++ calls ∧
      Sent messages calls (Transport.sendAll messages t).1 := by
  induction messages generalizing t with
  | nil => exact ⟨[], (List.append_nil _).symm, .all⟩
  | cons message rest ih =>
      have first : (Transport.send message t).2.calls =
          t.calls ++ [.send message (Transport.send message t).1.isOk] := rfl
      rw [Transport.sendAll]
      generalize Transport.send message t = answer at first
      obtain ⟨answer | _, after⟩ := answer
      · exact ⟨_, first, .cut [] message rest rfl⟩
      · obtain ⟨calls, more, sent⟩ := ih after
        refine ⟨.send message true :: calls, ?_, sent.cons message⟩
        rw [more, first, List.append_assoc]
        rfl

/-- Work is done only with access held, and access is given back after it. -/
theorem withAccess_calls (work : Recorded τ → α × Recorded τ) (t : Recorded τ) :
    (∃ e, (Transport.withAccess work t).1 = .error e ∧
        (Transport.withAccess work t).2.calls = t.calls ++ [.acquire false]) ∨
      ∃ held : Recorded τ, held.calls = t.calls ++ [.acquire true] ∧
        (Transport.withAccess work t).1 = .ok (work held).1 ∧
        (Transport.withAccess work t).2.calls = (work held).2.calls ++ [.release] := by
  have asked : (Transport.acquire t).2.calls =
      t.calls ++ [.acquire (granted (Transport.acquire t).1)] := rfl
  rw [Transport.withAccess]
  generalize Transport.acquire t = answer at asked
  obtain ⟨answer | taken, held⟩ := answer
  · exact .inl ⟨_, rfl, asked⟩
  · cases taken with
    | false => exact .inl ⟨_, rfl, asked⟩
    | true => exact .inr ⟨held, asked, rfl, rfl⟩

end Recorded

end CanLink
