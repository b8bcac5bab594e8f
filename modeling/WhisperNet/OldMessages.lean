import WhisperNet.CircularBuffer
import WhisperNet.RoutingHeader

/-!
# The buffer of old messages

`oldMessages` is a circular buffer of pointers to messages, whose finalizer releases them. The rest
of the model takes it for a list of messages and lets `processResendRequestMessage` search that.

* `Holds` — the messages in the buffer are those of the list.
* `Holds.resend`, `Holds.emplaceBack` — reading and appending keep to it.
* `answers_eq` — so a node answers every request as it would with the list.
* `all_released` — no message that a node has come to hold is ever deleted.
-/

namespace WhisperNet

open MessageManager CircularBuffer

/-- `oldMessages`. An empty pointer is null. -/
abbrev OldMessages := CircularBuffer (Option AnyMessage) 100

namespace OldMessages

/-- `m.release()`: the pointer gives up the message, and is null. -/
def release (_ : Option AnyMessage) : Option (Option AnyMessage) := some none

def initial : OldMessages := fresh none (by decide)

/-- `oldMessages.emplace_back(std::move(msgPtr))` -/
def emplaceBack (b : OldMessages) (m : AnyMessage) : Option OldMessages :=
  b.pushBack release (some m)

/-- The loop of `processResendRequestMessage`. The outer `none` is the exception, or the use of a
null pointer. -/
def search (request : ResendRequestMessage) :
    List (Option AnyMessage) → Option (Option (AnyMessage × IpAddress))
  | [] => some none
  | none :: _ => none
  | some m :: rest =>
    if m.base.messageHash == request.requestedHash then
      match m.base.type with
      | .resendRequest | .invalid | .unknown _ _ => none
      | _ => some (some (m, request.originalDestination))
    else search request rest

/-- `processResendRequestMessage`: the message passed to `send` and its destination, if there is
one. -/
def resend (self : IpAddress) (b : OldMessages) (request : ResendRequestMessage) :
    Option (Option (AnyMessage × IpAddress)) :=
  if request.originatorNode = self then some none
  else do search request ((← b.visited).map b.cells)

/-! ## The list in the buffer -/

/-- The buffer has these messages. As long as it has none, no cell has been used. -/
structure Holds (b : OldMessages) (messages : List AnyMessage) : Prop where
  contents : b.contents = messages.map some
  unused : messages = [] → b.get 0 = none

theorem holds_initial : Holds initial [] := ⟨rfl, fun _ => rfl⟩

theorem search_some (request : ResendRequestMessage) (messages : List AnyMessage) :
    search request (messages.map some) =
      match messages.find? fun m => m.base.messageHash == request.requestedHash with
      | none => some none
      | some m => match m.base.type with
        | .resendRequest | .invalid | .unknown _ _ => none
        | _ => some (some (m, request.originalDestination)) := by
  induction messages with
  | nil => rfl
  | cons m messages ih =>
    rw [List.map_cons, search, List.find?_cons]
    by_cases h : m.base.messageHash == request.requestedHash
    · rw [if_pos h, h]
    · rw [if_neg h, Bool.of_not_eq_true h, ih]

section Simulation

variable {b : OldMessages} {messages : List AnyMessage}

/-- **A request is answered from the list.** -/
theorem Holds.resend (h : Holds b messages) (self : IpAddress) (request : ResendRequestMessage) :
    resend self b request = processResendRequestMessage self messages request := by
  unfold OldMessages.resend processResendRequestMessage
  refine if_congr Iff.rfl rfl ?_
  rw [visited_eq, Option.bind_eq_bind, Option.bind_some, List.map_map]
  cases messages with
  | nil =>
    -- Of the hundred cells that the loop goes over, already the first is null.
    have hsize : b.size = 0 := contents_eq_nil.mp h.contents
    have hcell : b.cells (slot b.start 0) = none := h.unused rfl
    have hrange : List.range 100 = 0 :: (List.range 99).map Nat.succ := List.range_succ_eq_map
    rw [rounds, if_pos hsize, hrange, List.map_cons, Function.comp_apply, hcell]
    rfl
  | cons m messages =>
    have hne : b.size ≠ 0 := fun hsize =>
      List.cons_ne_nil _ _ (h.contents.symm.trans (contents_eq_nil.mpr hsize))
    have hcontents : (List.range b.size).map (b.cells ∘ slot b.start) =
        (m :: messages).map some := h.contents
    rw [rounds, if_neg hne, hcontents, search_some]
    rfl

theorem Holds.length_le (h : Holds b messages) : messages.length ≤ 100 := by
  have hsize := length_contents b
  rw [h.contents, List.length_map] at hsize
  exact hsize.trans_le b.size_le

/-- **A message is appended to the list.** -/
theorem Holds.emplaceBack (h : Holds b messages) (m : AnyMessage) :
    ∃ b', b.emplaceBack m = some b' ∧ Holds b' (MessageManager.emplaceBack messages m) := by
  have hf : ∀ p, (release p).isSome := fun _ => rfl
  obtain ⟨b', hb'⟩ := Option.isSome_iff_exists.mp (apply_isSome hf b (.pushBack (some m)))
  have hle := h.length_le
  refine ⟨b', hb', ?_, fun hnil => ?_⟩
  · have hdeque := congrArg BoundedDeque.State.contents (pushBack_refines hb')
    rw [BoundedDeque.apply, toDeque, toDeque, h.contents, List.length_map] at hdeque
    rw [MessageManager.emplaceBack]
    by_cases hlt : messages.length < 100
    · rw [if_pos hlt] at hdeque
      rw [show messages.length + 1 - 100 = 0 by omega, List.drop_zero, List.map_append]
      exact hdeque
    · rw [if_neg hlt] at hdeque
      rw [show messages.length + 1 - 100 = 1 by omega, List.drop_one,
        List.tail_append_of_ne_nil (List.ne_nil_of_length_pos (by omega)), List.map_append,
        List.map_tail]
      exact hdeque
  · have hlen := congrArg List.length hnil
    rw [MessageManager.emplaceBack, List.length_drop, List.length_append, List.length_singleton,
      List.length_nil] at hlen
    omega

end Simulation

/-! ## Runs -/

/-- What a node does with its old messages. -/
inductive Use
  | emplaceBack (m : AnyMessage)
  | request (request : ResendRequestMessage)

/-- How the requests are answered, from the buffer, -/
def answers (self : IpAddress) :
    List Use → OldMessages → Option (List (Option (Option (AnyMessage × IpAddress))))
  | [], _ => some []
  | .emplaceBack m :: uses, b => (b.emplaceBack m).bind (answers self uses)
  | .request request :: uses, b => (answers self uses b).map (resend self b request :: ·)

/-- and from the list. -/
def listAnswers (self : IpAddress) :
    List Use → List AnyMessage → List (Option (Option (AnyMessage × IpAddress)))
  | [], _ => []
  | .emplaceBack m :: uses, messages =>
    listAnswers self uses (MessageManager.emplaceBack messages m)
  | .request request :: uses, messages =>
    processResendRequestMessage self messages request :: listAnswers self uses messages

theorem Holds.answers {b : OldMessages} {messages : List AnyMessage} (h : Holds b messages)
    (self : IpAddress) (uses : List Use) :
    answers self uses b = some (listAnswers self uses messages) := by
  induction uses generalizing b messages with
  | nil => rfl
  | cons use uses ih =>
    cases use with
    | emplaceBack m =>
      obtain ⟨b', hb', h'⟩ := h.emplaceBack m
      rw [OldMessages.answers, hb', Option.bind_some, listAnswers, ih h']
    | request request =>
      rw [OldMessages.answers, listAnswers, ih h, Option.map_some, h.resend]

/-- **The list will do.** In every run, whatever is appended and requested when, the buffer answers
each request the way the list of the last hundred messages does. -/
theorem answers_eq (self : IpAddress) (uses : List Use) :
    answers self uses initial = some (listAnswers self uses []) :=
  holds_initial.answers self uses

/-- **Nothing is ever deleted.** When the buffer is destroyed, every message that has been appended
to it has been released, once and in order, and so belongs to nobody. -/
theorem all_released (messages : List AnyMessage) (hne : messages ≠ []) :
    ∃ b b', messages.foldlM emplaceBack initial = some b ∧ b.clear release = some b' ∧
      b'.finalized = messages.map some := by
  have hf : ∀ p, (release p).isSome := fun _ => rfl
  have hfold : ∀ b : OldMessages, messages.foldlM emplaceBack b =
      b.run release ((messages.map some).map .pushBack) := fun b => by
    rw [run, List.map_map, List.foldlM_map]
    rfl
  obtain ⟨b, hrun⟩ := Option.isSome_iff_exists.mp
    (run_isSome hf ((messages.map some).map .pushBack) initial)
  obtain ⟨b', hclear⟩ := Option.isSome_iff_exists.mp (clear_isSome hf b)
  refine ⟨b, b', (hfold initial).trans hrun, hclear, ?_⟩
  have hdeque : b.toDeque = _ := (run_refines hrun).trans
    (BoundedDeque.run_pushBacks 100 (by decide) (messages.map some))
  obtain ⟨hcontents, hfinalized⟩ := BoundedDeque.State.mk.inj hdeque
  have hsize : b.size ≠ 0 := fun h => by
    rw [contents_eq_nil.mpr h, List.length_map] at hcontents
    have hlen := congrArg List.length hcontents
    rw [List.length_drop, List.length_map, List.length_nil] at hlen
    have hpos := List.length_pos_iff.mpr hne
    omega
  rw [clear_finalized hclear, rounds, if_neg hsize]
  show b.finalized ++ b.contents = _
  rw [hcontents, hfinalized, List.take_append_drop]

/-- More messages than the buffer has room for. -/
def greetings : List AnyMessage :=
  (List.range 150).map fun i => .payload { greeting with payload := [UInt8.ofNat i] }

theorem greetings_released : ∃ b b', greetings.foldlM emplaceBack initial = some b ∧
    b.clear release = some b' ∧ b'.finalized = greetings.map some :=
  all_released greetings (by simp [greetings])

end OldMessages

end WhisperNet
