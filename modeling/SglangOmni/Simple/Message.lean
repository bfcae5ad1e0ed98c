import Mathlib.Data.List.Basic

/-! The messages in the inbox of a scheduler for stages without autoregression. -/

namespace Simple

inductive MessageType
  | newRequest
  | streamChunk
  | streamDone
  | abort
  | admin
  | stop
  | wakeup
  deriving DecidableEq

structure Incoming (δ : Type) where
  requestId : String
  type : MessageType
  data : δ
  deriving DecidableEq

/-- Whether a message is a `new_request`. -/
def Incoming.isNewRequest {δ : Type} (msg : Incoming δ) : Bool := msg.type = .newRequest

/-- The `new_request`s among some messages. -/
def newRequests {δ : Type} (messages : List (Incoming δ)) : List (Incoming δ) :=
  messages.filter Incoming.isNewRequest

section

variable {δ : Type} {msg : Incoming δ} {messages first second : List (Incoming δ)}

@[simp] theorem newRequests_nil : newRequests ([] : List (Incoming δ)) = [] := rfl

@[simp] theorem newRequests_append :
    newRequests (first ++ second) = newRequests first ++ newRequests second :=
  List.filter_append ..

theorem newRequests_cons (h : msg.isNewRequest = true) :
    newRequests (msg :: messages) = msg :: newRequests messages :=
  List.filter_cons_of_pos h

theorem newRequests_cons_other (h : msg.isNewRequest = false) :
    newRequests (msg :: messages) = newRequests messages :=
  List.filter_cons_of_neg (by rw [h]; exact Bool.false_ne_true)

theorem newRequests_eq_nil (h : ∀ msg ∈ messages, msg.isNewRequest = false) :
    newRequests messages = [] :=
  List.filter_eq_nil_iff.mpr fun msg hmsg => by rw [h msg hmsg]; exact Bool.false_ne_true

end

end Simple
