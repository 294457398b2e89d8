import QuotaDesk.Fault
import QuotaDesk.Text.Blank

/-! The wrapper around every answer of the service. -/

namespace QuotaDesk

structure Envelope (α : Type) where
  success : Bool
  message : Option String
  data : Option α
  deriving DecidableEq, Repr

namespace Envelope

variable {α : Type}

def ok (a : α) : Envelope α :=
  ⟨true, none, some a⟩

def failed (message : String) : Envelope α :=
  ⟨false, some message, none⟩

def messageOr (e : Envelope α) (fallback : String) : String :=
  match e.message with
  | some m => if Text.isBlankText m then fallback else m
  | none => fallback

def map {β : Type} (f : α → β) (e : Envelope α) : Envelope β :=
  ⟨e.success, e.message, e.data.map f⟩

end Envelope

/-- What an answer comes to. A failed call is named by the caller's own wording,
a refusal by the message of the service if it has one. -/
def settle {α : Type} (answer : Except Fault (Envelope α)) (fallback unreachable : String) :
    Except Fault (Option α) :=
  match answer with
  | .error _ => .error (.transport unreachable)
  | .ok e => if e.success then .ok e.data else .error (.logical (e.messageOr fallback))

end QuotaDesk
