import QuotaDesk.Proofs.CommandLine.Failing
import QuotaDesk.Proofs.CommandLine.Query

/-! A command as a conversation that nobody has answered yet: the calls that it makes, and how it
goes on with each answer. What the command does over a service is this conversation held with the
service, so two runs can be compared call by call, whatever answers them. -/

namespace QuotaDesk

/-- A result, or a call and how it goes on with the answer. -/
inductive Conversation (α : Type) : Type
  | done (a : α)
  | asks (c : Call) (next : Answer c → Conversation α)

namespace Conversation

variable {α β γ : Type} {m : Type → Type} [Monad m]

def bind : Conversation α → (α → Conversation β) → Conversation β
  | done a, f => f a
  | asks c next, f => asks c fun a => (next a).bind f

instance : Monad Conversation where
  pure := done
  bind := bind

theorem asks_bind (c : Call) (next : Answer c → Conversation α) (f : α → Conversation β) :
    asks c next >>= f = asks c fun a => next a >>= f := rfl

theorem bind_done (x : Conversation α) : x >>= done = x := by
  induction x with
  | done a => rfl
  | asks c next ih => exact congrArg (asks c) (funext ih)

theorem bind_bind (x : Conversation α) (f : α → Conversation β) (g : β → Conversation γ) :
    x >>= f >>= g = x >>= fun a => f a >>= g := by
  induction x with
  | done a => rfl
  | asks c next ih => exact congrArg (asks c) (funext ih)

instance : LawfulMonad Conversation :=
  LawfulMonad.mk' Conversation bind_done (fun _ _ => rfl) bind_bind

def ask (c : Call) : Conversation (Answer c) :=
  asks c done

def heldWith (answer : (c : Call) → m (Answer c)) : Conversation α → m α
  | done a => pure a
  | asks c next => answer c >>= fun a => (next a).heldWith answer

variable {answer : (c : Call) → m (Answer c)}

theorem heldWith_pure (a : α) : (pure a : Conversation α).heldWith answer = pure a := rfl

theorem heldWith_ask_bind (c : Call) (f : Answer c → Conversation α) :
    (ask c >>= f).heldWith answer = answer c >>= fun a => (f a).heldWith answer := rfl

theorem heldWith_bind [LawfulMonad m] (x : Conversation α) (f : α → Conversation β) :
    (x >>= f).heldWith answer = x.heldWith answer >>= fun a => (f a).heldWith answer := by
  induction x with
  | done a => exact (pure_bind a fun a => (f a).heldWith answer).symm
  | asks c next ih =>
    rw [asks_bind, heldWith, heldWith, bind_assoc]
    exact bind_congr ih

end Conversation

namespace CommandLine

open Conversation (heldWith)

variable {m : Type → Type} [Monad m] (answer : (c : Call) → m (Answer c))

theorem finishJob_heldWith {j : Backup.Panel.Job} (s : Backup.Panel.State)
    (p : Backup.Panel.Step j) :
    (finishJob Conversation.ask s p).heldWith answer = finishJob answer s p := by
  induction s, p using Backup.Panel.answers_induction with
  | finished s r => rw [finishJob, finishJob, Conversation.heldWith_pure]
  | waiting s x ih =>
    rw [finishJob_waiting, finishJob_waiting, Conversation.heldWith_ask_bind]
    exact bind_congr ih

variable [LawfulMonad m]

theorem query_heldWith (key : String) (page : UInt32) :
    (query Conversation.ask key page).heldWith answer = query answer key page := by
  rw [query_eq, query_eq, apply_ite (heldWith answer), Conversation.heldWith_pure]
  congr 1
  rw [Conversation.heldWith_ask_bind]
  refine bind_congr fun a => ?_
  cases Lookup.verdict a with
  | error f => rfl
  | ok summary =>
    dsimp only
    rw [Conversation.heldWith_ask_bind]
    refine bind_congr fun b => ?_
    simp only [apply_ite (heldWith answer), Conversation.heldWith_pure]
    rfl

theorem perform_heldWith (c : Command) :
    (perform Conversation.ask c).heldWith answer = perform answer c := by
  cases c with
  | query key page => exact query_heldWith answer key page
  | status =>
    rw [perform, perform, status, status, Conversation.heldWith_bind, finishJob_heldWith]
    rfl
  | run =>
    rw [perform, perform, run, run, Conversation.heldWith_bind, finishJob_heldWith]
    refine bind_congr ?_
    rintro ⟨s, r⟩
    cases r with
    | error f => rfl
    | ok c =>
      dsimp only
      rw [Conversation.heldWith_bind, finishJob_heldWith]
      rfl
  | «show» =>
    rw [perform, perform, showConfig, showConfig, Conversation.heldWith_bind, finishJob_heldWith]
    refine bind_congr ?_
    rintro ⟨s, f | c⟩ <;> rfl
  | save c =>
    rw [perform, perform, save, save, Conversation.heldWith_bind, finishJob_heldWith]
    refine bind_congr ?_
    rintro ⟨s, f | c⟩ <;> rfl

end CommandLine

abbrev Exchange : Type :=
  (c : Call) × Answer c

variable {α σ : Type}

def recorded (service : (c : Call) → StateM σ (Answer c)) (c : Call) :
    StateM (List Exchange × σ) (Answer c) :=
  fun (said, s) => ((service c s).1, said ++ [⟨c, (service c s).1⟩], (service c s).2)

namespace Conversation

def exchanges (service : (c : Call) → StateM σ (Answer c)) : Conversation α → σ → List Exchange
  | done _, _ => []
  | asks c next, s =>
    ⟨c, (service c s).1⟩ :: (next (service c s).1).exchanges service (service c s).2

theorem heldWith_recorded (service : (c : Call) → StateM σ (Answer c)) (x : Conversation α)
    (said : List Exchange) (s : σ) :
    x.heldWith (recorded service) (said, s) =
      ((x.heldWith service s).1, said ++ x.exchanges service s, (x.heldWith service s).2) := by
  induction x generalizing said s with
  | done a =>
    rw [exchanges, List.append_nil]
    rfl
  | asks c next ih =>
    refine (ih _ _ _).trans ?_
    rw [List.append_assoc]
    rfl

end Conversation
end QuotaDesk
