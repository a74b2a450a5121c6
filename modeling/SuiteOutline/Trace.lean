import SuiteOutline.Failure

/-! Computations that keep a log and may fail. What was logged before a failure stays. -/
namespace SuiteOutline

inductive Level where
  | debug | info | error
deriving Repr, DecidableEq

def Level.name : Level → String
  | debug => "DEBUG"
  | info => "INFO"
  | error => "ERROR"

structure LogEntry where
  level : Level
  message : String
deriving Repr, DecidableEq

/-- An outcome, and what was logged on the way to it. -/
structure Traced (α : Type) where
  log : List LogEntry
  outcome : Except Failure α

namespace Traced

def pure {α : Type} (a : α) : Traced α := ⟨[], .ok a⟩

def bind {α β : Type} (x : Traced α) (f : α → Traced β) : Traced β :=
  match x.outcome with
  | .error e => ⟨x.log, .error e⟩
  | .ok a =>
    let y := f a
    ⟨x.log ++ y.log, y.outcome⟩

instance : Monad Traced where
  pure := pure
  bind := bind

def ofExcept {α : Type} (x : Except Failure α) : Traced α := ⟨[], x⟩

instance : MonadLift (Except Failure) Traced := ⟨ofExcept⟩

/-- Logs a message. -/
def note (level : Level) (message : String) : Traced Unit := ⟨[⟨level, message⟩], .ok ()⟩

def fail {α : Type} (e : Failure) : Traced α := ⟨[], .error e⟩

/-- Runs over a list and keeps what each element gives. -/
def collect {α β : Type} (f : α → Traced (Option β)) : List α → Traced (List β)
  | [] => pure []
  | a :: as => do
    let b ← f a
    let bs ← collect f as
    return b.toList ++ bs

/-- Runs over a list and keeps all that each element gives. -/
def gather {α β : Type} (f : α → Traced (List β)) : List α → Traced (List β)
  | [] => pure []
  | a :: as => do
    let bs ← f a
    let rest ← gather f as
    return bs ++ rest

end Traced
end SuiteOutline
