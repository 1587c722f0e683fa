import ContractAudit.Text

/-! Log entries, and values that come with them.

`Logged α` is a value together with the entries written on the way to it, in order. -/

namespace ContractAudit

/-- How important an entry is. -/
inductive LogLevel
  | debug | info | warning | error
  deriving DecidableEq, Repr

namespace LogLevel

def word : LogLevel → Text
  | debug => "DEBUG"
  | info => "INFO"
  | warning => "WARNING"
  | error => "ERROR"

/-- The place of a level, the least important first. -/
def rank : LogLevel → Nat
  | debug => 0
  | info => 1
  | warning => 2
  | error => 3

end LogLevel

structure LogEntry where
  level : LogLevel
  text : Text
  deriving DecidableEq

/-- A value and the entries written on the way to it. -/
structure Logged (α : Type) where
  value : α
  log : List LogEntry := []

namespace Logged

variable {α β : Type}

/-- The value of a second step, after the entries of both. -/
def bind (x : Logged α) (f : α → Logged β) : Logged β :=
  ⟨(f x.value).value, x.log ++ (f x.value).log⟩

instance : Monad Logged where
  pure a := ⟨a, []⟩
  bind := bind

@[simp] theorem value_pure (a : α) : (pure a : Logged α).value = a := rfl

@[simp] theorem value_bind (x : Logged α) (f : α → Logged β) :
    (x >>= f).value = (f x.value).value := rfl

/-- Writes one entry. -/
def say (level : LogLevel) (text : Text) : Logged Unit := ⟨(), [⟨level, text⟩]⟩

/-- An entry for those who look into the program. -/
def debug (text : Text) : Logged Unit := say .debug text

/-- An entry about the course of a run. -/
def info (text : Text) : Logged Unit := say .info text

/-- An entry about something left out. -/
def warning (text : Text) : Logged Unit := say .warning text

/-- An entry about something that ends a run. -/
def error (text : Text) : Logged Unit := say .error text

end Logged

end ContractAudit
