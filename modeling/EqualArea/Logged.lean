/-!
# Values with a log

What the library has to tell besides its results goes into a log: a list of records in the order
written.

* `Level`, `Record` — a record and how important it is.
* `Logged` — a value together with what was logged while it came about.

**Design.**  The log is part of the value and not an effect, so what is logged can be stated and
counted like any result.
-/

namespace EqualArea

/-- How important a record is. -/
inductive Level where
  /-- Something that was asked for is refused. -/
  | warn
  /-- State comes into being or goes. -/
  | debug
  /-- A single point is left out. -/
  | trace
  deriving DecidableEq

/-- The name a level is shown by. -/
def Level.label : Level → String
  | warn => "WARN"
  | debug => "DEBUG"
  | trace => "TRACE"

/-- One record of a log. -/
structure Record where
  /-- How important it is. -/
  level : Level
  /-- What it says. -/
  message : String
  deriving DecidableEq

/-- The line that shows a record. -/
def Record.line (r : Record) : String := r.level.label ++ " " ++ r.message

/-- A value, and the records written while it came about. -/
structure Logged (β : Type) where
  /-- The value. -/
  value : β
  /-- The records, in the order written. -/
  log : List Record

namespace Logged

/-- Writes one record. -/
def write (r : Record) : Logged Unit := ⟨(), [r]⟩

instance : Monad Logged where
  pure x := ⟨x, []⟩
  bind m f := ⟨(f m.value).value, m.log ++ (f m.value).log⟩

variable {β γ : Type}

@[simp] theorem value_pure (x : β) : (pure x : Logged β).value = x := rfl

@[simp] theorem log_pure (x : β) : (pure x : Logged β).log = [] := rfl

@[simp] theorem value_bind (m : Logged β) (f : β → Logged γ) :
    (m >>= f).value = (f m.value).value := rfl

/-- The records of the parts follow each other. -/
@[simp] theorem log_bind (m : Logged β) (f : β → Logged γ) :
    (m >>= f).log = m.log ++ (f m.value).log := rfl

@[simp] theorem log_write (r : Record) : (write r).log = [r] := rfl

instance : LawfulMonad Logged :=
  LawfulMonad.mk' Logged
    (fun m => by simp [Functor.map])
    (fun x f => by simp [Bind.bind, Pure.pure])
    (fun m f g => by simp [Bind.bind])

end Logged

end EqualArea
