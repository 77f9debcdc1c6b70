import BillOfMaterials.Text.Marker
import BillOfMaterials.Text.Terminal

/-!
# The log of a run

What a run reports on its way is part of its answer, so log records are data: a computation that
logs returns its records beside its outcome, in the order in which they arose. A failure keeps the
records that came before it.
-/
namespace BillOfMaterials

/-- How urgent a record is. -/
inductive LogLevel where
  | error | warn | info | debug | trace
deriving DecidableEq, Inhabited

namespace LogLevel

/-- The more urgent the level, the lower its rank. -/
def rank : LogLevel → Nat
  | .error => 0
  | .warn => 1
  | .info => 2
  | .debug => 3
  | .trace => 4

def name : LogLevel → String
  | .error => "ERROR"
  | .warn => "WARN"
  | .info => "INFO"
  | .debug => "DEBUG"
  | .trace => "TRACE"

end LogLevel

/-- The part of the program that a record speaks for. -/
inductive LogTopic where
  | settings | generation | index | mapping | manifest
deriving DecidableEq, Inhabited

/-- The name under which a topic appears in a printed log. -/
def LogTopic.name : LogTopic → String
  | .settings => "bomgen::config"
  | .generation => "bomgen_generator::pipeline"
  | .index => "bomgen_generator::repository"
  | .mapping => "bomgen_generator::reconciler"
  | .manifest => "bomgen_generator::manifest"

structure LogRecord where
  level : LogLevel
  topic : LogTopic
  message : String
deriving DecidableEq, Inhabited

namespace LogRecord

/-- The record as a log shows it: the level, filled up to five characters, then the topic in brackets,
then the message, of which further lines are indented. The log takes no commands for a terminal. -/
def line (r : LogRecord) : String :=
  Text.Terminal.plain <|
    "[" ++ r.level.name ++ String.ofList (List.replicate (5 - r.level.name.length) ' ') ++ " " ++
      r.topic.name ++ "] " ++ Text.replace r.message "\n" "\n    " ++ "\n"

/-- Whether a log that is kept down to `level` shows the record. -/
def isShown (level : LogLevel) (r : LogRecord) : Bool := r.level.rank ≤ level.rank

end LogRecord

abbrev Log := List LogRecord

/-- The outcome of a computation beside what it logged. -/
structure Logged (ε α : Type) where
  outcome : Except ε α
  log : Log

namespace Logged

variable {ε α β : Type}

def of (outcome : Except ε α) : Logged ε α := ⟨outcome, []⟩

def note (level : LogLevel) (topic : LogTopic) (message : String) : Logged ε Unit :=
  ⟨.ok (), [⟨level, topic, message⟩]⟩

def write (log : Log) : Logged ε Unit := ⟨.ok (), log⟩

/-- One computation after the other; the second runs only if the first succeeded. -/
def andThen (x : Logged ε α) (f : α → Logged ε β) : Logged ε β :=
  match x.outcome with
  | .ok a => ⟨(f a).outcome, x.log ++ (f a).log⟩
  | .error e => ⟨.error e, x.log⟩

instance : Monad (Logged ε) where
  pure a := ⟨.ok a, []⟩
  bind := andThen

instance : MonadExceptOf ε (Logged ε) where
  throw e := ⟨.error e, []⟩
  tryCatch x handler :=
    match x.outcome with
    | .ok _ => x
    | .error e => ⟨(handler e).outcome, x.log ++ (handler e).log⟩

@[simp] theorem outcome_pure (a : α) : (pure a : Logged ε α).outcome = .ok a := rfl

@[simp] theorem outcome_bind (x : Logged ε α) (f : α → Logged ε β) :
    (x >>= f).outcome = x.outcome >>= fun a => (f a).outcome := by
  show (andThen x f).outcome = _
  unfold andThen
  cases x.outcome <;> rfl

end Logged
end BillOfMaterials
