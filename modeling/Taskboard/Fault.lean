/-!
# Fault — why an operation fails

One constructor per cause. `Fault.message?` gives the wording of the causes that the library itself
describes to its users; the others are known by their kind alone.
-/

namespace Taskboard

/-- Why a task file's head cannot be read. -/
inductive HeadFault where
  /-- The line that ends the head is missing. -/
  | unterminated
  /-- The head is not well-formed YAML. -/
  | malformed
  /-- The head is well-formed but no mapping. -/
  | notMapping
deriving DecidableEq, Repr

/-- What sort of failure a cause is. -/
inductive FaultKind where
  /-- A value of the right type that is unfit. -/
  | badValue
  /-- Bytes that are no text. -/
  | badEncoding
  /-- A chart of an unknown kind. -/
  | badChart
  /-- A figure with executable text. -/
  | unsafeFigure
  /-- A value of an unfit type. -/
  | badType
  /-- A field that is missing. -/
  | noField
  /-- An operation that the value lacks. -/
  | noOperation
  /-- An index outside of its list. -/
  | noIndex
  /-- A number beyond what is counted. -/
  | overflow
  /-- A division by zero. -/
  | zeroDivision
  /-- A refusal of the host. -/
  | host
  /-- A failure of the storage. -/
  | storage
deriving DecidableEq, Repr

/-- The cause of a failure. -/
inductive Fault where
  /-- A whole number lies beyond the doubles. -/
  | numberTooLarge
  /-- An infinity was taken for a whole number. -/
  | infiniteWhole
  /-- What is not a number was taken for a whole number. -/
  | undefinedWhole
  /-- A text is no number. -/
  | unreadableNumber
  /-- A whole number has more decimal digits than are converted. -/
  | tooManyDigits
  /-- A text was given where a number is to be formatted. -/
  | unformattable
  /-- A character by a number beyond all characters. -/
  | noSuchCharacter
  /-- Flags of a pattern that exclude each other. -/
  | flagsExclude
  /-- A value has a type that the operation does not take. -/
  | wrongType
  /-- A required field is missing. -/
  | missingField
  /-- A value lacks the operation that is asked of it. -/
  | noOperation
  /-- An index lies outside its list. -/
  | noSuchIndex
  /-- A division by zero. -/
  | divisionByZero
  /-- A time lies outside the years 1 to 9999, or a date does not exist. -/
  | timeOutOfRange
  /-- A time lies beyond what a clock counts. -/
  | clockOverflow
  /-- A time lies beyond what the calendar of the host converts. -/
  | calendarOverflow
  /-- An offset from UTC of a day or more has no instant and no text. -/
  | offsetOutOfRange
  /-- A figure refuses the value of a property. -/
  | badProperty
  /-- A schedule row whose start is not before its end. -/
  | rowOrder (row start finish : String)
  /-- A time axis whose scale is not positive. -/
  | scaleNotPositive
  /-- The head of a task file cannot be read. -/
  | head (task : String) (cause : HeadFault)
  /-- A chart of an unknown kind. -/
  | unsupportedChart (kind : String)
  /-- A figure that carries executable text. -/
  | unsafeFigure
  /-- Bytes that are not UTF-8. -/
  | notUtf8
  /-- A name that no file can have. -/
  | badName
  /-- A workspace directory that does not exist. -/
  | noWorkspace (directory : String)
  /-- A task file that cannot be read. -/
  | taskUnreadable (task : String)
  /-- A task file that cannot be written. -/
  | taskUnwritable (task : String)
  /-- A task file whose text is no task. -/
  | taskMalformed (cause : Fault)
  /-- The schedule cannot be written. -/
  | scheduleUnwritable
  /-- The schedule cannot be read. -/
  | scheduleUnreadable
  /-- The saved filters and sorts cannot be written. -/
  | definitionsUnwritable
  /-- The saved filters and sorts cannot be read. -/
  | definitionsUnreadable
  /-- A value that has no JSON form. -/
  | notSerializable
deriving DecidableEq, Repr

namespace HeadFault

/-- The wording of a head that cannot be read. -/
def message (task : String) : HeadFault → String
  | .unterminated => "Unterminated front matter in " ++ task
  | .malformed => "Invalid YAML front matter in " ++ task
  | .notMapping => "Front matter of " ++ task ++ " is not a mapping"

end HeadFault

namespace Fault

/-- The wording of a cause that the library describes itself. -/
def message? : Fault → Option String
  | .rowOrder row start finish =>
    some ("Row " ++ row ++ ": start " ++ start ++ " must be before end " ++ finish)
  | .scaleNotPositive => some "ms_per_pixel must be positive"
  | .head task cause => some (cause.message task)
  | .unsupportedChart kind => some ("Unsupported chart type: " ++ kind)
  | .unsafeFigure => some "Option contains potentially malicious code"
  | .noWorkspace directory => some ("Workspace not found: " ++ directory)
  | .taskUnreadable task => some ("Could not read task " ++ task)
  | .taskUnwritable task => some ("Could not write task " ++ task)
  | .taskMalformed cause => cause.message?
  | .scheduleUnwritable => some "Could not save schedule"
  | .scheduleUnreadable => some "Could not load schedule"
  | .definitionsUnwritable => some "Could not save filter/sort definitions"
  | .definitionsUnreadable => some "Could not load filter/sort definitions"
  | _ => none

/-- The wording of a cause; one that has none of its own is told by a common word. -/
def message (f : Fault) : String := f.message?.getD "<other>"

/-- The kind of a cause. -/
def kind : Fault → FaultKind
  | .numberTooLarge | .infiniteWhole | .clockOverflow => .overflow
  | .calendarOverflow => .host
  | .wrongType | .notSerializable => .badType
  | .missingField => .noField
  | .noOperation => .noOperation
  | .noSuchIndex => .noIndex
  | .divisionByZero => .zeroDivision
  | .notUtf8 => .badEncoding
  | .unsupportedChart _ => .badChart
  | .unsafeFigure => .unsafeFigure
  | .noWorkspace _ | .taskUnreadable _ | .taskUnwritable _ | .taskMalformed _
  | .scheduleUnwritable | .scheduleUnreadable
  | .definitionsUnwritable | .definitionsUnreadable => .storage
  | .unreadableNumber | .undefinedWhole | .tooManyDigits | .unformattable | .noSuchCharacter
  | .flagsExclude | .timeOutOfRange | .offsetOutOfRange | .badProperty | .rowOrder _ _ _
  | .scaleNotPositive | .head _ _ | .badName => .badValue

/-- Whether the cause lies in the storage of tasks. -/
def isStorage (f : Fault) : Bool := f.kind = .storage

/-- Whether the cause lies in a value that is of the right type and still unfit. -/
def isBadValue (f : Fault) : Bool :=
  f.kind = .badValue || f.kind = .badEncoding || f.kind = .badChart || f.kind = .unsafeFigure

/-- Whether the cause lies in the shape of a document: a field that is missing, or a value of an
unfit type or size. -/
def isBadShape (f : Fault) : Bool := f.isBadValue || f.kind = .noField || f.kind = .badType

end Fault

/-! ## Chains of operations -/

variable {α β : Type}

theorem exists_ok_of_isOk {x : Except Fault α} (h : x.isOk = true) : ∃ a, x = .ok a := by
  cases x with
  | ok a => exact ⟨a, rfl⟩
  | error f => cases h

theorem bind_eq_ok {x : Except Fault α} {f : α → Except Fault β} {b : β} :
    x.bind f = .ok b ↔ ∃ a, x = .ok a ∧ f a = .ok b := by
  cases x <;> simp [Except.bind]

/-- `bind_eq_ok` for a step of a `do` block. -/
theorem do_eq_ok {x : Except Fault α} {f : α → Except Fault β} {b : β} :
    (do f (← x)) = .ok b ↔ ∃ a, x = .ok a ∧ f a = .ok b := bind_eq_ok

theorem map_eq_ok {x : Except Fault α} {f : α → β} {b : β} :
    x.map f = .ok b ↔ ∃ a, x = .ok a ∧ f a = b := by
  cases x <;> simp [Except.map]

theorem bind_eq_error {x : Except Fault α} {f : α → Except Fault β} {e : Fault} :
    x.bind f = .error e ↔ x = .error e ∨ ∃ a, x = .ok a ∧ f a = .error e := by
  cases x <;> simp [Except.bind]

theorem bind_bind {γ : Type} (x : Except Fault α) (f : α → Except Fault β)
    (g : β → Except Fault γ) : (x.bind f).bind g = x.bind fun a => (f a).bind g := by
  cases x <;> rfl

theorem map_eq_error {x : Except Fault α} {f : α → β} {e : Fault} :
    x.map f = .error e ↔ x = .error e := by
  cases x <;> simp [Except.map]

end Taskboard
