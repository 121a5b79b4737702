import DottedNames.Fault

/-!
# The interface of the library

What the library offers by name (`__all__`), and the classes of errors that its faults are raised
as. Most of these classes are those of the platform; the library has a class of its own for texts
that are no segments.
-/

namespace DottedNames

/-- The names that the library offers, by code point. -/
def exports : List Text := [
  "FQN_GRAMMAR", "FQN_SEPARATOR", "Fqn", "FqnError", "FqnToken", "IdentifierValidationError",
  "NAME_GRAMMAR", "Name", "SEGMENT_GRAMMAR", "configure_cli_logger", "find_fqns", "fqn_pattern",
  "get_log_mode", "get_logger", "iter_fqn_tokens", "recognize", "set_log_mode"].map String.toList

/-- No name is offered twice. -/
theorem pairwise_exports : exports.Pairwise (· < ·) := by decide +kernel

/-- The classes of errors. -/
inductive ErrorClass where
  /-- A text is no segment. -/
  | identifier
  /-- A value is of a kind that an operation does not take. -/
  | type
  /-- A value is of the right kind and still none that an operation takes. -/
  | value
  /-- A number is too large. -/
  | overflow
  /-- Something is looked up that is not there. -/
  | key
  /-- A value lacks what an operation needs of it. -/
  | attribute
deriving DecidableEq

/-- The name of a class of errors. -/
def ErrorClass.name : ErrorClass → Text
  | .identifier => "IdentifierValidationError".toList
  | .type => "TypeError".toList
  | .value => "ValueError".toList
  | .overflow => "OverflowError".toList
  | .key => "KeyError".toList
  | .attribute => "AttributeError".toList

/-- The class of errors that a fault is raised as. -/
def Fault.errorClass : Fault → ErrorClass
  | .invalidIdentifier _ => .identifier
  | .noSegments => .value
  | .invalidLogMode _ => .value
  | .indexTooLarge => .overflow
  | .noNumberedField _ => .key
  | .unknownRegister _ => .key
  | .noAttribute .. => .attribute
  | _ => .type

theorem ErrorClass.name_mem_exports_iff {c : ErrorClass} : c.name ∈ exports ↔ c = .identifier := by
  cases c <;> decide +kernel

/-- Only what is said about an invalid identifier is raised as an error of the library itself. -/
theorem Fault.name_errorClass_mem_exports_iff {f : Fault} :
    f.errorClass.name ∈ exports ↔ ∃ e, f = .invalidIdentifier e := by
  rw [ErrorClass.name_mem_exports_iff]
  cases f with
  | invalidIdentifier e => exact iff_of_true rfl ⟨e, rfl⟩
  | _ => exact iff_of_false nofun nofun

end DottedNames
