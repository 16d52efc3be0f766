/-!
# Faults of JSON texts and records
-/

namespace Reclaim
namespace Json

/-- Why a JSON text or value cannot be read as what is wanted. -/
inductive Fault
  /-- The text breaks the grammar or one of its limits. -/
  | malformed
  /-- A value of another type stands where one is wanted. -/
  | invalidType
  /-- A value of the right type is out of range. -/
  | invalidValue
  /-- A list has too few or too many items for a record. -/
  | invalidLength
  /-- A record lacks a field. -/
  | missingField (name : String)
  /-- A record has a field twice. -/
  | duplicateField (name : String)
  deriving DecidableEq, Repr

namespace Fault

/-- The wording of a fault. -/
def message : Fault → String
  | malformed => "syntax"
  | invalidType => "invalid type"
  | invalidValue => "invalid value"
  | invalidLength => "invalid length"
  | missingField name => "missing field `" ++ name ++ "`"
  | duplicateField name => "duplicate field `" ++ name ++ "`"

end Fault
end Json
end Reclaim
