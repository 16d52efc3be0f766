import Reclaim.Decimal.Binary64

/-!
# JSON values

A value is a scalar, a list of values or an object.  The members of an object
are kept in the order of their names, each name once, so that equal objects are
equal lists; `setMember` puts a member in its place.

Main results: `getMember?_setMember_self` and `getMember?_setMember_of_ne` say
what a written member changes.
-/

namespace Reclaim
namespace Json

/-- A number: an integer of 64 bits, or a binary number for all others. -/
inductive Number
  | integer (n : Int)
  | float (x : Decimal.Binary64)
  deriving DecidableEq

/-- A JSON value. -/
inductive Value
  | null
  | bool (b : Bool)
  | number (n : Number)
  | string (s : String)
  | array (items : List Value)
  | object (members : List (String × Value))
  deriving Inhabited

/-- The members of an object. -/
abbrev Members := List (String × Value)

/-- Puts a member in its place; a member of the same name is replaced. -/
def setMember (name : String) (v : Value) : Members → Members
  | [] => [(name, v)]
  | (n, w) :: r =>
      match compare name n with
      | .lt => (name, v) :: (n, w) :: r
      | .eq => (name, v) :: r
      | .gt => (n, w) :: setMember name v r

/-- The value of a member. -/
def getMember? (name : String) : Members → Option Value
  | [] => none
  | (n, w) :: r => if n = name then some w else getMember? name r

namespace Value

/-- The object with the given members, of which the last of a name counts. -/
def ofMembers (members : Members) : Value :=
  .object (members.foldl (fun ms (n, v) => setMember n v ms) [])

/-- The member of an object; other values have none. -/
def get? (v : Value) (name : String) : Option Value :=
  match v with
  | .object ms => getMember? name ms
  | _ => none

/-- The text of a string. -/
def string? : Value → Option String
  | .string s => some s
  | _ => none

end Value

theorem getMember?_setMember_self
    (name : String) (v : Value) (ms : Members) :
    getMember? name (setMember name v ms) = some v := by
  induction ms with
  | nil => simp [setMember, getMember?]
  | cons m r ih =>
      obtain ⟨n, w⟩ := m
      simp only [setMember]
      split
      · simp [getMember?]
      · simp [getMember?]
      · next h =>
          have hn : n ≠ name := by
            rintro rfl
            simp at h
          simp [getMember?, hn, ih]

theorem getMember?_setMember_of_ne
    {name other : String} (v : Value) (ms : Members)
    (h : other ≠ name) :
    getMember? other (setMember name v ms) = getMember? other ms := by
  induction ms with
  | nil => simp [setMember, getMember?, Ne.symm h]
  | cons m r ih =>
      obtain ⟨n, w⟩ := m
      simp only [setMember]
      split
      · simp [getMember?, Ne.symm h]
      · next he =>
          have hn : name = n := Std.LawfulEqOrd.eq_of_compare he
          subst hn
          simp [getMember?, Ne.symm h]
      · simp [getMember?, ih]

end Json
end Reclaim
