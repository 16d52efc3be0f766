import Reclaim.Json.Basic

/-!
# Equality of values

Values can be compared, so that what is read from a given text can be decided.
-/

namespace Reclaim
namespace Json

mutual

/-- Two values are the same. -/
def Value.same : Value → Value → Bool
  | .null, .null => true
  | .bool b, .bool c => b = c
  | .number m, .number n => m = n
  | .string s, .string t => s = t
  | .array xs, .array ys => sameItems xs ys
  | .object ms, .object ns => sameMembers ms ns
  | _, _ => false

/-- Two lists have the same items. -/
def sameItems : List Value → List Value → Bool
  | [], [] => true
  | x :: xs, y :: ys => x.same y && sameItems xs ys
  | _, _ => false

/-- Two objects have the same members. -/
def sameMembers :
    List (String × Value) → List (String × Value) → Bool
  | [], [] => true
  | (m, v) :: ms, (n, w) :: ns =>
      m = n && v.same w && sameMembers ms ns
  | _, _ => false

end

mutual

theorem Value.same_iff : ∀ v w : Value, v.same w = true ↔ v = w
  | .null, w => by cases w <;> simp [Value.same]
  | .bool _, w => by cases w <;> simp [Value.same]
  | .number _, w => by cases w <;> simp [Value.same]
  | .string _, w => by cases w <;> simp [Value.same]
  | .array xs, w => by
      cases w with
      | array ys => simp [Value.same, sameItems_iff xs ys]
      | _ => simp [Value.same]
  | .object ms, w => by
      cases w with
      | object ns => simp [Value.same, sameMembers_iff ms ns]
      | _ => simp [Value.same]

theorem sameItems_iff :
    ∀ xs ys : List Value, sameItems xs ys = true ↔ xs = ys
  | [], ys => by cases ys <;> simp [sameItems]
  | x :: xs, ys => by
      cases ys with
      | nil => simp [sameItems]
      | cons y ys =>
          simp [sameItems, Value.same_iff x y, sameItems_iff xs ys]

theorem sameMembers_iff :
    ∀ ms ns : List (String × Value), sameMembers ms ns = true ↔ ms = ns
  | [], ns => by cases ns <;> simp [sameMembers]
  | (m, v) :: ms, ns => by
      cases ns with
      | nil => simp [sameMembers]
      | cons n ns =>
          obtain ⟨n, w⟩ := n
          simp [sameMembers, Value.same_iff v w, sameMembers_iff ms ns]

end

instance : DecidableEq Value :=
  fun v w => decidable_of_iff _ (Value.same_iff v w)

end Json
end Reclaim
