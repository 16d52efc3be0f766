import Reclaim.Json.Basic

/-!
# The strings in a value

The strings of a value are listed without the names of members.  Items and
members have no other strings than the value they stand in.

Main result: `strings_subset_of_getMember?`.
-/

namespace Reclaim
namespace Json

mutual

/-- The strings in a value; the names of members are not among them. -/
def Value.strings : Value → List String
  | .null => []
  | .bool _ => []
  | .number _ => []
  | .string s => [s]
  | .array xs => itemStrings xs
  | .object ms => memberStrings ms

/-- The strings in the items of a list. -/
def itemStrings : List Value → List String
  | [] => []
  | x :: xs => x.strings ++ itemStrings xs

/-- The strings in the members of an object. -/
def memberStrings : List (String × Value) → List String
  | [] => []
  | (_, v) :: ms => v.strings ++ memberStrings ms

end

theorem strings_subset_itemStrings
    {v : Value} {xs : List Value} (h : v ∈ xs) :
    v.strings ⊆ itemStrings xs := by
  induction xs with
  | nil => cases h
  | cons x xs ih =>
      rw [itemStrings]
      rcases List.mem_cons.1 h with rfl | h
      · exact List.subset_append_left _ _
      · exact List.Subset.trans (ih h) (List.subset_append_right _ _)

theorem strings_subset_memberStrings
    {m : String × Value} {ms : Members} (h : m ∈ ms) :
    m.2.strings ⊆ memberStrings ms := by
  induction ms with
  | nil => cases h
  | cons x ms ih =>
      obtain ⟨n, v⟩ := x
      rw [memberStrings]
      rcases List.mem_cons.1 h with rfl | h
      · exact List.subset_append_left _ _
      · exact List.Subset.trans (ih h) (List.subset_append_right _ _)

theorem mem_of_getMember?
    {name : String} {v : Value} {ms : Members}
    (h : getMember? name ms = some v) :
    (name, v) ∈ ms := by
  induction ms with
  | nil => cases h
  | cons m ms ih =>
      obtain ⟨n, w⟩ := m
      simp only [getMember?] at h
      split at h
      · next hn =>
          cases h
          rw [hn]
          exact List.mem_cons_self
      · exact List.mem_cons_of_mem _ (ih h)

theorem strings_subset_of_getMember?
    {name : String} {v : Value} {ms : Members}
    (h : getMember? name ms = some v) :
    v.strings ⊆ memberStrings ms :=
  strings_subset_memberStrings (mem_of_getMember? h)

end Json
end Reclaim
