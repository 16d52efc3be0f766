/-!
# Sorted maps

Finite maps as lists of pairs in strictly rising order of their keys.  The
order is part of the type, so that two maps with the same entries are equal.

Main results: `get?_insert` and `get?_erase` say what the two changes do.
-/

namespace Reclaim
namespace Sorted

variable {κ β : Type} [Ord κ]

/-- Pairs in strictly rising order of their keys. -/
def Rising (pairs : List (κ × β)) : Prop :=
  pairs.Pairwise fun a b => compare a.1 b.1 = .lt

/-- Puts a pair in its place; a pair with the same key is replaced. -/
def insertPair (key : κ) (value : β) : List (κ × β) → List (κ × β)
  | [] => [(key, value)]
  | (k, v) :: r =>
      match compare key k with
      | .lt => (key, value) :: (k, v) :: r
      | .eq => (key, value) :: r
      | .gt => (k, v) :: insertPair key value r

/-- The value of a key. -/
def lookup? (key : κ) : List (κ × β) → Option β
  | [] => none
  | (k, v) :: r => if compare key k = .eq then some v else lookup? key r

/-- The pairs with other keys. -/
def removePair (key : κ) (pairs : List (κ × β)) : List (κ × β) :=
  pairs.filter fun p => compare key p.1 ≠ .eq

theorem mem_insertPair
    {key : κ} {value : β} {pairs : List (κ × β)} {p : κ × β}
    (h : p ∈ insertPair key value pairs) :
    p = (key, value) ∨ p ∈ pairs := by
  induction pairs with
  | nil => simpa [insertPair] using h
  | cons q r ih =>
      obtain ⟨k, v⟩ := q
      simp only [insertPair] at h
      split at h
      · simpa using h
      · simp only [List.mem_cons] at h ⊢
        rcases h with h | h
        · exact .inl h
        · exact .inr (.inr h)
      · simp only [List.mem_cons] at h ⊢
        rcases h with h | h
        · exact .inr (.inl h)
        · rcases ih h with h | h
          · exact .inl h
          · exact .inr (.inr h)

theorem rising_insertPair
    [Std.TransOrd κ] [Std.LawfulEqOrd κ]
    {key : κ} {value : β} {pairs : List (κ × β)}
    (h : Rising pairs) :
    Rising (insertPair key value pairs) := by
  induction pairs with
  | nil => simp [insertPair, Rising]
  | cons q r ih =>
      obtain ⟨k, v⟩ := q
      have hr := List.pairwise_cons.1 h
      simp only [insertPair]
      split
      · next hlt =>
          refine List.pairwise_cons.2 ⟨?_, h⟩
          intro p hp
          rcases List.mem_cons.1 hp with rfl | hp
          · exact hlt
          · exact Std.TransCmp.lt_trans hlt (hr.1 p hp)
      · next heq =>
          have hk := Std.LawfulEqOrd.eq_of_compare heq
          subst hk
          exact List.pairwise_cons.2 ⟨hr.1, hr.2⟩
      · next hgt =>
          refine List.pairwise_cons.2 ⟨?_, ih hr.2⟩
          intro p hp
          rcases mem_insertPair hp with rfl | hp
          · exact Std.OrientedCmp.lt_of_gt hgt
          · exact hr.1 p hp

theorem rising_removePair
    {key : κ} {pairs : List (κ × β)}
    (h : Rising pairs) :
    Rising (removePair key pairs) :=
  List.Pairwise.filter _ h

theorem lookup?_insertPair
    [Std.TransOrd κ] [Std.LawfulEqOrd κ]
    (key other : κ) (value : β) (pairs : List (κ × β)) :
    lookup? other (insertPair key value pairs) =
      if compare other key = .eq then some value
      else lookup? other pairs := by
  induction pairs with
  | nil => simp [insertPair, lookup?]
  | cons q r ih =>
      obtain ⟨k, v⟩ := q
      simp only [insertPair]
      split
      · simp [lookup?]
      · next heq =>
          have hk := Std.LawfulEqOrd.eq_of_compare heq
          subst hk
          simp only [lookup?]
          split <;> simp
      · next hgt =>
          simp only [lookup?, ih]
          by_cases ho : compare other k = .eq
          · have hk := Std.LawfulEqOrd.eq_of_compare ho
            subst hk
            have hne : compare other key ≠ .eq := by
              intro he
              have := Std.LawfulEqOrd.eq_of_compare he
              subst this
              simp at hgt
            simp [hne]
          · simp [ho]

theorem lookup?_removePair
    [Std.TransOrd κ] [Std.LawfulEqOrd κ]
    (key other : κ) (pairs : List (κ × β)) :
    lookup? other (removePair key pairs) =
      if compare other key = .eq then none
      else lookup? other pairs := by
  induction pairs with
  | nil => simp [removePair, lookup?]
  | cons q r ih =>
      obtain ⟨k, v⟩ := q
      simp only [removePair] at ih ⊢
      by_cases hk : compare key k = .eq
      · have hkk := Std.LawfulEqOrd.eq_of_compare hk
        subst hkk
        simp only [List.filter_cons, hk, ne_eq, not_true_eq_false,
          decide_false, Bool.false_eq_true, if_false, ih, lookup?]
        split <;> simp
      · simp only [List.filter_cons, hk, ne_eq, not_false_eq_true,
          decide_true, if_true, lookup?, ih]
        by_cases ho : compare other k = .eq
        · have hkk := Std.LawfulEqOrd.eq_of_compare ho
          subst hkk
          have hne : compare other key ≠ .eq := by
            intro he
            have := Std.LawfulEqOrd.eq_of_compare he
            subst this
            exact hk (by simp)
          simp [hne]
        · simp [ho]

/-- A finite map in the order of its keys. -/
structure SortedMap (κ β : Type) [Ord κ] where
  pairs : List (κ × β)
  rising : Rising pairs

namespace SortedMap

/-- The map without entries. -/
def empty : SortedMap κ β :=
  ⟨[], List.Pairwise.nil⟩

instance : Inhabited (SortedMap κ β) := ⟨empty⟩

/-- The value of a key. -/
def get? (m : SortedMap κ β) (key : κ) : Option β :=
  lookup? key m.pairs

/-- The map has an entry for a key. -/
def contains (m : SortedMap κ β) (key : κ) : Bool :=
  (m.get? key).isSome

/-- The first entry whose key is not before the given one. -/
def firstFrom? (m : SortedMap κ β) (key : κ) : Option (κ × β) :=
  m.pairs.find? fun p => compare p.1 key ≠ .lt

/-- The map without the entry of a key. -/
def erase (m : SortedMap κ β) (key : κ) : SortedMap κ β :=
  ⟨removePair key m.pairs, rising_removePair m.rising⟩

/-- The keys in rising order. -/
def keys (m : SortedMap κ β) : List κ :=
  m.pairs.map Prod.fst

variable [Std.TransOrd κ] [Std.LawfulEqOrd κ]

/-- The map with an entry for a key. -/
def insert (m : SortedMap κ β) (key : κ) (value : β) : SortedMap κ β :=
  ⟨insertPair key value m.pairs, rising_insertPair m.rising⟩

/-- The map of the given entries, of which the last of a key counts. -/
def ofList (pairs : List (κ × β)) : SortedMap κ β :=
  pairs.foldl (fun m p => m.insert p.1 p.2) empty

/-- An insertion changes the value of its key and of no other. -/
theorem get?_insert [DecidableEq κ]
    (m : SortedMap κ β) (key other : κ) (value : β) :
    (m.insert key value).get? other =
      if other = key then some value else m.get? other := by
  simp only [get?, insert, lookup?_insertPair,
    Std.LawfulEqOrd.compare_eq_iff_eq]

/-- An erasure removes the value of its key and of no other. -/
theorem get?_erase [DecidableEq κ]
    (m : SortedMap κ β) (key other : κ) :
    (m.erase key).get? other =
      if other = key then none else m.get? other := by
  simp only [get?, erase, lookup?_removePair,
    Std.LawfulEqOrd.compare_eq_iff_eq]

end SortedMap
end Sorted
end Reclaim
