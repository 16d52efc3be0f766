import Reclaim.Sorted.Map

/-!
# Keys and entries of sorted maps

A map has one entry for each of its keys.  A map from which keys are erased one
after the other keeps the values of all other keys.  The order of the erasures
does not matter, and an erasure of a key without a value changes nothing.  A
search from a key on finds the least of the keys that are not before it.

Main results: `get?_of_mem`, `get?_eraseAll`, `erase_eraseAll` and
`firstFrom?_eq_some_iff`.
-/

namespace Reclaim
namespace Sorted

variable {κ β : Type} [Ord κ]

theorem exists_lookup?_of_mem
    [Std.ReflOrd κ] {key : κ} {value : β} {pairs : List (κ × β)}
    (h : (key, value) ∈ pairs) :
    ∃ v, lookup? key pairs = some v := by
  induction pairs with
  | nil => cases h
  | cons p r ih =>
      obtain ⟨k, v⟩ := p
      by_cases hk : compare key k = .eq
      · exact ⟨v, by simp [lookup?, hk]⟩
      · rcases List.mem_cons.1 h with heq | hr
        · cases heq
          exact absurd Std.ReflOrd.compare_self hk
        · simpa [lookup?, hk] using ih hr

theorem mem_of_lookup?
    [Std.LawfulEqOrd κ] {key : κ} {value : β} {pairs : List (κ × β)}
    (h : lookup? key pairs = some value) :
    (key, value) ∈ pairs := by
  induction pairs with
  | nil => cases h
  | cons p r ih =>
      obtain ⟨k, v⟩ := p
      by_cases hk : compare key k = .eq
      · have heq := Std.LawfulEqOrd.eq_of_compare hk
        simp only [lookup?, hk, if_true, Option.some.injEq] at h
        rw [heq, h]
        exact List.mem_cons_self
      · simp only [lookup?, hk, if_false] at h
        exact List.mem_cons_of_mem _ (ih h)

theorem lookup?_of_mem
    [Std.LawfulEqOrd κ] {key : κ} {value : β} {pairs : List (κ × β)}
    (rising : Rising pairs) (h : (key, value) ∈ pairs) :
    lookup? key pairs = some value := by
  induction pairs with
  | nil => cases h
  | cons p r ih =>
      obtain ⟨k, v⟩ := p
      obtain ⟨first, rest⟩ := List.pairwise_cons.1 rising
      rcases List.mem_cons.1 h with heq | hr
      · cases heq
        simp [lookup?]
      · have hne : compare key k ≠ .eq := by
          intro heq
          have hlt := first _ hr
          rw [Std.LawfulEqOrd.eq_of_compare heq, Std.ReflOrd.compare_self] at hlt
          cases hlt
        rw [lookup?, if_neg hne]
        exact ih rest hr

/-- Without the pair that has been put in its place, the pairs are as before. -/
theorem filter_insertPair
    [Std.LawfulEqOrd κ] [BEq κ] [LawfulBEq κ] {key : κ} {value : β}
    {pairs : List (κ × β)} (h : ∀ p ∈ pairs, p.1 ≠ key) :
    (insertPair key value pairs).filter (fun p => p.1 != key) = pairs := by
  have keep : ∀ {ps : List (κ × β)}, (∀ p ∈ ps, p.1 ≠ key) →
      ps.filter (fun p => p.1 != key) = ps := fun hps =>
    List.filter_eq_self.2 fun p hp => bne_iff_ne.2 (hps p hp)
  induction pairs with
  | nil => simp [insertPair]
  | cons p r ih =>
      obtain ⟨k, v⟩ := p
      obtain ⟨hk, hr⟩ := List.forall_mem_cons.1 h
      rw [insertPair]
      split
      · rw [List.filter_cons_of_neg (by simp), keep h]
      · next heq => exact absurd (Std.LawfulEqOrd.eq_of_compare heq).symm hk
      · rw [List.filter_cons, if_pos (bne_iff_ne.2 hk), ih hr]

namespace SortedMap

/-- The map without the entries of several keys. -/
def eraseAll (m : SortedMap κ β) (keys : List κ) : SortedMap κ β :=
  keys.foldl erase m

@[simp] theorem eraseAll_nil (m : SortedMap κ β) : m.eraseAll [] = m := rfl

@[simp] theorem eraseAll_cons (m : SortedMap κ β) (key : κ) (keys : List κ) :
    m.eraseAll (key :: keys) = (m.erase key).eraseAll keys := rfl

theorem eraseAll_append (m : SortedMap κ β) (first rest : List κ) :
    m.eraseAll (first ++ rest) = (m.eraseAll first).eraseAll rest :=
  List.foldl_append

theorem ext_pairs {m m' : SortedMap κ β} (h : m.pairs = m'.pairs) : m = m' := by
  cases m
  cases m'
  cases h
  rfl

theorem erase_comm (m : SortedMap κ β) (a b : κ) :
    (m.erase a).erase b = (m.erase b).erase a :=
  ext_pairs (by simp only [erase, removePair, List.filter_filter, Bool.and_comm])

theorem erase_eraseAll (m : SortedMap κ β) (key : κ) (keys : List κ) :
    (m.eraseAll keys).erase key = (m.erase key).eraseAll keys := by
  induction keys generalizing m with
  | nil => rfl
  | cons k ks ih => rw [eraseAll_cons, ih, erase_comm, ← eraseAll_cons]

theorem eraseAll_comm (m : SortedMap κ β) (first second : List κ) :
    (m.eraseAll first).eraseAll second = (m.eraseAll second).eraseAll first := by
  induction second generalizing m with
  | nil => rfl
  | cons k ks ih =>
      rw [eraseAll_cons, erase_eraseAll, ih, ← eraseAll_cons]

/-- The keys may be erased in any order. -/
theorem eraseAll_perm (m : SortedMap κ β) {first second : List κ}
    (h : first.Perm second) : m.eraseAll first = m.eraseAll second :=
  h.foldl_eq' (fun a _ b _ m => erase_comm m a b) m

/-- The keys of a map rise, and none is repeated. -/
theorem pairwise_keys (m : SortedMap κ β) :
    m.keys.Pairwise fun a b => compare a b = .lt :=
  List.pairwise_map.2 m.rising

theorem exists_firstFrom? {m : SortedMap κ β} {key : κ} {p : κ × β}
    (hmem : p ∈ m.pairs) (hfrom : compare p.1 key ≠ .lt) :
    ∃ first, m.firstFrom? key = some first :=
  Option.isSome_iff_exists.1 (List.find?_isSome.2 ⟨p, hmem, decide_eq_true hfrom⟩)

/-- The first entry from a key on is the least of those that are not before the key. -/
theorem firstFrom?_eq_some_iff [Std.OrientedOrd κ]
    {m : SortedMap κ β} {key : κ} {first : κ × β} :
    m.firstFrom? key = some first ↔
      first ∈ m.pairs ∧ compare first.1 key ≠ .lt ∧
        ∀ p ∈ m.pairs, compare p.1 key ≠ .lt → p = first ∨ compare first.1 p.1 = .lt := by
  have found : ∀ {q}, m.firstFrom? key = some q → q ∈ m.pairs ∧ compare q.1 key ≠ .lt :=
    fun hq => ⟨List.mem_of_find?_eq_some hq, by simpa using List.find?_some hq⟩
  have least : ∀ {q}, m.firstFrom? key = some q → ∀ p ∈ m.pairs, compare p.1 key ≠ .lt →
      p = q ∨ compare q.1 p.1 = .lt := by
    intro q hq p hp hfrom
    obtain ⟨-, before, after, hpairs, hbefore⟩ := List.find?_eq_some_iff_append.1 hq
    have hrising := m.rising
    rw [hpairs] at hp hrising
    rcases List.mem_append.1 hp with hp | hp
    · exact absurd (decide_eq_true hfrom) (by simpa using hbefore p hp)
    · rcases List.mem_cons.1 hp with rfl | hp
      · exact .inl rfl
      · exact .inr ((List.pairwise_cons.1 (List.pairwise_append.1 hrising).2.1).1 p hp)
  constructor
  · intro h
    exact ⟨(found h).1, (found h).2, least h⟩
  · rintro ⟨hmem, hfrom, hfirst⟩
    -- Some entry is found, and neither it nor the given one is before the other.
    obtain ⟨q, hq⟩ := exists_firstFrom? hmem hfrom
    rcases least hq first hmem hfrom with rfl | hlt
    · exact hq
    · rcases hfirst q (found hq).1 (found hq).2 with rfl | hgt
      · exact hq
      · rw [Std.OrientedCmp.gt_of_lt hlt] at hgt
        cases hgt

variable [Std.LawfulEqOrd κ]

theorem mem_keys_iff {m : SortedMap κ β} {key : κ} :
    key ∈ m.keys ↔ m.contains key = true := by
  rw [contains, Option.isSome_iff_exists, keys, List.mem_map]
  constructor
  · rintro ⟨⟨k, v⟩, hm, rfl⟩
    exact exists_lookup?_of_mem hm
  · rintro ⟨v, hv⟩
    exact ⟨(key, v), mem_of_lookup? hv, rfl⟩

theorem mem_keys_erase {m : SortedMap κ β} {key other : κ} :
    other ∈ (m.erase key).keys ↔ other ∈ m.keys ∧ other ≠ key := by
  simp only [keys, erase, removePair, List.mem_map, List.mem_filter]
  constructor
  · rintro ⟨p, ⟨hp, hne⟩, rfl⟩
    refine ⟨⟨p, hp, rfl⟩, ?_⟩
    rintro rfl
    simp at hne
  · rintro ⟨⟨p, hp, rfl⟩, hne⟩
    refine ⟨p, ⟨hp, ?_⟩, rfl⟩
    simpa using fun h => hne (Std.LawfulEqOrd.eq_of_compare h).symm

theorem erase_of_not_mem {m : SortedMap κ β} {key : κ} (h : key ∉ m.keys) :
    m.erase key = m := by
  apply ext_pairs
  apply List.filter_eq_self.2
  intro p hp
  have hne : key ≠ p.1 := by
    rintro rfl
    exact h (List.mem_map.2 ⟨p, hp, rfl⟩)
  simpa using hne

theorem mem_keys_eraseAll {m : SortedMap κ β} {keys : List κ} {other : κ} :
    other ∈ (m.eraseAll keys).keys ↔ other ∈ m.keys ∧ other ∉ keys := by
  induction keys generalizing m with
  | nil => simp
  | cons k ks ih =>
      rw [eraseAll_cons, ih, mem_keys_erase, List.mem_cons, not_or, and_assoc]

theorem eraseAll_of_not_mem {m : SortedMap κ β} {keys : List κ}
    (h : ∀ k ∈ keys, k ∉ m.keys) : m.eraseAll keys = m := by
  induction keys with
  | nil => rfl
  | cons k ks ih =>
      obtain ⟨hk, hks⟩ := List.forall_mem_cons.1 h
      rw [eraseAll_cons, erase_of_not_mem hk, ih hks]

/-- Keys that are erased later anyway may be erased before. -/
theorem eraseAll_of_subset (m : SortedMap κ β) {first rest : List κ}
    (h : first ⊆ rest) : (m.eraseAll first).eraseAll rest = m.eraseAll rest := by
  rw [eraseAll_comm, eraseAll_of_not_mem]
  intro k hk hm
  exact (mem_keys_eraseAll.1 hm).2 (h hk)

theorem nodup_keys (m : SortedMap κ β) : m.keys.Nodup := by
  refine m.pairwise_keys.imp fun {a b} hlt heq => ?_
  rw [heq, Std.ReflOrd.compare_self] at hlt
  cases hlt

theorem get?_of_mem
    {m : SortedMap κ β} {key : κ} {value : β} (h : (key, value) ∈ m.pairs) :
    m.get? key = some value :=
  lookup?_of_mem m.rising h

variable [Std.TransOrd κ]

theorem mem_keys_insert [DecidableEq κ]
    {m : SortedMap κ β} {key other : κ} {value : β} :
    other ∈ (m.insert key value).keys ↔ other = key ∨ other ∈ m.keys := by
  rw [mem_keys_iff, mem_keys_iff, contains, contains, get?_insert]
  by_cases h : other = key <;> simp [h]

/-- A map has no other entries than those it is made of. -/
theorem mem_of_mem_ofList
    {pairs : List (κ × β)} {p : κ × β} (h : p ∈ (ofList pairs).pairs) :
    p ∈ pairs := by
  have insertAll : ∀ (qs : List (κ × β)) (m : SortedMap κ β),
      p ∈ (qs.foldl (fun m q => m.insert q.1 q.2) m).pairs →
        p ∈ m.pairs ∨ p ∈ qs := by
    intro qs
    induction qs with
    | nil => exact fun _ h => .inl h
    | cons q qs ih =>
        intro m h
        rcases ih (m.insert q.1 q.2) h with h | h
        · rcases mem_insertPair h with rfl | h
          · exact .inr List.mem_cons_self
          · exact .inl h
        · exact .inr (List.mem_cons_of_mem q h)
  rcases insertAll pairs empty h with h | h
  · cases h
  · exact h

theorem get?_eraseAll [DecidableEq κ]
    (m : SortedMap κ β) (keys : List κ) (other : κ) :
    (m.eraseAll keys).get? other =
      if other ∈ keys then none else m.get? other := by
  induction keys generalizing m with
  | nil => simp
  | cons k ks ih =>
      rw [eraseAll_cons, ih, get?_erase]
      by_cases hm : other ∈ ks
      · simp [hm]
      · by_cases hk : other = k
        · simp [hk]
        · simp [hm, hk]

end SortedMap
end Sorted
end Reclaim
