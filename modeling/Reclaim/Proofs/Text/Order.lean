import Mathlib.Tactic.SplitIfs
import Reclaim.Text.Utf8

/-!
# The order of texts and of their bytes

Texts are ordered by their characters.  UTF-8 keeps this order: two texts are
ordered as their bytes are.  Where a separator comes before all characters of
two fields, the fields decide about the order of the lines that start with them,
and what follows only matters if they are the same.

Main results: `compare_encode`, `compare_append_cons_of_above`, and
`compare_append_cons_of_lt` for a separator that the fields may contain.
-/

namespace Reclaim
namespace Text

section Lists

variable {α : Type} [Ord α]

/-- What follows two texts of one length matters only if they are the same. -/
theorem compare_append_of_length_eq
    {p q : List α} (h : p.length = q.length) (x y : List α) :
    compare (p ++ x) (q ++ y) = (compare p q).then (compare x y) := by
  induction p generalizing q with
  | nil =>
      obtain rfl := List.length_eq_zero_iff.1 h.symm
      rfl
  | cons a p ih =>
      cases q with
      | nil => simp at h
      | cons b q =>
          simp only [List.cons_append, List.compare_cons_cons,
            ih (Nat.succ.inj h), Ordering.then_assoc]

theorem compare_cons_self [Std.ReflOrd α] (a : α) (x y : List α) :
    compare (a :: x) (a :: y) = compare x y := by
  have same : compare a a = .eq := Std.ReflCmp.compare_self
  rw [List.compare_cons_cons, same, Ordering.eq_then]

/-- What follows two texts matters only if they are the same, if it starts below them. -/
theorem compare_append_cons_of_above
    [Std.TransOrd α] [Std.LawfulEqOrd α] {sep : α} {p q : List α}
    (hp : ∀ a ∈ p, compare sep a = .lt) (hq : ∀ b ∈ q, compare sep b = .lt)
    (x y : List α) :
    compare (p ++ sep :: x) (q ++ sep :: y) =
      (compare p q).then (compare x y) := by
  induction p generalizing q with
  | nil =>
      cases q with
      | nil =>
          simp only [List.nil_append, List.compare_cons_cons,
            Std.ReflCmp.compare_self]
      | cons b q =>
          simp only [List.nil_append, List.cons_append, List.compare_cons_cons,
            hq b (by simp), List.compare_nil_cons]
          rfl
  | cons a p ih =>
      cases q with
      | nil =>
          have hgt : compare a sep = .gt :=
            Std.OrientedCmp.gt_of_lt (hp a (by simp))
          simp only [List.nil_append, List.cons_append, List.compare_cons_cons,
            hgt, List.compare_cons_nil]
          rfl
      | cons b q =>
          have ih := ih (fun c hc => hp c (List.mem_cons_of_mem a hc))
            fun c hc => hq c (List.mem_cons_of_mem b hc)
          simp only [List.cons_append, List.compare_cons_cons, ih,
            Ordering.then_assoc]

/--
A separator that ends the smaller text does not make it larger, unless the
larger one goes on with the same separator.
-/
theorem compare_append_cons_of_lt
    [Std.LawfulEqOrd α] {sep : α} {p q : List α}
    (hq : ∀ b ∈ q, (compare sep b).isLE) (h : compare p q = .lt)
    (apart : ¬ p ++ [sep] <+: q) (x y : List α) :
    compare (p ++ sep :: x) (q ++ y) = .lt := by
  induction p generalizing q with
  | nil =>
      cases q with
      | nil => cases h
      | cons b q =>
          have above : compare sep b = .lt := by
            have le := hq b (by simp)
            cases hb : compare sep b with
            | lt => rfl
            | eq =>
                obtain rfl := Std.LawfulEqOrd.eq_of_compare hb
                exact absurd ⟨q, rfl⟩ apart
            | gt =>
                rw [hb] at le
                cases le
          rw [List.nil_append, List.cons_append, List.compare_cons_cons, above]
          rfl
  | cons a p ih =>
      cases q with
      | nil => cases h
      | cons b q =>
          simp only [List.cons_append, List.compare_cons_cons,
            Ordering.then_eq_lt] at h ⊢
          refine h.imp_right fun ⟨hab, hpq⟩ => ⟨hab, ?_⟩
          obtain rfl := Std.LawfulEqOrd.eq_of_compare hab
          exact ih (fun c hc => hq c (List.mem_cons_of_mem a hc)) hpq
            fun hp => apart (List.cons_prefix_cons.2 ⟨rfl, hp⟩)

end Lists

theorem compare_char (c d : Char) : compare c d = compare c.toNat d.toNat := by
  have hc : compare c d = compareOfLessAndEq c d := rfl
  have hn : compare c.toNat d.toNat = compareOfLessAndEq c.toNat d.toNat := rfl
  have lt : c < d ↔ c.toNat < d.toNat := Iff.rfl
  simp only [hc, hn, compareOfLessAndEq, lt, Char.toNat_inj]

/-- Texts are ordered as their characters are. -/
theorem compare_toList (s t : String) :
    compare s t = compare s.toList t.toList := by
  have chars : ∀ x y : List Char, compare x y = compareOfLessAndEq x y := by
    intro x
    induction x with
    | nil =>
        intro y
        cases y with
        | nil => rfl
        | cons d y => rfl
    | cons c x ih =>
        intro y
        cases y with
        | nil => rfl
        | cons d y =>
            have hc : compare c d = compareOfLessAndEq c d := rfl
            rw [List.compare_cons_cons, ih, hc]
            simp only [compareOfLessAndEq, List.cons_lt_cons_iff,
              List.cons.injEq]
            by_cases hlt : c < d
            · simp [hlt]
            · by_cases heq : c = d <;> simp [hlt, heq]
  have hs : compare s t = compareOfLessAndEq s t := rfl
  rw [hs, chars]
  simp only [compareOfLessAndEq, String.lt_iff, String.toList_inj]

namespace Utf8

theorem compare_byte (a b : UInt8) : compare a b = compare a.toNat b.toNat := by
  have hb : compare a b = compareOfLessAndEq a b := rfl
  have hn : compare a.toNat b.toNat = compareOfLessAndEq a.toNat b.toNat := rfl
  simp only [hb, hn, compareOfLessAndEq, UInt8.lt_iff_toNat_lt,
    UInt8.toNat_inj]

theorem compare_ofNat_cons_eq_lt_iff
    {m n : Nat} {r s : List UInt8} (hm : m < 256) (hn : n < 256) :
    compare (UInt8.ofNat m :: r) (UInt8.ofNat n :: s) = .lt ↔
      m < n ∨ m = n ∧ compare r s = .lt := by
  rw [List.compare_cons_cons, compare_byte, toNat_ofNat_of_lt hm,
    toNat_ofNat_of_lt hn, Ordering.then_eq_lt, Nat.compare_eq_lt,
    Nat.compare_eq_eq]

/-- Of two characters the bytes of the smaller one come first, whatever follows. -/
theorem compare_encodeChar_of_lt
    {c d : Char} (h : c.toNat < d.toNat) (x y : List UInt8) :
    compare (encodeChar c ++ x) (encodeChar d ++ y) = .lt := by
  have hc : c.toNat < 0x110000 := by
    have : c.toNat < 0xD800 ∨ (0xDFFF < c.toNat ∧ c.toNat < 0x110000) := c.valid
    omega
  have hd : d.toNat < 0x110000 := by
    have : d.toNat < 0xD800 ∨ (0xDFFF < d.toNat ∧ d.toNat < 0x110000) := d.valid
    omega
  -- The number of bytes grows with the character, and so does the first byte.
  simp only [encodeChar]
  generalize c.toNat = m at h hc
  generalize d.toNat = n at h hd
  split_ifs
  all_goals
    simp (disch := omega) only [List.cons_append, List.nil_append,
      compare_ofNat_cons_eq_lt_iff]
    omega

theorem encodeChar_ne_nil (c : Char) : encodeChar c ≠ [] := by
  simp only [encodeChar]
  split_ifs <;> simp

/-- The bytes of texts are ordered as the texts are. -/
theorem compare_encode (s t : List Char) :
    compare (encode s) (encode t) = compare s t := by
  induction s generalizing t with
  | nil =>
      cases t with
      | nil => rfl
      | cons d t =>
          obtain ⟨b, r, hb⟩ := List.exists_cons_of_ne_nil (encodeChar_ne_nil d)
          simp only [encode, List.flatMap_cons, List.flatMap_nil, hb,
            List.cons_append, List.compare_nil_cons]
  | cons c s ih =>
      cases t with
      | nil =>
          obtain ⟨b, r, hb⟩ := List.exists_cons_of_ne_nil (encodeChar_ne_nil c)
          simp only [encode, List.flatMap_cons, List.flatMap_nil, hb,
            List.cons_append, List.compare_cons_nil]
      | cons d t =>
          have split : ∀ (e : Char) (u : List Char),
              encode (e :: u) = encodeChar e ++ encode u :=
            fun _ _ => List.flatMap_cons
          rw [split, split, List.compare_cons_cons, compare_char]
          rcases Nat.lt_trichotomy c.toNat d.toNat with h | h | h
          · rw [compare_encodeChar_of_lt h, Nat.compare_eq_lt.2 h]
            rfl
          · obtain rfl := Char.toNat_inj.1 h
            have same : compare (encodeChar c) (encodeChar c) = .eq :=
              Std.ReflCmp.compare_self
            rw [compare_append_of_length_eq rfl, same, ih,
              Nat.compare_eq_eq.2 rfl]
          · rw [Nat.compare_eq_gt.2 h]
            exact Std.OrientedCmp.gt_of_lt (compare_encodeChar_of_lt h _ _)

end Utf8

/-- As bytes, the first text comes before the second one. -/
def BytesBefore (s t : String) : Prop :=
  compare (Utf8.encode s.toList) (Utf8.encode t.toList) = .lt

theorem bytesBefore_iff_toList {s t : String} :
    BytesBefore s t ↔ compare s.toList t.toList = .lt := by
  rw [BytesBefore, Utf8.compare_encode]

theorem bytesBefore_iff {s t : String} :
    BytesBefore s t ↔ compare s t = .lt := by
  rw [bytesBefore_iff_toList, ← compare_toList]

end Text
end Reclaim
