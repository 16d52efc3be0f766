import Reclaim.Proofs.Time.Order
import Reclaim.Stream.Guard

/-!
# Streams in order

Keys are compared from the left, and their order is a linear one.  A stream is
in order if its keys never fall, which is what the engines rely on.

Main results: `InOrder.le_of_mem` compares the first row of a stream with a
later one, and `accept_of_le` says that a guard lets such a row through.
-/

namespace Reclaim

namespace Uuid

instance : Std.TransOrd Uuid :=
  inferInstanceAs (Std.TransCmp (compareOn Uuid.digits))

instance : Std.LawfulEqOrd Uuid where
  eq_of_compare {a b} h := by
    have h : compare a.digits b.digits = .eq := h
    have hd := Std.LawfulEqOrd.eq_of_compare h
    cases a
    cases b
    cases hd
    rfl

end Uuid

namespace Stream

section Keys

variable {α β : Type} [SortKey α] [SortKey β]

theorem compare_pair (a b : α × β) :
    compare a b = (compare a.1 b.1).then (compare a.2 b.2) := rfl

instance transOrd_pair [Std.TransOrd α] [Std.TransOrd β] :
    Std.TransOrd (α × β) :=
  inferInstanceAs (Std.TransCmp
    (compareLex (compareOn Prod.fst) (compareOn Prod.snd)))

instance lawfulEqOrd_pair [Std.LawfulEqOrd α] [Std.LawfulEqOrd β] :
    Std.LawfulEqOrd (α × β) where
  eq_of_compare {a b} h := by
    rw [compare_pair, Ordering.then_eq_eq,
      Std.LawfulEqOrd.compare_eq_iff_eq,
      Std.LawfulEqOrd.compare_eq_iff_eq] at h
    exact Prod.ext h.1 h.2
  compare_self {a} := by
    rw [compare_pair, Std.ReflOrd.compare_self, Std.ReflOrd.compare_self]
    rfl

/-- The first parts of keys in order are in order. -/
theorem fst_le_of_le {a b : α × β} (h : (compare a b).isLE) :
    (compare a.1 b.1).isLE :=
  Ordering.isLE_left_of_isLE_then h

/-- Where the first parts of keys in order agree, the second parts are in order. -/
theorem snd_le_of_le [Std.LawfulEqOrd α] {a b : α × β}
    (h : (compare a b).isLE) (heq : a.1 = b.1) :
    (compare a.2 b.2).isLE := by
  rw [compare_pair, heq, Std.ReflOrd.compare_self] at h
  exact h

end Keys

section Order

variable {ρ κ : Type} [SortKey κ] {key : ρ → κ}

/-- The keys of the rows never fall. -/
def InOrder (key : ρ → κ) (rows : List ρ) : Prop :=
  rows.Pairwise fun a b => (compare (key a) (key b)).isLE = true

instance (key : ρ → κ) (rows : List ρ) : Decidable (InOrder key rows) :=
  inferInstanceAs (Decidable (rows.Pairwise _))

/-- The first row of a stream in order is not after any other. -/
theorem InOrder.le_of_mem
    {row other : ρ} {rows : List ρ}
    (h : InOrder key (row :: rows)) (hm : other ∈ rows) :
    (compare (key row) (key other)).isLE :=
  (List.pairwise_cons.1 h).1 other hm

theorem InOrder.tail
    {row : ρ} {rows : List ρ}
    (h : InOrder key (row :: rows)) :
    InOrder key rows :=
  (List.pairwise_cons.1 h).2

/-- A guard lets a key through that is not before its last one. -/
theorem Guard.accept_of_le
    [Std.OrientedOrd κ] {previous next : κ}
    (h : (compare previous next).isLE) :
    Guard.accept ⟨some previous⟩ next = .ok ⟨some next⟩ := by
  rw [Guard.accept_eq_ok_iff]
  refine ⟨rfl, ?_⟩
  intro last hlast
  cases hlast
  exact Std.OrientedCmp.not_lt_of_isLE h

end Order

end Stream
end Reclaim
