import Mathlib.Data.List.Nodup
import Reclaim.Proofs.Stream.Order

/-!
# Groups of neighbouring rows

An engine that works in groups meets the rows of a stream one after the other
and sees where a group ends by the name of the next row.  `groups` collects the
rows in this way.  If the stream is in order and names follow the keys, then no
name comes back after another one, and the groups are what filters give.

Main results: `groups_eq` for the groups of a stream in order, `pairwise_names`
for the order of their names, `flatMap_rowsOf`, which puts the groups together
again, and `filter_flatMap_owner`, which tells what is made of some names from
what is made of all of them.
-/

namespace Reclaim
namespace Stream

section Contiguous

variable {ρ β : Type} {name : ρ → β}

/-- A row between two rows of a name has that name too. -/
def Contiguous (name : ρ → β) (rows : List ρ) : Prop :=
  ∀ a b c, [a, b, c].Sublist rows → name a = name c → name b = name c

theorem Contiguous.tail
    {r : ρ} {rs : List ρ} (h : Contiguous name (r :: rs)) :
    Contiguous name rs :=
  fun a b c hs => h a b c (hs.cons r)

/-- After a row of another name, the name of the first row is gone. -/
theorem Contiguous.ne_of_mem
    {r s x : ρ} {rs : List ρ}
    (h : Contiguous name (r :: s :: rs))
    (hne : name s ≠ name r) (hx : x ∈ rs) :
    name x ≠ name r := by
  intro heq
  have hs : [r, s, x].Sublist (r :: s :: rs) :=
    ((List.singleton_sublist.2 hx).cons_cons s).cons_cons r
  exact hne ((h r s x hs heq.symm).trans heq)

end Contiguous

section Groups

variable {ρ β : Type} [DecidableEq β]

/-- The rows of a name, in their order. -/
def rowsOf (name : ρ → β) (b : β) (rows : List ρ) : List ρ :=
  rows.filter fun r => name r = b

/-- The rows of all other names. -/
def rowsExcept (name : ρ → β) (b : β) (rows : List ρ) : List ρ :=
  rows.filter fun r => name r ≠ b

/-- The names of rows, in the order in which they come first. -/
def names (name : ρ → β) (rows : List ρ) : List β :=
  (rows.map name).eraseDups

/-- The groups of neighbouring rows after rows of the name `b`. -/
def groupsAfter (name : ρ → β) (b : β) (before : List ρ) :
    List ρ → List (β × List ρ)
  | [] => [(b, before)]
  | r :: rs =>
      if name r = b then groupsAfter name b (before ++ [r]) rs
      else (b, before) :: groupsAfter name (name r) [r] rs

/-- The groups of neighbouring rows with the same name. -/
def groups (name : ρ → β) : List ρ → List (β × List ρ)
  | [] => []
  | r :: rs => groupsAfter name (name r) [r] rs

variable {name : ρ → β}

theorem mem_rowsOf {b : β} {rows : List ρ} {r : ρ} :
    r ∈ rowsOf name b rows ↔ r ∈ rows ∧ name r = b := by
  simp [rowsOf]

theorem mem_names {b : β} {rows : List ρ} :
    b ∈ names name rows ↔ ∃ r ∈ rows, name r = b := by
  simp [names]

theorem names_cons (r : ρ) (rs : List ρ) :
    names name (r :: rs) =
      name r :: names name (rowsExcept name (name r) rs) := by
  rw [names, List.map_cons, List.eraseDups_cons, List.filter_map]
  congr 3
  apply List.filter_congr
  intro x _
  by_cases h : name x = name r <;> simp [h]

theorem rowsOf_cons_self (r : ρ) (rs : List ρ) :
    rowsOf name (name r) (r :: rs) = r :: rowsOf name (name r) rs := by
  simp [rowsOf]

theorem rowsOf_cons_of_ne {b : β} {r : ρ} (h : name r ≠ b) (rs : List ρ) :
    rowsOf name b (r :: rs) = rowsOf name b rs := by
  simp [rowsOf, h]

/-- The rows of a name are not among those of another one. -/
theorem rowsOf_rowsExcept {b c : β} (h : b ≠ c) (rows : List ρ) :
    rowsOf name b (rowsExcept name c rows) = rowsOf name b rows := by
  rw [rowsOf, rowsExcept, List.filter_filter]
  apply List.filter_congr
  intro x _
  by_cases hx : name x = b
  · simp [hx, h]
  · simp [hx]

/-- The groups after rows of a name are its other rows and the groups of the rest. -/
theorem groupsAfter_eq
    {r : ρ} {rs : List ρ} (before : List ρ)
    (h : Contiguous name (r :: rs)) :
    groupsAfter name (name r) before rs =
      (name r, before ++ rowsOf name (name r) rs) ::
        (names name (rowsExcept name (name r) rs)).map fun b =>
          (b, rowsOf name b (rowsExcept name (name r) rs)) := by
  induction rs generalizing r before with
  | nil =>
      simp [groupsAfter, rowsOf, rowsExcept, names]
  | cons s rs ih =>
      by_cases hs : name s = name r
      · have hstep := ih (before ++ [s]) h.tail
        rw [hs] at hstep
        rw [groupsAfter, if_pos hs, hstep]
        simp [rowsOf, rowsExcept, hs]
      · have hgone : rowsOf name (name r) (s :: rs) = [] := by
          apply List.filter_eq_nil_iff.2
          intro x hx
          rcases List.mem_cons.1 hx with rfl | hx
          · simpa using hs
          · simpa using h.ne_of_mem hs hx
        have hrest : rowsExcept name (name r) (s :: rs) = s :: rs := by
          apply List.filter_eq_self.2
          intro x hx
          rcases List.mem_cons.1 hx with rfl | hx
          · simpa using hs
          · simpa using h.ne_of_mem hs hx
        rw [groupsAfter, if_neg hs, ih [s] h.tail, hgone, hrest,
          names_cons, List.map_cons, rowsOf_cons_self, List.append_nil]
        congr 2
        apply List.map_congr_left
        intro b hb
        obtain ⟨x, hx, rfl⟩ := mem_names.1 hb
        have hxs : name x ≠ name s := by
          simpa using (List.mem_filter.1 hx).2
        rw [rowsOf_rowsExcept hxs, rowsOf_cons_of_ne hxs.symm]

/-- The groups of a stream in which no name comes back hold all rows of their names. -/
theorem groups_eq_of_contiguous
    {rows : List ρ} (h : Contiguous name rows) :
    groups name rows =
      (names name rows).map fun b => (b, rowsOf name b rows) := by
  cases rows with
  | nil => rfl
  | cons r rs =>
      rw [groups, groupsAfter_eq [r] h, names_cons, List.map_cons,
        rowsOf_cons_self]
      congr 1
      apply List.map_congr_left
      intro b hb
      obtain ⟨x, hx, rfl⟩ := mem_names.1 hb
      have hxr : name x ≠ name r := by
        simpa using (List.mem_filter.1 hx).2
      rw [rowsOf_rowsExcept hxr, rowsOf_cons_of_ne hxr.symm]

theorem flatMap_groupsAfter (b : β) (before rows : List ρ) :
    (groupsAfter name b before rows).flatMap Prod.snd = before ++ rows := by
  induction rows generalizing b before with
  | nil => simp [groupsAfter]
  | cons r rs ih =>
      by_cases hr : name r = b
      · rw [groupsAfter, if_pos hr, ih, List.append_assoc, List.singleton_append]
      · rw [groupsAfter, if_neg hr, List.flatMap_cons, ih, List.singleton_append]

/-- The groups of a stream put together are the stream. -/
theorem flatMap_groups (name : ρ → β) (rows : List ρ) :
    (groups name rows).flatMap Prod.snd = rows := by
  cases rows with
  | nil => rfl
  | cons r rs => exact flatMap_groupsAfter (name r) [r] rs

end Groups

section Order

variable {ρ κ β : Type} [SortKey κ] [SortKey β]
variable {key : ρ → κ} {name : ρ → β}

/-- Rows whose keys are in order have names in order. -/
def NamesFollow (key : ρ → κ) (name : ρ → β) : Prop :=
  ∀ a b, (compare (key a) (key b)).isLE → (compare (name a) (name b)).isLE

/-- Names that are the first parts of keys follow the keys. -/
theorem NamesFollow.of_fst
    {γ : Type} [SortKey γ] {key : ρ → β × γ} (h : ∀ r, (key r).1 = name r) :
    NamesFollow key name := by
  intro a b hle
  rw [← h a, ← h b]
  exact fst_le_of_le hle

theorem contiguous_of_inOrder
    [Std.TransOrd κ] [Std.TransOrd β] [Std.LawfulEqOrd β]
    {rows : List ρ} (hn : NamesFollow key name) (h : InOrder key rows) :
    Contiguous name rows := by
  intro a b c hs heq
  have hp : InOrder key [a, b, c] := List.Pairwise.sublist hs h
  have hab := hn a b (hp.le_of_mem (by simp))
  have hbc := hn b c (hp.tail.le_of_mem (by simp))
  rw [heq] at hab
  exact Std.LawfulEqOrd.eq_of_compare (Std.OrientedCmp.isLE_antisymm hbc hab)

/-- The groups of a stream in order hold all rows of their names. -/
theorem groups_eq
    [DecidableEq β] [Std.TransOrd κ] [Std.TransOrd β] [Std.LawfulEqOrd β]
    {rows : List ρ} (hn : NamesFollow key name) (h : InOrder key rows) :
    groups name rows =
      (names name rows).map fun b => (b, rowsOf name b rows) :=
  groups_eq_of_contiguous (contiguous_of_inOrder hn h)

/-- In a stream in order, the rows of one name follow those of the name before. -/
theorem flatMap_rowsOf
    [DecidableEq β] [Std.TransOrd κ] [Std.TransOrd β] [Std.LawfulEqOrd β]
    {rows : List ρ} (hn : NamesFollow key name) (h : InOrder key rows) :
    ((names name rows).flatMap fun b => rowsOf name b rows) = rows := by
  have together := flatMap_groups name rows
  rwa [groups_eq hn h, List.flatMap_map] at together

/-- The names of a stream in order rise, and none is repeated. -/
theorem pairwise_names
    [DecidableEq β] [Std.LawfulEqOrd β]
    {rows : List ρ} (hn : NamesFollow key name) (h : InOrder key rows) :
    (names name rows).Pairwise fun a b => compare a b = .lt := by
  match rows with
  | [] => exact List.Pairwise.nil
  | r :: rs =>
      have hlen : (rowsExcept name (name r) rs).length ≤ rs.length :=
        List.length_filter_le _ _
      have hrest : InOrder key (rowsExcept name (name r) rs) :=
        List.Pairwise.filter _ h.tail
      rw [names_cons]
      refine List.pairwise_cons.2 ⟨?_, pairwise_names hn hrest⟩
      intro b hb
      obtain ⟨x, hx, rfl⟩ := mem_names.1 hb
      obtain ⟨hm, hne⟩ := List.mem_filter.1 hx
      have hle := hn r x (h.le_of_mem hm)
      rcases Ordering.isLE_iff_eq_lt_or_eq_eq.1 hle with hlt | heq
      · exact hlt
      · have := Std.LawfulEqOrd.eq_of_compare heq
        simp [this] at hne
termination_by rows.length
decreasing_by
  simp only [List.length_cons]
  omega

/-- What is owned by some names, where each name gives only what is its own. -/
theorem filter_flatMap_owner
    {α β : Type} {owner : α → β} {f : β → List α} {bs : List β}
    (ho : ∀ b, ∀ a ∈ f b, owner a = b) (p : β → Bool) :
    (bs.flatMap f).filter (fun a => p (owner a)) = (bs.filter p).flatMap f := by
  induction bs with
  | nil => rfl
  | cons b bs ih =>
      rw [List.flatMap_cons, List.filter_append, ih]
      by_cases hb : p b
      · have hall : (f b).filter (fun a => p (owner a)) = f b :=
          List.filter_eq_self.2 fun a ha => by rw [ho b a ha]; exact hb
        rw [hall, List.filter_cons_of_pos hb, List.flatMap_cons]
      · have hnone : (f b).filter (fun a => p (owner a)) = [] :=
          List.filter_eq_nil_iff.2 fun a ha => by rw [ho b a ha]; exact hb
        rw [hnone, List.filter_cons_of_neg hb, List.nil_append]

/-- What is made of one name, where each name gives only what is its own. -/
theorem filter_flatMap_names
    {α : Type} [DecidableEq β] {bs : List β} {owner : α → β}
    {f : β → List α} (hn : bs.Pairwise fun a b => compare a b = .lt)
    [Std.ReflOrd β] (ho : ∀ b, ∀ a ∈ f b, owner a = b) (b : β) :
    (bs.flatMap f).filter (fun a => owner a = b) =
      if b ∈ bs then f b else [] := by
  have distinct : bs.Nodup := hn.imp fun hlt heq => by
    rw [heq, Std.ReflOrd.compare_self] at hlt
    cases hlt
  rw [filter_flatMap_owner ho fun c => decide (c = b), List.filter_eq]
  split
  · next hb => rw [List.count_eq_one_of_mem distinct hb]; simp
  · next hb => rw [List.count_eq_zero_of_not_mem hb]; rfl

end Order

end Stream
end Reclaim
