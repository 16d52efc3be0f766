import Reclaim.Proofs.Store.Unlink

/-!
# Trying paths again

Paths that were tried while some of them were refused may be tried again without
failures.  If no path of a stage lies below another one, whether a path is free
does not depend on what became of the other paths of the stage, so that it does
not matter what the first attempt has left.

Main results: `foldl_retry` for steps in general, `sweepStages_retry` for stages
that are tried again, and `sweepStages_eraseAll` for entries elsewhere.
-/

namespace Reclaim
namespace Store

section Fold

variable {σ α : Type} {f g : σ → α → σ} {l : List α}

theorem foldl_swap {a : α} (hcomm : ∀ b ∈ l, ∀ s, g (f s b) a = f (g s a) b) (s : σ) :
    g (l.foldl f s) a = l.foldl f (g s a) := by
  induction l generalizing s with
  | nil => rfl
  | cons b l ih =>
      obtain ⟨hb, hl⟩ := List.forall_mem_cons.1 hcomm
      rw [List.foldl_cons, ih hl, hb, List.foldl_cons]

/--
A second round of steps does all that a single round does, if each step makes up
for the first try of the same step and can be moved past first tries of later
steps.
-/
theorem foldl_retry
    (habsorb : ∀ a ∈ l, ∀ s, g (f s a) a = g s a)
    (hcomm : l.Pairwise fun a b => ∀ s, g (f s b) a = f (g s a) b) (s : σ) :
    l.foldl g (l.foldl f s) = l.foldl g s := by
  induction l generalizing s with
  | nil => rfl
  | cons a l ih =>
      obtain ⟨ha, hl⟩ := List.forall_mem_cons.1 habsorb
      obtain ⟨hmove, hrest⟩ := List.pairwise_cons.1 hcomm
      calc (a :: l).foldl g ((a :: l).foldl f s)
          = l.foldl g (g (l.foldl f (f s a)) a) := rfl
        _ = l.foldl g (l.foldl f (g (f s a) a)) := by rw [foldl_swap hmove]
        _ = l.foldl g (l.foldl f (g s a)) := by rw [ha]
        _ = l.foldl g (g s a) := ih hl hrest (g s a)

end Fold

section Attempts

variable {allow : Bool} {failures failures' : List String}
variable {entries : Entries} {path other : String} {paths erased : List String}

/-- No path lies below another one. -/
def Flat (paths : List String) : Prop :=
  ∀ p ∈ paths, ∀ q ∈ paths, p ≠ q → ¬ IsBelow p q

instance (paths : List String) : Decidable (Flat paths) :=
  inferInstanceAs (Decidable (∀ p ∈ paths, ∀ q ∈ paths, p ≠ q → ¬ IsBelow p q))

/-- No path lies below one of the other paths, nor the other way round. -/
def Apart (paths others : List String) : Prop :=
  ∀ p ∈ paths, ∀ q ∈ others, ¬ IsBelow p q ∧ ¬ IsBelow q p

instance (paths others : List String) : Decidable (Apart paths others) :=
  inferInstanceAs
    (Decidable (∀ p ∈ paths, ∀ q ∈ others, ¬ IsBelow p q ∧ ¬ IsBelow q p))

theorem Apart.symm {others : List String} (h : Apart paths others) : Apart others paths :=
  fun q hq p hp => (h p hp q hq).symm

theorem flat_of_length_le_one (h : paths.length ≤ 1) : Flat paths := by
  intro p hp q hq hne
  cases paths with
  | nil => cases hp
  | cons r rs =>
      obtain rfl : rs = [] := List.length_eq_zero_iff.1 (by simpa using h)
      exact absurd ((List.mem_singleton.1 hp).trans (List.mem_singleton.1 hq).symm) hne

theorem Free.without_failures (h : Free allow failures entries path) :
    Free allow [] entries path :=
  ⟨by simp, h.permitted, h.childless⟩

/-- An attempt has no influence on a path unless it is at a path below. -/
theorem free_attempt_iff (hbelow : other ≠ path → ¬ IsBelow other path) :
    Free allow failures (attempt allow failures' entries other) path ↔
      Free allow failures entries path := by
  by_cases hfree : Free allow failures' entries other
  · rw [attempt_of_free hfree]
    by_cases heq : other = path
    · -- If a path lies below itself, it is not free, so the attempt has failed.
      subst heq
      exact ⟨fun h => ⟨h.accepted, h.permitted, hfree.childless⟩, Free.erase⟩
    · exact free_erase_iff (hbelow heq)
  · rw [attempt_of_not_free hfree]

theorem attempt_absorb (allow : Bool) (failures : List String) (entries : Entries)
    (path : String) :
    attempt allow [] (attempt allow failures entries path) path =
      attempt allow [] entries path := by
  by_cases hfree : Free allow failures entries path
  · have hgone : path ∉ (entries.erase path).keys :=
      fun hm => (Sorted.SortedMap.mem_keys_erase.1 hm).2 rfl
    have hagain := hfree.without_failures
    rw [attempt_of_free hfree, attempt_of_free hagain,
      attempt_of_free hagain.erase, Sorted.SortedMap.erase_of_not_mem hgone]
  · rw [attempt_of_not_free hfree]

theorem attempt_comm (hother : other ≠ path → ¬ IsBelow other path)
    (hpath : path ≠ other → ¬ IsBelow path other) :
    attempt allow failures (attempt allow failures' entries other) path =
      attempt allow failures' (attempt allow failures entries path) other := by
  have h := @free_attempt_iff allow failures failures' entries path other hother
  have h' := @free_attempt_iff allow failures' failures entries other path hpath
  by_cases hp : Free allow failures entries path
  · by_cases ho : Free allow failures' entries other
    · rw [attempt_of_free (h.2 hp), attempt_of_free (h'.2 ho), attempt_of_free hp,
        attempt_of_free ho, Sorted.SortedMap.erase_comm]
    · rw [attempt_of_free (h.2 hp), attempt_of_not_free (mt h'.1 ho),
        attempt_of_free hp, attempt_of_not_free ho]
  · by_cases ho : Free allow failures' entries other
    · rw [attempt_of_not_free (mt h.1 hp), attempt_of_free (h'.2 ho),
        attempt_of_not_free hp, attempt_of_free ho]
    · rw [attempt_of_not_free (mt h.1 hp), attempt_of_not_free (mt h'.1 ho),
        attempt_of_not_free hp, attempt_of_not_free ho]

theorem sweep_retry (hflat : Flat paths) :
    sweep allow [] (sweep allow failures entries paths) paths =
      sweep allow [] entries paths := by
  refine foldl_retry (fun p _ E => attempt_absorb allow failures E p) ?_ entries
  refine List.Pairwise.imp_mem.2 (List.pairwise_of_forall fun p q hp hq E => ?_)
  exact attempt_comm (hflat q hq p hp) (hflat p hp q hq)

theorem free_sweep_iff (hbelow : ∀ q ∈ paths, q ≠ path → ¬ IsBelow q path) :
    Free allow failures (sweep allow failures' entries paths) path ↔
      Free allow failures entries path := by
  induction paths generalizing entries with
  | nil => exact Iff.rfl
  | cons q qs ih =>
      obtain ⟨hq, hqs⟩ := List.forall_mem_cons.1 hbelow
      rw [sweep_cons, ih hqs, free_attempt_iff hq]

/-- Paths that do not lie below each other are free in their turn if each is free. -/
theorem clear_iff_of_flat (hflat : Flat paths) :
    Clear allow failures entries paths ↔ ∀ p ∈ paths, Free allow failures entries p := by
  induction paths generalizing entries with
  | nil => simp [Clear]
  | cons p ps ih =>
      have hps : Flat ps := fun q hq r hr =>
        hflat q (List.mem_cons_of_mem p hq) r (List.mem_cons_of_mem p hr)
      rw [Clear, ih hps, List.forall_mem_cons]
      refine and_congr_right fun hp => forall₂_congr fun q hq => ?_
      rw [← attempt_of_free hp]
      exact free_attempt_iff (hflat p List.mem_cons_self q (List.mem_cons_of_mem p hq))

/-- Of paths that do not lie below each other, those that are free at the start are erased. -/
theorem sweep_of_flat (hflat : Flat paths) :
    sweep allow failures entries paths =
      entries.eraseAll (paths.filter (Free allow failures entries ·)) := by
  induction paths generalizing entries with
  | nil => rfl
  | cons p ps ih =>
      have hps : Flat ps := fun q hq r hr =>
        hflat q (List.mem_cons_of_mem p hq) r (List.mem_cons_of_mem p hr)
      have hsame : ps.filter (Free allow failures (attempt allow failures entries p) ·) =
          ps.filter (Free allow failures entries ·) := by
        refine List.filter_congr fun q hq => decide_eq_decide.2 ?_
        exact free_attempt_iff (hflat p List.mem_cons_self q (List.mem_cons_of_mem p hq))
      rw [sweep_cons, ih hps, hsame]
      by_cases hfree : Free allow failures entries p
      · rw [attempt_of_free hfree, List.filter_cons_of_pos (by simpa using hfree),
          Sorted.SortedMap.eraseAll_cons]
      · rw [attempt_of_not_free hfree, List.filter_cons_of_neg (by simpa using hfree)]

theorem clear_sweep_iff (hflat : Flat paths) :
    Clear allow [] (sweep allow failures entries paths) paths ↔
      Clear allow [] entries paths := by
  rw [clear_iff_of_flat hflat, clear_iff_of_flat hflat]
  exact forall₂_congr fun p hp => free_sweep_iff fun q hq => hflat q hq p hp

theorem Clear.without_failures (h : Clear allow failures entries paths) :
    Clear allow [] entries paths := by
  induction paths generalizing entries with
  | nil => trivial
  | cons p ps ih => exact ⟨h.1.without_failures, ih h.2⟩

theorem Free.eraseAll (h : Free allow failures entries path) :
    Free allow failures (entries.eraseAll erased) path where
  accepted := h.accepted
  permitted := h.permitted
  childless p hp := h.childless p (Sorted.SortedMap.mem_keys_eraseAll.1 hp).1

theorem Clear.eraseAll (h : Clear allow failures entries paths) :
    Clear allow failures (entries.eraseAll erased) paths := by
  induction paths generalizing entries with
  | nil => trivial
  | cons p ps ih =>
      refine ⟨h.1.eraseAll, ?_⟩
      rw [Sorted.SortedMap.erase_eraseAll]
      exact ih h.2

end Attempts

section Stages

variable {allow : Bool} {failures : List String} {entries : Entries}
variable {stages : List (Option (List String))}

/--
Stages that were gone through while some paths were refused come to the same end
when they are gone through again without failures as if that had been the first
time.
-/
theorem sweepStages_retry (hflat : ∀ paths, some paths ∈ stages → Flat paths) :
    sweepStages allow [] (sweepStages allow failures entries stages).entries stages =
      sweepStages allow [] entries stages := by
  induction stages generalizing entries with
  | nil => rfl
  | cons stage rest ih =>
      cases stage with
      | none => rfl
      | some ps =>
          have hps : Flat ps := hflat ps List.mem_cons_self
          have hrest : ∀ paths, some paths ∈ rest → Flat paths :=
            fun paths hm => hflat paths (List.mem_cons_of_mem _ hm)
          by_cases hclear : Clear allow failures entries ps
          · -- The stage was swept, so there is nothing left to erase at its paths.
            obtain ⟨erased, heq, -⟩ := exists_eraseAll_of_sweepStages allow failures
              (entries.eraseAll ps) rest
            have hagain : Clear allow [] ((entries.eraseAll ps).eraseAll erased) ps :=
              hclear.without_failures.eraseAll.eraseAll
            have hgone : ((entries.eraseAll ps).eraseAll erased).eraseAll ps =
                (entries.eraseAll ps).eraseAll erased := by
              rw [Sorted.SortedMap.eraseAll_of_not_mem]
              intro p hp hm
              have hm := (Sorted.SortedMap.mem_keys_eraseAll.1 hm).1
              exact (Sorted.SortedMap.mem_keys_eraseAll.1 hm).2 hp
            have hih := @ih (entries.eraseAll ps) hrest
            rw [heq] at hih
            simp only [sweepStages, if_pos hclear, if_pos hclear.without_failures,
              heq, if_pos hagain, hgone, hih]
          · -- The stage was not swept, but its paths are free again as they were before.
            have hsweep := @sweep_retry allow failures entries ps hps
            have hiff := @clear_sweep_iff allow failures entries ps hps
            by_cases hagain : Clear allow [] entries ps
            · rw [sweep_of_clear hagain, sweep_of_clear (hiff.2 hagain)] at hsweep
              simp only [sweepStages, if_neg hclear, if_pos hagain,
                if_pos (hiff.2 hagain), hsweep]
            · simp only [sweepStages, if_neg hclear, if_neg hagain,
                if_neg (mt hiff.1 hagain), hsweep]

variable {path : String} {paths erased : List String}

theorem free_eraseAll_iff (hbelow : ∀ x ∈ erased, ¬ IsBelow x path) :
    Free allow failures (entries.eraseAll erased) path ↔
      Free allow failures entries path := by
  induction erased generalizing entries with
  | nil => exact Iff.rfl
  | cons x xs ih =>
      obtain ⟨hx, hxs⟩ := List.forall_mem_cons.1 hbelow
      rw [Sorted.SortedMap.eraseAll_cons, ih hxs, free_erase_iff hx]

theorem attempt_eraseAll (hbelow : ∀ x ∈ erased, ¬ IsBelow x path) :
    attempt allow failures (entries.eraseAll erased) path =
      (attempt allow failures entries path).eraseAll erased := by
  have h := @free_eraseAll_iff allow failures entries path erased hbelow
  by_cases hfree : Free allow failures entries path
  · rw [attempt_of_free (h.2 hfree), attempt_of_free hfree,
      Sorted.SortedMap.erase_eraseAll]
  · rw [attempt_of_not_free (mt h.1 hfree), attempt_of_not_free hfree]

theorem sweep_eraseAll (hbelow : ∀ p ∈ paths, ∀ x ∈ erased, ¬ IsBelow x p) :
    sweep allow failures (entries.eraseAll erased) paths =
      (sweep allow failures entries paths).eraseAll erased := by
  induction paths generalizing entries with
  | nil => rfl
  | cons p ps ih =>
      obtain ⟨hp, hps⟩ := List.forall_mem_cons.1 hbelow
      rw [sweep_cons, attempt_eraseAll hp, ih hps, ← sweep_cons]

theorem clear_eraseAll_iff (hbelow : ∀ p ∈ paths, ∀ x ∈ erased, ¬ IsBelow x p) :
    Clear allow failures (entries.eraseAll erased) paths ↔
      Clear allow failures entries paths := by
  induction paths generalizing entries with
  | nil => exact Iff.rfl
  | cons p ps ih =>
      obtain ⟨hp, hps⟩ := List.forall_mem_cons.1 hbelow
      rw [Clear, Clear, free_eraseAll_iff hp, Sorted.SortedMap.erase_eraseAll, ih hps]

/-- What comes of stages does not depend on entries that are not below their paths. -/
theorem sweepStages_eraseAll
    (hbelow : ∀ paths, some paths ∈ stages → ∀ p ∈ paths, ∀ x ∈ erased, ¬ IsBelow x p) :
    sweepStages allow failures (entries.eraseAll erased) stages =
      { sweepStages allow failures entries stages with
        entries := (sweepStages allow failures entries stages).entries.eraseAll erased } := by
  induction stages generalizing entries with
  | nil => rfl
  | cons stage rest ih =>
      cases stage with
      | none => rfl
      | some ps =>
          have hps := hbelow ps List.mem_cons_self
          have hrest : ∀ paths, some paths ∈ rest →
              ∀ p ∈ paths, ∀ x ∈ erased, ¬ IsBelow x p :=
            fun paths hm => hbelow paths (List.mem_cons_of_mem _ hm)
          have hiff := @clear_eraseAll_iff allow failures entries ps erased hps
          by_cases hclear : Clear allow failures entries ps
          · simp only [sweepStages, if_pos hclear, if_pos (hiff.2 hclear),
              Sorted.SortedMap.eraseAll_comm entries erased ps, ih hrest]
          · simp only [sweepStages, if_neg hclear, if_neg (mt hiff.1 hclear),
              sweep_eraseAll hps]

end Stages

end Store
end Reclaim
