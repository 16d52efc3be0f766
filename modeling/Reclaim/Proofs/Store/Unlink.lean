import Reclaim.Proofs.Store.Paths

/-!
# Unlinking path after path

Whether an entry may be unlinked depends on the injected failures, on the
permission for uploads and on the entries below it, and not on whether it is
there.  A path is free if nothing speaks against it.  Unlinking a free path
erases its entry or finds nothing, and unlinking any other path changes nothing.

Paths are unlinked in stages.  All paths of a stage are tried, and the next
stage is only reached if all of them were free when their turn came.

Main results: `unlink_of_free` and `unlink_of_not_free` for one path,
`unhindered_iff` for several, and `exists_eraseAll_of_sweepStages` for what
stages can do to the entries.
-/

namespace Reclaim
namespace Store

/-- The entries of a store. -/
abbrev Entries := Sorted.SortedMap String Entry

/-- Nothing speaks against unlinking a path. -/
structure Free (allow : Bool) (failures : List String) (entries : Entries)
    (path : String) : Prop where
  accepted : ∀ start ∈ failures, Text.startsWith start path = false
  permitted : isUploadPath path = true → allow = true
  childless : ∀ other ∈ entries.keys, ¬ IsBelow other path

instance (allow : Bool) (failures : List String) (entries : Entries)
    (path : String) : Decidable (Free allow failures entries path) :=
  decidable_of_iff
    ((∀ start ∈ failures, Text.startsWith start path = false) ∧
      (isUploadPath path = true → allow = true) ∧
      ∀ other ∈ entries.keys, ¬ IsBelow other path)
    ⟨fun ⟨ha, hp, hc⟩ => ⟨ha, hp, hc⟩,
      fun h => ⟨h.accepted, h.permitted, h.childless⟩⟩

section Refusal

variable {s : Services} {path : String} {allow : Bool}

theorem refusal?_eq_none_iff :
    s.refusal? path = none ↔
      ∀ start ∈ s.failures, Text.startsWith start path = false := by
  simp [Services.refusal?]

theorem unlinkRefusal?_of_free (h : Free allow s.failures s.entries path) :
    s.unlinkRefusal? path allow =
      if s.entries.contains path then none else some (.notFound path) := by
  have hchildren : s.hasChildren path ≠ true := by
    intro hc
    obtain ⟨other, hm, hbelow⟩ := hasChildren_iff.1 hc
    exact h.childless other hm hbelow
  have hupload : ¬ (isUploadPath path = true ∧ ¬ allow = true) :=
    fun ⟨hu, ha⟩ => ha (h.permitted hu)
  rw [Services.unlinkRefusal?, refusal?_eq_none_iff.2 h.accepted]
  simp only [if_neg hupload, if_neg hchildren]

/-- A path that is not free is refused, whether there is an entry or not. -/
theorem unlinkRefusal?_of_not_free (h : ¬ Free allow s.failures s.entries path) :
    ∃ e, s.unlinkRefusal? path allow = some e ∧ ∀ name, e ≠ .notFound name := by
  rw [Services.unlinkRefusal?]
  cases hr : s.refusal? path with
  | some e =>
      refine ⟨e, rfl, ?_⟩
      rintro name rfl
      simp [Services.refusal?] at hr
  | none =>
      have haccepted := refusal?_eq_none_iff.1 hr
      by_cases hu : isUploadPath path = true ∧ ¬ allow = true
      · exact ⟨.uploadProtected path, by simp only [if_pos hu], by simp⟩
      · by_cases hc : s.hasChildren path = true
        · exact ⟨.notEmpty path, by simp only [if_neg hu, if_pos hc], by simp⟩
        · refine absurd ⟨haccepted, ?_, ?_⟩ h
          · exact fun hup => by_contra fun ha => hu ⟨hup, ha⟩
          · exact fun other hm hbelow => hc (hasChildren_iff.2 ⟨other, hm, hbelow⟩)

/-- Unlinking a free path leaves no entry there, whether there was one or not. -/
theorem unlink_of_free (h : Free allow s.failures s.entries path) :
    s.unlink path allow =
      ({ s with
          entries := s.entries.erase path
          calls := s.calls ++ [.unlink path allow] },
        if s.entries.contains path then .ok () else .error (.notFound path)) := by
  have hrefusal := unlinkRefusal?_of_free (s := s.log (.unlink path allow)) h
  have hentries : (s.log (.unlink path allow)).entries = s.entries := rfl
  rw [Services.unlink, hrefusal, hentries]
  by_cases hc : s.entries.contains path = true
  · simp only [if_pos hc]
    rfl
  · have habsent : path ∉ s.entries.keys :=
      fun hm => hc (Sorted.SortedMap.mem_keys_iff.1 hm)
    simp only [if_neg hc, Sorted.SortedMap.erase_of_not_mem habsent]
    rfl

/-- Unlinking any other path is refused, and its entry stays. -/
theorem unlink_of_not_free (h : ¬ Free allow s.failures s.entries path) :
    ∃ e, s.unlink path allow = (s.log (.unlink path allow), .error e) ∧
      ∀ name, e ≠ .notFound name := by
  obtain ⟨e, he, hne⟩ :=
    unlinkRefusal?_of_not_free (s := s.log (.unlink path allow)) h
  exact ⟨e, by rw [Services.unlink, he], hne⟩

end Refusal

section Attempts

/-- The entries after a path has been tried. -/
def attempt (allow : Bool) (failures : List String) (entries : Entries)
    (path : String) : Entries :=
  if Free allow failures entries path then entries.erase path else entries

/-- The entries after paths have been tried one after the other. -/
def sweep (allow : Bool) (failures : List String) (entries : Entries)
    (paths : List String) : Entries :=
  paths.foldl (attempt allow failures) entries

/-- Each path is free when its turn comes. -/
def Clear (allow : Bool) (failures : List String) :
    Entries → List String → Prop
  | _, [] => True
  | entries, path :: paths =>
      Free allow failures entries path ∧
        Clear allow failures (entries.erase path) paths

instance decidableClear (allow : Bool) (failures : List String) :
    (entries : Entries) → (paths : List String) →
      Decidable (Clear allow failures entries paths)
  | _, [] => .isTrue trivial
  | entries, path :: paths =>
      have := decidableClear allow failures (entries.erase path) paths
      inferInstanceAs (Decidable (_ ∧ _))

variable {allow : Bool} {failures failures' : List String}
variable {entries : Entries} {path other : String} {paths rest : List String}

theorem attempt_of_free (h : Free allow failures entries path) :
    attempt allow failures entries path = entries.erase path :=
  if_pos h

theorem attempt_of_not_free (h : ¬ Free allow failures entries path) :
    attempt allow failures entries path = entries :=
  if_neg h

theorem Free.erase (h : Free allow failures entries path) :
    Free allow failures (entries.erase other) path where
  accepted := h.accepted
  permitted := h.permitted
  childless p hp := h.childless p (Sorted.SortedMap.mem_keys_erase.1 hp).1

/-- Entries that are not below a path have no influence on it. -/
theorem free_erase_iff (hbelow : ¬ IsBelow other path) :
    Free allow failures (entries.erase other) path ↔
      Free allow failures entries path := by
  refine ⟨fun h => ⟨h.accepted, h.permitted, fun p hp hb => ?_⟩, Free.erase⟩
  have hne : p ≠ other := by
    rintro rfl
    exact hbelow hb
  exact h.childless p (Sorted.SortedMap.mem_keys_erase.2 ⟨hp, hne⟩) hb

theorem sweep_cons :
    sweep allow failures entries (path :: paths) =
      sweep allow failures (attempt allow failures entries path) paths := rfl

theorem sweep_of_clear (h : Clear allow failures entries paths) :
    sweep allow failures entries paths = entries.eraseAll paths := by
  induction paths generalizing entries with
  | nil => rfl
  | cons p ps ih => rw [sweep_cons, attempt_of_free h.1, ih h.2]; rfl

theorem clear_append :
    Clear allow failures entries (paths ++ rest) ↔
      Clear allow failures entries paths ∧
        Clear allow failures (entries.eraseAll paths) rest := by
  induction paths generalizing entries with
  | nil => simp [Clear, Sorted.SortedMap.eraseAll]
  | cons p ps ih =>
      rw [List.cons_append, Clear, Clear, ih, and_assoc]
      rfl

theorem exists_eraseAll_of_sweep :
    ∃ erased, sweep allow failures entries paths = entries.eraseAll erased ∧
      ∀ p ∈ erased, p ∈ paths ∧ (isUploadPath p = true → allow = true) := by
  induction paths generalizing entries with
  | nil => exact ⟨[], rfl, by simp⟩
  | cons p ps ih =>
      obtain ⟨erased, heq, herased⟩ :=
        @ih (attempt allow failures entries p)
      -- The later paths are erased in either case, the first one only if it was free.
      have hkeep : ∀ q ∈ erased, q ∈ p :: ps ∧ (isUploadPath q = true → allow = true) :=
        fun q hq => ⟨List.mem_cons_of_mem p (herased q hq).1, (herased q hq).2⟩
      by_cases hfree : Free allow failures entries p
      · refine ⟨p :: erased, ?_, ?_⟩
        · rw [sweep_cons, heq, attempt_of_free hfree]
          rfl
        · exact List.forall_mem_cons.2 ⟨⟨List.mem_cons_self, hfree.permitted⟩, hkeep⟩
      · exact ⟨erased, by rw [sweep_cons, heq, attempt_of_not_free hfree], hkeep⟩

/-- The services after paths were unlinked one after the other. -/
def unlinkAll (allow : Bool) (s : Services) (paths : List String) : Services :=
  paths.foldl (fun s path => (s.unlink path allow).1) s

theorem unlink_fst (s : Services) :
    (s.unlink path allow).1 =
      { s with
        entries := attempt allow s.failures s.entries path
        calls := s.calls ++ [.unlink path allow] } := by
  by_cases hfree : Free allow s.failures s.entries path
  · rw [unlink_of_free hfree, attempt_of_free hfree]
  · obtain ⟨e, he, -⟩ := unlink_of_not_free hfree
    rw [he, attempt_of_not_free hfree]
    rfl

theorem unlinkAll_eq (s : Services) :
    unlinkAll allow s paths =
      { s with
        entries := sweep allow s.failures s.entries paths
        calls := s.calls ++ paths.map (.unlink · allow) } := by
  induction paths generalizing s with
  | nil => simp [unlinkAll, sweep]
  | cons p ps ih =>
      have hcons : unlinkAll allow s (p :: ps) =
          unlinkAll allow (s.unlink p allow).1 ps := rfl
      rw [hcons, ih, unlink_fst, sweep_cons]
      simp

/-- Unlinking paths one after the other, each is unlinked or nothing is found. -/
def Unhindered (allow : Bool) : Services → List String → Prop
  | _, [] => True
  | s, path :: paths =>
      ((s.unlink path allow).2 = .ok () ∨
          ∃ name, (s.unlink path allow).2 = .error (.notFound name)) ∧
        Unhindered allow (s.unlink path allow).1 paths

theorem unhindered_iff {s : Services} :
    Unhindered allow s paths ↔ Clear allow s.failures s.entries paths := by
  induction paths generalizing s with
  | nil => exact Iff.rfl
  | cons p ps ih =>
      rw [Unhindered, Clear, ih]
      by_cases hfree : Free allow s.failures s.entries p
      · rw [unlink_of_free hfree]
        by_cases hc : s.entries.contains p = true <;> simp [hc, hfree]
      · obtain ⟨e, he, hne⟩ := unlink_of_not_free hfree
        simp [he, hne, hfree]

end Attempts

section Stages

/-- What comes of stages. -/
structure Sweeping where
  entries : Entries
  /-- The paths that were tried. -/
  tried : List String
  /-- All stages were reached, and all of their paths were free. -/
  cleared : Bool

/-- Goes through stages up to the first one that has no paths or a path that is not free. -/
def sweepStages (allow : Bool) (failures : List String) (entries : Entries) :
    List (Option (List String)) → Sweeping
  | [] => ⟨entries, [], true⟩
  | none :: _ => ⟨entries, [], false⟩
  | some paths :: stages =>
      if Clear allow failures entries paths then
        let s := sweepStages allow failures (entries.eraseAll paths) stages
        { s with tried := paths ++ s.tried }
      else
        ⟨sweep allow failures entries paths, paths, false⟩

variable {allow : Bool} {failures : List String}
variable {entries : Entries} {stages : List (Option (List String))}

/-- Stages whose paths are all free in their turn are swept to the end. -/
theorem sweepStages_of_clear {stages : List (List String)}
    (h : Clear allow failures entries stages.flatten) :
    sweepStages allow failures entries (stages.map some) =
      ⟨entries.eraseAll stages.flatten, stages.flatten, true⟩ := by
  induction stages generalizing entries with
  | nil => rfl
  | cons ps rest ih =>
      obtain ⟨hps, hrest⟩ := clear_append.1 h
      rw [List.map_cons, sweepStages, if_pos hps, ih hrest,
        List.flatten_cons, Sorted.SortedMap.eraseAll_append]

theorem exists_of_cleared
    (h : (sweepStages allow failures entries stages).cleared = true) :
    ∃ paths : List (List String), stages = paths.map some ∧
      Clear allow failures entries paths.flatten := by
  induction stages generalizing entries with
  | nil => exact ⟨[], rfl, trivial⟩
  | cons stage rest ih =>
      cases stage with
      | none => cases h
      | some ps =>
          rw [sweepStages] at h
          split at h
          · next hps =>
              obtain ⟨paths, rfl, hrest⟩ := ih h
              exact ⟨ps :: paths, rfl, clear_append.2 ⟨hps, hrest⟩⟩
          · cases h

theorem exists_stage_of_mem_tried {path : String}
    (h : path ∈ (sweepStages allow failures entries stages).tried) :
    ∃ paths, some paths ∈ stages ∧ path ∈ paths := by
  induction stages generalizing entries with
  | nil => cases h
  | cons stage rest ih =>
      cases stage with
      | none => cases h
      | some ps =>
          rw [sweepStages] at h
          split at h
          · rcases List.mem_append.1 h with h | h
            · exact ⟨ps, List.mem_cons_self, h⟩
            · obtain ⟨paths, hpaths, hpath⟩ := ih h
              exact ⟨paths, List.mem_cons_of_mem _ hpaths, hpath⟩
          · exact ⟨ps, List.mem_cons_self, h⟩

/-- What is erased are paths of the stages, and those of uploads only with permission. -/
theorem exists_eraseAll_of_sweepStages (allow : Bool) (failures : List String)
    (entries : Entries) (stages : List (Option (List String))) :
    ∃ erased,
      (sweepStages allow failures entries stages).entries =
          entries.eraseAll erased ∧
        ∀ p ∈ erased, (∃ paths, some paths ∈ stages ∧ p ∈ paths) ∧
          (isUploadPath p = true → allow = true) := by
  induction stages generalizing entries with
  | nil => exact ⟨[], rfl, by simp⟩
  | cons stage rest ih =>
      cases stage with
      | none => exact ⟨[], rfl, by simp⟩
      | some ps =>
          obtain ⟨first, hfirst, hmem⟩ :=
            @exists_eraseAll_of_sweep allow failures entries ps
          have hps : ∀ p ∈ first, (∃ paths, some paths ∈ some ps :: rest ∧ p ∈ paths) ∧
              (isUploadPath p = true → allow = true) :=
            fun p hp => ⟨⟨ps, List.mem_cons_self, (hmem p hp).1⟩, (hmem p hp).2⟩
          by_cases hclear : Clear allow failures entries ps
          · obtain ⟨erased, heq, herased⟩ := ih (entries.eraseAll ps)
            refine ⟨first ++ erased, ?_, ?_⟩
            · rw [sweepStages, if_pos hclear, Sorted.SortedMap.eraseAll_append,
                ← hfirst, sweep_of_clear hclear]
              exact heq
            · intro p hp
              rcases List.mem_append.1 hp with hp | hp
              · exact hps p hp
              · obtain ⟨⟨paths, hm, hpp⟩, hup⟩ := herased p hp
                exact ⟨⟨paths, List.mem_cons_of_mem _ hm, hpp⟩, hup⟩
          · refine ⟨first, ?_, hps⟩
            rw [sweepStages, if_neg hclear]
            exact hfirst

end Stages

end Store
end Reclaim
