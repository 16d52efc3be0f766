import Reclaim.Proofs.Upload.Calls

/-!
# Batches that are not owned

A batch whose records are not all owned by its owner is dropped, and its
finalizing record stays.  Ownership is checked stage by stage: no part is
unlinked unless all parts are owned, but whether the directory is owned is only
looked at behind the parts.

Main results: `not_cleared_of_not_owned` for the drop, `sweeping_of_foreign_part`
and `sweeping_of_foreign_directory` for the stages, and `dropped_of_not_owned`
for all that is done about such a batch.
-/

namespace Reclaim
namespace Upload

section Ownership

variable {s : Store.Services} {v : Verified} {f : Finalizing} {owner : Uuid}
variable {login : String} {records : List LiveRecord} {paths : List String}

/-- The batch names an account under which these records lie. -/
def Verified.Owns (v : Verified) (s : Store.Services) (records : List LiveRecord) : Prop :=
  ∃ f owner login, v.HasAccount s f owner login ∧
    ∀ r ∈ records, (accountPath? r.key owner login).isSome

theorem Verified.HasAccount.unique {g : Finalizing} {owner' : Uuid} {login' : String}
    (h : v.HasAccount s f owner login) (h' : v.HasAccount s g owner' login') :
    f = g ∧ owner = owner' ∧ login = login' := by
  obtain rfl := Option.some.inj (h.finalizing_eq.symm.trans h'.finalizing_eq)
  obtain rfl := Option.some.inj (h.owner_eq.symm.trans h'.owner_eq)
  exact ⟨rfl, rfl, Option.some.inj (h.login_eq.symm.trans h'.login_eq)⟩

theorem owns_of_ownPaths? {upload : Uuid} (h : v.HasAccount s f owner login)
    (hpaths : ownPaths? upload owner login records = some paths) : v.Owns s records :=
  ⟨f, owner, login, h, isSome_of_map_eq (ownPaths?_eq_some_iff.1 hpaths)⟩

end Ownership

section Stages

variable {o : RemovalOptions} {s : Store.Services} {n : Report} {v : Verified}
variable {f : Finalizing} {owner : Uuid} {login : String}

/-- A batch that is not owned does not get through its stages. -/
theorem not_cleared_of_not_owned (h : ¬ v.IsOwned s) :
    (sweeping o s v).cleared = false := by
  rw [← Bool.not_eq_true]
  intro hcleared
  obtain ⟨f, owner, login, parts, directory, haccount, hparts, hdirectory, -, -⟩ :=
    exists_of_cleared_sweeping hcleared
  refine h ⟨f, owner, login, haccount, ?_⟩
  exact List.forall_mem_append.2 ⟨isSome_of_map_eq hparts, isSome_of_map_eq hdirectory⟩

theorem clean_snd_of_not_cleared (h : (sweeping o s v).cleared = false) :
    (clean o s n v).2 = { n with dropped := n.dropped + 1 } := by
  obtain ⟨answer, hremove, hok⟩ := removeLive_eq o s v
  rw [h] at hok
  cases answer with
  | ok removed => cases hok
  | error fault => rw [clean, hremove]

theorem slotsErased_of_not_cleared (h : (sweeping o s v).cleared = false) :
    slotsErased o s v = [] ∧
      callsMade o s v =
        lookups v ++ (sweeping o s v).tried.map (.unlink · o.allowUploads) := by
  simp [slotsErased, callsMade, deletion?, h]

/-- If not all parts are owned, or the owner is not known, nothing is tried. -/
theorem sweeping_of_foreign_part (h : ¬ v.Owns s v.parts) :
    sweeping o s v = ⟨s.entries, [], false⟩ := by
  unfold sweeping stages
  cases hresolved : resolved? s v with
  | none => rfl
  | some account =>
      obtain ⟨owner, login⟩ := account
      obtain ⟨f, haccount⟩ := exists_hasAccount_of_resolved? hresolved
      cases hpaths : ownPaths? v.upload owner login v.parts with
      | some paths => exact absurd (owns_of_ownPaths? haccount hpaths) h
      | none => simp only [ownStages, hpaths, Store.sweepStages]

theorem sweeping_of_refused (haccount : v.HasAccount s f owner login)
    (hrefusal : s.refusal? owner.text ≠ none) :
    sweeping o s v = ⟨s.entries, [], false⟩ := by
  obtain ⟨e, he⟩ := Option.ne_none_iff_exists'.1 hrefusal
  have hresolved : resolved? s v = none := by
    simp [resolved?, haccount.ownerOf_eq, he]
  simp only [sweeping, stages, hresolved, Store.sweepStages]

/-- If the parts are owned and the directory is not, the parts are tried. -/
theorem sweeping_of_foreign_directory (haccount : v.HasAccount s f owner login)
    (hparts : v.Owns s v.parts) (hforeign : ¬ v.IsOwned s)
    (hrefusal : s.refusal? owner.text = none) :
    sweeping o s v =
      ⟨Store.sweep o.allowUploads s.failures s.entries (v.partPaths s),
        v.partPaths s, false⟩ := by
  obtain ⟨g, owner', login', haccount', howned⟩ := hparts
  obtain ⟨rfl, rfl, rfl⟩ := haccount.unique haccount'
  have hresolved : resolved? s v = some (owner, login) := by
    simp [resolved?, haccount.ownerOf_eq, hrefusal, haccount.login_eq]
  have hpaths : ownPaths? v.upload owner login v.parts = some (v.partPaths s) :=
    ownPaths?_eq_some_iff.2 (haccount.map_pathsOf_eq howned)
  have hdirectory : ownPaths? v.upload owner login v.directory.toList = none := by
    rw [ownPaths?_eq_ite, if_neg]
    exact fun h =>
      hforeign ⟨f, owner, login, haccount, List.forall_mem_append.2 ⟨howned, h⟩⟩
  simp only [sweeping, stages, hresolved, ownStages, hpaths, hdirectory,
    Store.sweepStages, List.append_nil]
  split
  · next hclear => rw [Store.sweep_of_clear hclear]
  · rfl

end Stages

section Dropped

variable {s : Store.Services} {v : Verified} {f : Finalizing} {owner : Uuid}
variable {login : String}

theorem exists_lookup_of_mem_lookups {c : Store.Call} (h : c ∈ lookups v) :
    ∃ owner, c = .resolve owner := by
  unfold lookups at h
  split at h
  · cases h
  · next owner _ => exact ⟨owner, List.mem_singleton.1 h⟩

/--
A batch that does not name an owner with an account, or has a live record that
the owner does not own, is dropped.  No record is deleted.  If the account is not
known or a part is not owned, nothing is unlinked.  If it is only the directory
that is not owned, the parts are unlinked in their order, unless the lookup of
the account is refused, and nothing else is.
-/
theorem dropped_of_not_owned (o : RemovalOptions) (n : Report)
    (hforeign : ¬ v.IsOwned s) :
    (clean o s n v).2 = { n with dropped := n.dropped + 1 } ∧
      (clean o s n v).1.records = s.records ∧
      ∃ made, (clean o s n v).1.calls = s.calls ++ made ∧
        (∀ slot, .deleteRecord slot ∉ made) ∧
        (¬ v.Owns s v.parts →
          (clean o s n v).1.entries = s.entries ∧
            ∀ path allow, .unlink path allow ∉ made) ∧
        (v.Owns s v.parts → ∀ f owner login, v.HasAccount s f owner login →
          let paths := if s.refusal? owner.text = none then v.partPaths s else []
          (clean o s n v).1.entries =
              (Store.unlinkAll o.allowUploads s paths).entries ∧
            made = .resolve owner :: paths.map (.unlink · o.allowUploads)) := by
  -- The stages are not cleared, so no deletion is reached; what was tried is told by them.
  have hcleared : (sweeping o s v).cleared = false := not_cleared_of_not_owned hforeign
  obtain ⟨hslots, hmade⟩ := slotsErased_of_not_cleared hcleared
  have hclean := clean_eq o s n v
  refine ⟨clean_snd_of_not_cleared hcleared, ?_, callsMade o s v, ?_, ?_, ?_, ?_⟩
  · rw [hclean, hslots]
    rfl
  · rw [hclean]
  · intro slot hdelete
    rw [hmade, List.mem_append] at hdelete
    rcases hdelete with h | h
    · obtain ⟨owner, heq⟩ := exists_lookup_of_mem_lookups h
      cases heq
    · simp at h
  · intro hparts
    have hsweep := sweeping_of_foreign_part (o := o) hparts
    refine ⟨by rw [hclean, hsweep], fun path allow hunlink => ?_⟩
    rw [hmade, hsweep] at hunlink
    obtain ⟨owner, heq⟩ := exists_lookup_of_mem_lookups (by simpa using hunlink)
    cases heq
  · intro hparts f owner login haccount paths
    have hlookup : lookups v = [.resolve owner] := by
      rw [lookups, haccount.ownerOf_eq]
    have hsweep : sweeping o s v =
        ⟨Store.sweep o.allowUploads s.failures s.entries paths, paths, false⟩ := by
      by_cases hrefusal : s.refusal? owner.text = none
      · rw [show paths = v.partPaths s from if_pos hrefusal]
        exact sweeping_of_foreign_directory haccount hparts hforeign hrefusal
      · rw [show paths = [] from if_neg hrefusal]
        exact sweeping_of_refused haccount hrefusal
    rw [hclean, hmade, hsweep, hlookup, Store.unlinkAll_eq]
    exact ⟨rfl, rfl⟩

/-- The sample with a directory that another account owns. -/
def foreignBatch : Verified :=
  { sampleBatch with
    directory :=
      some ⟨sampleOwner, "/22222222-2222-2222-2222-222222222222/d", .wholeSecond 1,
        .directory⟩ }

theorem hasAccount_foreignBatch :
    foreignBatch.HasAccount sampleServices
      ⟨sampleOwner, "u:" ++ sampleKey "o", "s1", .wholeSecond 1, .commit⟩
      sampleOwner "jo" :=
  { hasAccount_sampleBatch with finalizing_eq := rfl }

theorem not_isOwned_foreignBatch : ¬ foreignBatch.IsOwned sampleServices := by
  rintro ⟨f, owner, login, haccount, howned⟩
  obtain ⟨rfl, rfl, rfl⟩ := hasAccount_foreignBatch.unique haccount
  revert howned
  decide +kernel

/-- In the sample, the parts are unlinked although the batch is dropped. -/
theorem dropped_of_foreign_directory :
    ¬ foreignBatch.IsOwned sampleServices ∧
      foreignBatch.Owns sampleServices foreignBatch.parts ∧
      (clean ⟨1, true⟩ sampleServices {} foreignBatch).2 = { dropped := 1 } ∧
      (clean ⟨1, true⟩ sampleServices {} foreignBatch).1.entries.keys = ["/jo/d"] := by
  have hparts : foreignBatch.Owns sampleServices foreignBatch.parts :=
    ⟨_, _, _, hasAccount_foreignBatch, by decide +kernel⟩
  obtain ⟨hreport, -, made, -, -, -, hdirectory⟩ :=
    dropped_of_not_owned ⟨1, true⟩ {} not_isOwned_foreignBatch
  obtain ⟨hentries, -⟩ := hdirectory hparts _ _ _ hasAccount_foreignBatch
  refine ⟨not_isOwned_foreignBatch, hparts, hreport, ?_⟩
  rw [hentries]
  decide +kernel

/-- It is not so that a batch that is not owned is left alone: its parts may be unlinked. -/
theorem not_forall_untouched_of_not_owned :
    ¬ ∀ (o : RemovalOptions) (s : Store.Services) (n : Report) (v : Verified),
      v.finalizing.isSome → ¬ v.IsOwned s →
        (clean o s n v).2 = { n with dropped := n.dropped + 1 } ∧
          (clean o s n v).1.entries = s.entries ∧
          (clean o s n v).1.records = s.records ∧
          ∃ made, (clean o s n v).1.calls = s.calls ++ made ∧
            (∀ path allow, .unlink path allow ∉ made) ∧
            ∀ slot, .deleteRecord slot ∉ made := by
  intro h
  obtain ⟨-, hentries, -⟩ := h ⟨1, true⟩ sampleServices {} foreignBatch rfl
    not_isOwned_foreignBatch
  have hkeys := congrArg Sorted.SortedMap.keys hentries
  revert hkeys
  decide +kernel

end Dropped
end Upload
end Reclaim
