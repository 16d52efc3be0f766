import Mathlib.Data.List.Forall2
import Reclaim.Proofs.Upload.Pass

/-!
# The calls of a pass

What is to be cleaned up can be listed without doing anything about it.  A pass
that meets no obstacle carries out this list: it looks up the account of each
batch and makes one call for each record of the list, in the order of the list.

Main results: `carriesOut_callsMade` for one batch, and `calls_carry_out_cleanups`
for a pass.
-/

namespace Reclaim
namespace Upload

/-- The call that cleans up a record under the login of the owner's account. -/
def callOf? (allow : Bool) (owner : Uuid) (login : String) :
    Record → Option Store.Call
  | .live r => (accountPath? r.key owner login).map (.unlink · allow)
  | .finalizing f => some (.deleteRecord ⟨f.shard, finalizingBucket, f.key⟩)

/-- The calls look up the account of a batch and clean up its records in their order. -/
def CarriesOut (allow : Bool) (s : Store.Services) (v : Verified)
    (made : List Store.Call) : Prop :=
  ∃ f owner login images, v.HasAccount s f owner login ∧
    v.cleanups.map (callOf? allow owner login) = images.map some ∧
    made = .resolve owner :: images

section Batch

variable {o : RemovalOptions} {s : Store.Services} {v : Verified}
variable {f : Finalizing} {owner : Uuid} {login : String}

theorem refusal?_of_failures (h : s.failures = []) (target : String) :
    s.refusal? target = none :=
  Store.refusal?_eq_none_iff.2 (by simp [h])

theorem stages_of_owned (hfailures : s.failures = [])
    (haccount : v.HasAccount s f owner login)
    (howned : ∀ r ∈ v.live, (accountPath? r.key owner login).isSome) :
    stages s v = [v.partPaths s, v.pathsOf s v.directory.toList].map some := by
  have hresolved : resolved? s v = some (owner, login) := by
    simp [resolved?, haccount.ownerOf_eq, refusal?_of_failures hfailures,
      haccount.login_eq]
  have hparts : ∀ r ∈ v.parts, (accountPath? r.key owner login).isSome :=
    fun r hr => howned r (List.mem_append_left _ hr)
  have hdirectory : ∀ r ∈ v.directory.toList, (accountPath? r.key owner login).isSome :=
    fun r hr => howned r (List.mem_append_right _ hr)
  simp only [stages, hresolved, ownStages,
    ownPaths?_eq_some_iff.2 (haccount.map_pathsOf_eq hparts),
    ownPaths?_eq_some_iff.2 (haccount.map_pathsOf_eq hdirectory)]
  rfl

theorem sweeping_of_owned (hfailures : s.failures = [])
    (haccount : v.HasAccount s f owner login)
    (howned : ∀ r ∈ v.live, (accountPath? r.key owner login).isSome)
    (hclear : Store.Clear o.allowUploads s.failures s.entries (v.livePaths s)) :
    sweeping o s v = ⟨s.entries.eraseAll (v.livePaths s), v.livePaths s, true⟩ := by
  have hflat : [v.partPaths s, v.pathsOf s v.directory.toList].flatten =
      v.livePaths s := by
    simp [v.livePaths_eq]
  rw [← hflat] at hclear ⊢
  rw [sweeping, stages_of_owned hfailures haccount howned,
    Store.sweepStages_of_clear hclear]

/-- A batch whose paths are all free in their turn is cleaned up record by record. -/
theorem carriesOut_callsMade (hfailures : s.failures = [])
    (haccount : v.HasAccount s f owner login)
    (howned : ∀ r ∈ v.live, (accountPath? r.key owner login).isSome)
    (hclear : Store.Clear o.allowUploads s.failures s.entries (v.livePaths s)) :
    CarriesOut o.allowUploads s v (callsMade o s v) := by
  have hsweep := sweeping_of_owned hfailures haccount howned hclear
  have hdeletion : deletion? o s v = some (slotOf f) :=
    deletion?_eq_some_iff.2 ⟨by rw [hsweep], f, haccount.finalizing_eq,
      refusal?_of_failures hfailures _, rfl⟩
  refine ⟨f, owner, login,
    (v.livePaths s).map (.unlink · o.allowUploads) ++ [.deleteRecord (slotOf f)],
    haccount, ?_, ?_⟩
  · have hlive := congrArg (List.map (Option.map (Store.Call.unlink · o.allowUploads)))
      (haccount.map_pathsOf_eq howned)
    rw [List.map_map, List.map_map] at hlive
    rw [Verified.cleanups_eq haccount.finalizing_eq, List.map_append, List.map_append,
      List.map_map, List.map_map]
    exact congrArg₂ (· ++ ·) hlive rfl
  · rw [callsMade, lookups, haccount.ownerOf_eq, hdeletion, hsweep]
    rfl

end Batch

section Pass

variable {o : RemovalOptions} {s : Store.Services}
variable {records : List Record}

/-- The batch names an account under which all its live records lie. -/
def Verified.IsOwned (v : Verified) (s : Store.Services) : Prop :=
  ∃ f owner login, v.HasAccount s f owner login ∧
    ∀ r ∈ v.live, (accountPath? r.key owner login).isSome

theorem isOwned_congr {t : Store.Services} {v : Verified}
    (h : t.accounts = s.accounts) : v.IsOwned t ↔ v.IsOwned s := by
  simp only [Verified.IsOwned, hasAccount_congr h]

theorem carriesOut_congr {t : Store.Services} {allow : Bool} {v : Verified}
    {made : List Store.Call} (h : t.accounts = s.accounts) :
    CarriesOut allow t v made ↔ CarriesOut allow s v made := by
  simp only [CarriesOut, hasAccount_congr h]

theorem exists_rounds_of_cleanAll (n : Report) {vs : List Verified}
    (hfailures : s.failures = []) (howned : ∀ v ∈ vs, v.IsOwned s)
    (hclear : Store.Clear o.allowUploads s.failures s.entries
      (vs.flatMap (·.livePaths s))) :
    ∃ rounds, (cleanAll o s n vs).1.calls = s.calls ++ rounds.flatten ∧
      List.Forall₂ (CarriesOut o.allowUploads s) vs rounds := by
  induction vs generalizing s n with
  | nil => exact ⟨[], by simp [cleanAll_nil], .nil⟩
  | cons v vs ih =>
      obtain ⟨⟨f, owner, login, haccount, hlive⟩, hrest⟩ := List.forall_mem_cons.1 howned
      rw [List.flatMap_cons, Store.clear_append] at hclear
      have hclean := clean_eq o s n v
      rw [sweeping_of_owned hfailures haccount hlive hclear.1] at hclean
      -- The accounts stay, so the batches to come have the paths that they had before.
      have haccounts := clean_accounts o s n v
      have hpaths : ∀ w : Verified, w.livePaths (clean o s n v).1 = w.livePaths s :=
        fun w => pathsOf_congr haccounts w w.live
      obtain ⟨rounds, hcalls, hrounds⟩ :=
        @ih (clean o s n v).1 (clean o s n v).2 ((clean_failures o s n v).trans hfailures)
          (fun w hw => (isOwned_congr haccounts).2 (hrest w hw))
          (by simp only [hpaths]; rw [hclean]; exact hclear.2)
      refine ⟨callsMade o s v :: rounds, ?_, .cons ?_ ?_⟩
      · rw [cleanAll_cons, hcalls, hclean]
        simp
      · exact carriesOut_callsMade hfailures haccount hlive hclear.1
      · exact hrounds.imp fun _ _ h => (carriesOut_congr haccounts).1 h

/--
In a stream in order, let every batch that is handed out be owned, and let every
unlink of its paths succeed or find nothing.  Then a pass is not refused.  For
each batch it looks up the account and makes the calls of the batch's part of
the list of cleanups, one call for each record in the order of the list, and it
makes no other calls.
-/
theorem calls_carry_out_cleanups
    (o : RemovalOptions) (policy : GracePolicy)
    (horder : Stream.InOrder Record.sortKey records)
    (hfailures : s.failures = [])
    (howned : ∀ v ∈ handed policy records, v.IsOwned s)
    (hunlink : Store.Unhindered o.allowUploads s
      ((handed policy records).flatMap (·.livePaths s))) :
    ∃ report rounds,
      (cleanUp o policy s records).2 = .ok report ∧
        (cleanUp o policy s records).1.calls = s.calls ++ rounds.flatten ∧
        ((collector policy).run .start records).2 =
          .ok ((handed policy records).flatMap Verified.cleanups) ∧
        List.Forall₂ (CarriesOut o.allowUploads s) (handed policy records) rounds := by
  -- No record of a stream in order is refused, so all batches are handed out.
  have hrun := (batches_groupwise policy).run_eq_names uploads_follow_keys horder
  have hhanded : handed policy records = _ := Stream.Engine.outputs_of_run hrun
  rw [← hhanded] at hrun
  obtain ⟨rounds, hcalls, hrounds⟩ := exists_rounds_of_cleanAll {} hfailures howned
    (Store.unhindered_iff.1 hunlink)
  refine ⟨(cleanAll o s {} (handed policy records)).2, rounds, ?_, ?_, ?_, hrounds⟩
  · rw [cleanUp_snd, hrun]
    rfl
  · rw [cleanUp_fst, hcalls]
  · rw [collector, Stream.Engine.run_thenEach, hrun]
    rfl

/-- In the sample, one of the parts is not found, and all calls are made. -/
theorem calls_carry_out_sample :
    Stream.InOrder Record.sortKey sampleStream ∧
      Store.Unhindered true sampleServices (sampleBatch.livePaths sampleServices) ∧
      ∃ made, (cleanUp ⟨1, true⟩ samplePolicy sampleServices sampleStream).1.calls =
          sampleServices.calls ++ made ∧
        CarriesOut true sampleServices sampleBatch made := by
  have horder : Stream.InOrder Record.sortKey sampleStream := by decide +kernel
  have howned : sampleBatch.IsOwned sampleServices :=
    ⟨_, _, _, hasAccount_sampleBatch, by decide +kernel⟩
  have hunlink : Store.Unhindered true sampleServices
      (sampleBatch.livePaths sampleServices) :=
    Store.unhindered_iff.2 (by decide +kernel)
  obtain ⟨_, rounds, _, hcalls, _, hrounds⟩ :=
    calls_carry_out_cleanups ⟨1, true⟩ samplePolicy horder rfl
      (by simpa [handed_sampleStream] using howned)
      (by simpa [handed_sampleStream] using hunlink)
  rw [handed_sampleStream] at hrounds
  cases hrounds with
  | cons hmade hnil =>
      cases hnil
      exact ⟨horder, hunlink, _, by simpa using hcalls, hmade⟩

end Pass

end Upload
end Reclaim
