import Reclaim.Proofs.Upload.Batches
import Reclaim.Proofs.Upload.Cleanup

/-!
# Passes over streams of upload records

A pass cleans up the batches that are handed out, one after the other, up to the
first record that is refused.  Accounts and injected failures stay as they are,
so the paths of a batch are the same at any time of the pass.  What is handed out
are finished uploads, and their records come from the stream.

Main results: `cleanUp_fst` and `cleanUp_snd` tell a pass from what is handed
out, and `exists_batch_of_mem_outputs` says what that is.
-/

namespace Reclaim
namespace Upload

section Pass

variable {o : RemovalOptions} {policy : GracePolicy} {s : Store.Services}

/-- The batches that are handed out up to the first record that is refused. -/
def handed (policy : GracePolicy) (records : List Record) : List Verified :=
  (batches policy).outputs .start records

theorem cleanAll_nil (o : RemovalOptions) (s : Store.Services) (n : Report) :
    cleanAll o s n [] = (s, n) := rfl

theorem cleanAll_cons (o : RemovalOptions) (s : Store.Services) (n : Report)
    (v : Verified) (vs : List Verified) :
    cleanAll o s n (v :: vs) =
      cleanAll o (clean o s n v).1 (clean o s n v).2 vs := rfl

theorem cleanAll_append (o : RemovalOptions) (s : Store.Services) (n : Report)
    (vs ws : List Verified) :
    cleanAll o s n (vs ++ ws) =
      cleanAll o (cleanAll o s n vs).1 (cleanAll o s n vs).2 ws :=
  List.foldl_append

theorem cleanAll_accounts_failures (o : RemovalOptions) (s : Store.Services)
    (n : Report) (vs : List Verified) :
    (cleanAll o s n vs).1.accounts = s.accounts ∧
      (cleanAll o s n vs).1.failures = s.failures := by
  induction vs generalizing s n with
  | nil => exact ⟨rfl, rfl⟩
  | cons v vs ih =>
      obtain ⟨haccounts, hfailures⟩ := ih (clean o s n v).1 (clean o s n v).2
      rw [cleanAll_cons, haccounts, hfailures]
      exact ⟨clean_accounts o s n v, clean_failures o s n v⟩

/-- A pass over records leaves what the cleanups of the batches handed out leave. -/
theorem cleanStream_fst (o : RemovalOptions) (policy : GracePolicy)
    (s : Store.Services) (n : Report) (c : Collector) (records : List Record) :
    (cleanStream o policy s n c records).1 =
      (cleanAll o s n ((batches policy).outputs c records)).1 := by
  induction records generalizing s n c with
  | nil => rfl
  | cons r rs ih =>
      have hoffer : (batches policy).offer c r =
          ((c.offer policy r).1, (c.offer policy r).2.map Option.toList) := rfl
      unfold cleanStream Stream.Engine.outputs
      rw [hoffer]
      cases c.offer policy r with
      | mk c' answer =>
          cases answer with
          | error fault => rfl
          | ok batch =>
              -- The batch that is closed is cleaned up before the other records are read.
              simp only [Except.map, cleanAll_append]
              exact ih _ _ _

/-- A pass is refused where the collector is, and else reports about all batches. -/
theorem cleanStream_snd (o : RemovalOptions) (policy : GracePolicy)
    (s : Store.Services) (n : Report) (c : Collector) (records : List Record) :
    (cleanStream o policy s n c records).2 =
      ((batches policy).run c records).2.map fun vs => (cleanAll o s n vs).2 := by
  induction records generalizing s n c with
  | nil => rfl
  | cons r rs ih =>
      unfold cleanStream
      cases hoffer : c.offer policy r with
      | mk c' answer =>
          cases answer with
          | error fault =>
              have h : (batches policy).offer c r = (c', .error fault) := by
                simp [batches, hoffer, Except.map]
              rw [Stream.Engine.run_cons_of_error h]
              rfl
          | ok batch =>
              have h : (batches policy).offer c r = (c', .ok batch.toList) := by
                simp [batches, hoffer, Except.map]
              rw [Stream.Engine.run_cons_of_ok h]
              simp only [ih]
              cases ((batches policy).run c' rs).2 with
              | error fault => rfl
              | ok vs => simp only [Except.map, cleanAll_append]

theorem cleanUp_fst (o : RemovalOptions) (policy : GracePolicy)
    (s : Store.Services) (records : List Record) :
    (cleanUp o policy s records).1 =
      (cleanAll o s {} (handed policy records)).1 :=
  cleanStream_fst o policy s {} .start records

theorem cleanUp_snd (o : RemovalOptions) (policy : GracePolicy)
    (s : Store.Services) (records : List Record) :
    (cleanUp o policy s records).2 =
      ((batches policy).run .start records).2.map fun vs =>
        (cleanAll o s {} vs).2 :=
  cleanStream_snd o policy s {} .start records

end Pass

section Handed

variable {policy : GracePolicy} {v : Verified} {r : Record} {batch : Batch}

/-- The live records of a batch, in the order in which they are removed. -/
def Verified.live (v : Verified) : List LiveRecord :=
  v.parts ++ v.directory.toList

/-- The records of a batch. -/
def Verified.records (v : Verified) : List Record :=
  v.live.map .live ++ v.finalizing.toList.map .finalizing

theorem Verified.cleanups_eq {f : Finalizing} (h : v.finalizing = some f) :
    v.cleanups = v.live.map .live ++ [.finalizing f] := by
  simp [Verified.cleanups, Verified.live, h]

theorem Verified.Holds.mem_records {records : List Record} (h : v.Holds records) :
    ∀ r ∈ v.records, r ∈ records := by
  have kinds : v.records = records.filter Record.isPart ++
      records.filter Record.isDirectory ++ records.filter Record.isFinalizing := by
    rw [h.finalizing, h.directory, h.parts]
    simp [Verified.records, Verified.live]
  intro r hr
  simp only [kinds, List.mem_append] at hr
  rcases hr with (hr | hr) | hr <;> exact List.mem_of_mem_filter hr

theorem mem_of_verify (h : batch.verify = .ok v) :
    ∀ r ∈ v.records, r ∈ batch.records :=
  (holds_of_verify h).2.1.mem_records

theorem verify_of_judge {n : Counts}
    (h : (Collector.judge policy n batch).2 = some v) :
    batch.verify = .ok v ∧ v.isEligible policy = true := by
  unfold Collector.judge at h
  cases hverify : batch.verify with
  | error fault => simp [hverify] at h
  | ok w =>
      simp only [hverify] at h
      split at h
      · cases h
      · split at h
        · next heligible =>
            obtain rfl := Option.some.inj h
            exact ⟨rfl, heligible⟩
        · cases h

theorem offer_of_push
    (policy : GracePolicy) {c : Collector} {b' : Batcher} {closed : Option Batch}
    (h : c.batcher.push r = .ok (b', closed)) :
    ∃ n, (batches policy).offer c r =
      (⟨b', n⟩, .ok (Collector.judgeClosed policy
        { c.counts with records := c.counts.records + 1 } closed).2.toList) := by
  refine ⟨(Collector.judgeClosed policy
    { c.counts with records := c.counts.records + 1 } closed).1, ?_⟩
  simp only [batches, Collector.offer, h, Except.map]

theorem mem_judgeClosed {n : Counts} {closed : Option Batch}
    (h : v ∈ (Collector.judgeClosed policy n closed).2.toList) :
    ∃ batch, closed = some batch ∧ (Collector.judge policy n batch).2 = some v := by
  cases closed with
  | none => cases h
  | some batch => exact ⟨batch, rfl, Option.mem_toList.1 h⟩

/-- What is handed out are verified batches of finished uploads with records of the stream. -/
theorem exists_batch_of_mem_outputs {c : Collector} {records : List Record}
    (h : v ∈ (batches policy).outputs c records) :
    v.isEligible policy = true ∧
      ∃ batch : Batch, batch.verify = .ok v ∧
        ∀ r ∈ batch.records, r ∈ c.batcher.openRecords ++ records := by
  induction records generalizing c with
  | nil =>
      cases hcurrent : c.batcher.current with
      | none =>
          simp [Stream.Engine.outputs, batches, Collector.finish, Batcher.finish,
            hcurrent, Collector.judgeClosed] at h
      | some batch =>
          have hjudge : (Collector.judge policy c.counts batch).2 = some v := by
            simpa [Stream.Engine.outputs, batches, Collector.finish, Batcher.finish,
              hcurrent, Collector.judgeClosed] using h
          obtain ⟨hverify, heligible⟩ := verify_of_judge hjudge
          refine ⟨heligible, batch, hverify, ?_⟩
          simp [Batcher.openRecords, hcurrent]
  | cons r rs ih =>
      cases hpush : c.batcher.push r with
      | error fault =>
          simp [Stream.Engine.outputs, batches, Collector.offer, hpush, Except.map] at h
      | ok pushed =>
          obtain ⟨b', closed⟩ := pushed
          have hrecords := Batcher.push_records hpush
          obtain ⟨n, hoffer⟩ :=
            offer_of_push policy hpush
          rw [Stream.Engine.outputs, hoffer, List.mem_append] at h
          -- The record goes into the open batch, or the batch that was open is closed.
          have hmem : ∀ x ∈ Batcher.handedOut closed ++ b'.openRecords,
              x ∈ c.batcher.openRecords ++ r :: rs := by
            intro x hx
            rw [hrecords] at hx
            simpa using List.mem_append_left rs hx
          rcases h with h | h
          · obtain ⟨batch, rfl, hjudge⟩ := mem_judgeClosed h
            obtain ⟨hverify, heligible⟩ := verify_of_judge hjudge
            exact ⟨heligible, batch, hverify, fun x hx =>
              hmem x (List.mem_append_left _ hx)⟩
          · obtain ⟨heligible, batch, hverify, hbatch⟩ := ih h
            refine ⟨heligible, batch, hverify, fun x hx => ?_⟩
            rcases List.mem_append.1 (hbatch x hx) with hx | hx
            · exact hmem x (List.mem_append_right _ hx)
            · exact List.mem_append_right _ (List.mem_cons_of_mem r hx)

end Handed

section Paths

variable {s t : Store.Services} {v : Verified} {f : Finalizing} {owner : Uuid}
variable {login path : String} {records : List LiveRecord}

/-- The paths of live records under the login of the owner's account. -/
def Verified.pathsOf (v : Verified) (s : Store.Services)
    (records : List LiveRecord) : List String :=
  match ownerOf v with
  | .error _ => []
  | .ok owner =>
      match s.login? owner with
      | none => []
      | some login => records.filterMap fun r => accountPath? r.key owner login

/-- The paths of the live records of a batch, in the order in which they are removed. -/
def Verified.livePaths (v : Verified) (s : Store.Services) : List String :=
  v.pathsOf s v.live

/-- The paths of the parts of a batch. -/
def Verified.partPaths (v : Verified) (s : Store.Services) : List String :=
  v.pathsOf s v.parts

theorem Verified.livePaths_eq (v : Verified) (s : Store.Services) :
    v.livePaths s = v.partPaths s ++ v.pathsOf s v.directory.toList := by
  simp only [Verified.livePaths, Verified.partPaths, Verified.pathsOf, Verified.live]
  split
  · rfl
  · split
    · rfl
    · exact List.filterMap_append

theorem Verified.HasAccount.ownerOf_eq (h : v.HasAccount s f owner login) :
    ownerOf v = .ok owner :=
  ownerOf_eq_ok_iff.2 ⟨f, h.finalizing_eq, h.owner_eq⟩

theorem Verified.HasAccount.pathsOf_eq (h : v.HasAccount s f owner login)
    (records : List LiveRecord) :
    v.pathsOf s records = records.filterMap fun r => accountPath? r.key owner login := by
  simp only [Verified.pathsOf, h.ownerOf_eq, h.login_eq]

theorem Verified.HasAccount.map_pathsOf_eq (h : v.HasAccount s f owner login)
    (howned : ∀ r ∈ records, (accountPath? r.key owner login).isSome) :
    records.map (fun r => accountPath? r.key owner login) =
      (v.pathsOf s records).map some := by
  rw [h.pathsOf_eq]
  exact map_pathsUnder_eq howned

theorem mem_pathsOf_iff :
    path ∈ v.pathsOf s records ↔
      ∃ f owner login, v.HasAccount s f owner login ∧
        ∃ r ∈ records, accountPath? r.key owner login = some path := by
  constructor
  · intro h
    unfold Verified.pathsOf at h
    split at h
    · cases h
    · next owner howner =>
        split at h
        · cases h
        · next login hlogin =>
            obtain ⟨f, hf, ho⟩ := ownerOf_eq_ok_iff.1 howner
            exact ⟨f, owner, login, ⟨hf, ho, hlogin⟩, List.mem_filterMap.1 h⟩
  · rintro ⟨f, owner, login, haccount, hr⟩
    rw [haccount.pathsOf_eq]
    exact List.mem_filterMap.2 hr

theorem login?_congr (h : t.accounts = s.accounts) (owner : Uuid) :
    t.login? owner = s.login? owner := by
  rw [Store.Services.login?, h, Store.Services.login?]

theorem hasAccount_congr (h : t.accounts = s.accounts) :
    v.HasAccount t f owner login ↔ v.HasAccount s f owner login := by
  constructor
  · rintro ⟨hf, ho, hlogin⟩
    exact ⟨hf, ho, login?_congr h owner ▸ hlogin⟩
  · rintro ⟨hf, ho, hlogin⟩
    exact ⟨hf, ho, (login?_congr h owner).trans hlogin⟩

theorem pathsOf_congr (h : t.accounts = s.accounts) (v : Verified)
    (records : List LiveRecord) : v.pathsOf t records = v.pathsOf s records := by
  simp only [Verified.pathsOf, login?_congr h]

theorem pathsOf_of_ownPaths? {upload : Uuid} {paths : List String}
    (h : v.HasAccount s f owner login)
    (hpaths : ownPaths? upload owner login records = some paths) :
    paths = v.pathsOf s records := by
  have hsome := congrArg (List.filterMap id) (ownPaths?_eq_some_iff.1 hpaths)
  rw [List.filterMap_map, List.filterMap_map] at hsome
  rw [h.pathsOf_eq]
  simpa using hsome.symm

/-- The paths of a stage are those of the parts or that of the directory. -/
theorem eq_of_mem_stages {paths : List String} (h : some paths ∈ stages s v) :
    paths = v.partPaths s ∨
      paths = v.pathsOf s v.directory.toList ∧ paths.length ≤ 1 := by
  unfold stages at h
  split at h
  · simp at h
  · next owner login hresolved =>
      obtain ⟨f, hf⟩ := exists_hasAccount_of_resolved? hresolved
      simp only [ownStages, List.mem_cons, List.not_mem_nil, or_false] at h
      rcases h with h | h
      · exact .inl (pathsOf_of_ownPaths? hf h.symm)
      · refine .inr ⟨pathsOf_of_ownPaths? hf h.symm, ?_⟩
        have hlength := congrArg List.length (ownPaths?_eq_some_iff.1 h.symm)
        rw [List.length_map, List.length_map] at hlength
        exact hlength ▸ Option.length_toList_le

theorem mem_livePaths_of_stages {paths : List String} (h : some paths ∈ stages s v)
    (hp : path ∈ paths) : path ∈ v.livePaths s := by
  rw [v.livePaths_eq]
  rcases eq_of_mem_stages h with heq | ⟨heq, -⟩
  · exact List.mem_append_left _ (heq ▸ hp)
  · exact List.mem_append_right _ (heq ▸ hp)

end Paths

section Sample

/-- A grace period of ten seconds at the hundredth second. -/
def samplePolicy : GracePolicy :=
  ⟨.wholeSecond 100, 10000000000⟩

/-- The records of a batch as they stand in a stream in order. -/
def Verified.inOrder (v : Verified) : List Record :=
  v.finalizing.toList.map .finalizing ++ (v.directory.toList ++ v.parts).map .live

/-- The records of the sample. -/
def sampleStream : List Record :=
  sampleBatch.inOrder

theorem handed_sampleStream : handed samplePolicy sampleStream = [sampleBatch] := by
  decide +kernel

theorem hasAccount_sampleBatch :
    sampleBatch.HasAccount sampleServices
      ⟨sampleOwner, "u:" ++ sampleKey "o", "s1", .wholeSecond 1, .commit⟩
      sampleOwner "jo" where
  finalizing_eq := rfl
  owner_eq := by decide +kernel
  login_eq := by decide +kernel

end Sample

end Upload
end Reclaim
