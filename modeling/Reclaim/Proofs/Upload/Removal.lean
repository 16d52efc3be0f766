import Reclaim.Proofs.Store.Unlink
import Reclaim.Upload.Removal

/-!
# Removing records by their paths

The live records of an upload are removed by way of paths under the login of
their owner.  All of these paths are known before the first one is tried, every
one is tried, and the removal succeeds if all of them were free.

Main results: `under_of_accountPath?` for the paths, and `removeRecords_cases`
for what is left and what is answered.
-/

namespace Reclaim
namespace Upload

section Paths

variable {key login path : String} {upload owner : Uuid}
variable {records : List LiveRecord} {paths : List String}

/-- A path is that of an account or starts with it and a slash. -/
def IsUnder (login path : String) : Prop :=
  path = "/" ++ login ∨ ∃ rest, path = "/" ++ login ++ "/" ++ rest

theorem under_of_accountPath? (h : accountPath? key owner login = some path) :
    IsUnder login path := by
  unfold accountPath? at h
  split at h
  · dsimp only at h
    rw [Option.ite_none_right_eq_some] at h
    obtain rfl := Option.some.inj h.2
    split
    · exact .inl rfl
    · exact .inr ⟨_, rfl⟩
  · cases h

theorem exists_record_of_mem
    (h : records.map (fun r => accountPath? r.key owner login) = paths.map some)
    (hm : path ∈ paths) :
    ∃ r ∈ records, accountPath? r.key owner login = some path :=
  List.mem_map.1 (h ▸ List.mem_map_of_mem hm)

theorem isSome_of_map_eq
    (h : records.map (fun r => accountPath? r.key owner login) = paths.map some) :
    ∀ r ∈ records, (accountPath? r.key owner login).isSome := by
  intro r hr
  have hm : accountPath? r.key owner login ∈ paths.map some :=
    h ▸ List.mem_map_of_mem (f := fun r => accountPath? r.key owner login) hr
  obtain ⟨path, -, hpath⟩ := List.mem_map.1 hm
  rw [← hpath]
  rfl

/-- The paths of those records that the owner owns. -/
def pathsUnder (owner : Uuid) (login : String) (records : List LiveRecord) :
    List String :=
  records.filterMap fun r => accountPath? r.key owner login

theorem map_pathsUnder_eq
    (howned : ∀ r ∈ records, (accountPath? r.key owner login).isSome) :
    records.map (fun r => accountPath? r.key owner login) =
      (pathsUnder owner login records).map some := by
  rw [pathsUnder]
  induction records with
  | nil => rfl
  | cons r rs ih =>
      obtain ⟨hr, hrs⟩ := List.forall_mem_cons.1 howned
      obtain ⟨p, hp⟩ := Option.isSome_iff_exists.1 hr
      simp only [List.map_cons, List.filterMap_cons, hp, ih hrs]

theorem accountPaths_eq_ok_iff (upload : Uuid) :
    accountPaths upload owner login records = .ok paths ↔
      records.map (fun r => accountPath? r.key owner login) =
        paths.map some := by
  induction records generalizing paths with
  | nil => cases paths <;> simp [accountPaths]
  | cons r rs ih =>
      rw [accountPaths, List.map_cons]
      cases accountPath? r.key owner login with
      | none => cases paths <;> simp
      | some path =>
          cases hrs : accountPaths upload owner login rs with
          | error fault =>
              cases paths with
              | nil => simp [Except.map]
              | cons p ps =>
                  have hnot : rs.map (fun r => accountPath? r.key owner login) ≠
                      ps.map some := fun h => by simp [ih.2 h] at hrs
                  simp [Except.map, hnot]
          | ok rest =>
              cases paths with
              | nil => simp [Except.map]
              | cons p ps => simp [Except.map, ← ih, hrs]

end Paths

section Records

variable {o : RemovalOptions} {s : Store.Services} {path login : String}
variable {upload owner : Uuid} {records : List LiveRecord} {paths : List String}

/-- The services after paths were tried, with the entries that are left. -/
def tried (o : RemovalOptions) (s : Store.Services) (entries : Store.Entries)
    (paths : List String) : Store.Services :=
  { s with
    entries := entries
    calls := s.calls ++ paths.map (.unlink · o.allowUploads) }

@[simp] theorem tried_nil : tried o s s.entries [] = s := by
  simp [tried]

@[simp] theorem tried_tried (first second : Store.Entries) (rest : List String) :
    tried o (tried o s first paths) second rest =
      tried o s second (paths ++ rest) := by
  simp [tried]

/-- A path that is free is removed; it does not matter whether there is an entry. -/
theorem removePath_of_free
    (h : Store.Free o.allowUploads s.failures s.entries path) :
    removePath o s path = (tried o s (s.entries.erase path) [path], .ok ()) := by
  rw [removePath, Store.unlink_of_free h]
  by_cases hc : s.entries.contains path = true
  · rw [if_pos hc]
    rfl
  · rw [if_neg hc]
    rfl

theorem removePath_of_not_free
    (h : ¬ Store.Free o.allowUploads s.failures s.entries path) :
    ∃ e, removePath o s path = (tried o s s.entries [path], .error e) := by
  obtain ⟨e, he, hne⟩ := Store.unlink_of_not_free h
  refine ⟨e, ?_⟩
  rw [removePath, he]
  cases e with
  | notFound name => exact absurd rfl (hne name)
  | _ => rfl

theorem remove_eq (m : Removal) (path : String) :
    (m.remove o path).services =
        tried o m.services
          (Store.attempt o.allowUploads m.services.failures m.services.entries path)
          [path] ∧
      ((m.remove o path).failure = none ↔
        m.failure = none ∧
          Store.Free o.allowUploads m.services.failures m.services.entries path) := by
  by_cases h : Store.Free o.allowUploads m.services.failures m.services.entries path
  · rw [Removal.remove, removePath_of_free h, Store.attempt_of_free h]
    exact ⟨rfl, by simp [h]⟩
  · obtain ⟨e, he⟩ := removePath_of_not_free h
    rw [Removal.remove, he, Store.attempt_of_not_free h]
    exact ⟨rfl, by simp [h]⟩

/-- All paths are tried, and none fails if each is free in its turn. -/
theorem foldl_remove_eq (m : Removal) (paths : List String) :
    (paths.foldl (Removal.remove o) m).services =
        tried o m.services
          (Store.sweep o.allowUploads m.services.failures m.services.entries paths)
          paths ∧
      ((paths.foldl (Removal.remove o) m).failure = none ↔
        m.failure = none ∧
          Store.Clear o.allowUploads m.services.failures m.services.entries paths) := by
  induction paths generalizing m with
  | nil => simp [tried, Store.sweep, Store.Clear]
  | cons p ps ih =>
      obtain ⟨hservices, hfailure⟩ := remove_eq (o := o) m p
      obtain ⟨hs, hf⟩ := ih (m.remove o p)
      rw [List.foldl_cons, hs, hf, hservices, hfailure]
      constructor
      · simp [tried, Store.sweep_cons]
      · by_cases hfree : Store.Free o.allowUploads m.services.failures
            m.services.entries p
        · simp only [tried, Store.attempt_of_free hfree, Store.Clear, and_assoc]
        · simp [Store.Clear, hfree]

/-- The paths of records, if the owner owns all of them. -/
def ownPaths? (upload owner : Uuid) (login : String) (records : List LiveRecord) :
    Option (List String) :=
  (accountPaths upload owner login records).toOption

theorem ownPaths?_eq_some_iff :
    ownPaths? upload owner login records = some paths ↔
      records.map (fun r => accountPath? r.key owner login) =
        paths.map some := by
  rw [← accountPaths_eq_ok_iff upload, ownPaths?]
  cases accountPaths upload owner login records <;> simp [Except.toOption]

theorem ownPaths?_eq_ite (upload : Uuid) :
    ownPaths? upload owner login records =
      if ∀ r ∈ records, (accountPath? r.key owner login).isSome then
        some (pathsUnder owner login records)
      else none := by
  split
  · next howned => exact ownPaths?_eq_some_iff.2 (map_pathsUnder_eq howned)
  · next hforeign =>
      refine Option.eq_none_iff_forall_ne_some.2 fun paths hsome => ?_
      exact hforeign (isSome_of_map_eq (ownPaths?_eq_some_iff.1 hsome))

/--
Records that are not all owned are left alone.  Of others all paths are tried,
and the removal succeeds if each is free in its turn.
-/
theorem removeRecords_cases (o : RemovalOptions) (s : Store.Services)
    (upload owner : Uuid) (login : String) (records : List LiveRecord) :
    (ownPaths? upload owner login records = none ∧
        ∃ fault, removeRecords o s upload owner login records = (s, .error fault)) ∨
      ∃ paths, ownPaths? upload owner login records = some paths ∧
        ((Store.Clear o.allowUploads s.failures s.entries paths ∧
            ∃ n, removeRecords o s upload owner login records =
              (tried o s (s.entries.eraseAll paths) paths, .ok n)) ∨
          (¬ Store.Clear o.allowUploads s.failures s.entries paths ∧
            ∃ fault, removeRecords o s upload owner login records =
              (tried o s (Store.sweep o.allowUploads s.failures s.entries paths) paths,
                .error fault))) := by
  unfold removeRecords ownPaths?
  cases accountPaths upload owner login records with
  | error fault => exact .inl ⟨rfl, fault, rfl⟩
  | ok paths =>
      obtain ⟨hservices, hfailure⟩ := foldl_remove_eq (o := o) { services := s } paths
      refine .inr ⟨paths, rfl, ?_⟩
      simp only [hservices, Removal.answer]
      by_cases h : Store.Clear o.allowUploads s.failures s.entries paths
      · rw [hfailure.2 ⟨rfl, h⟩, Store.sweep_of_clear h]
        exact .inl ⟨h, _, rfl⟩
      · obtain ⟨fault, hfault⟩ := Option.ne_none_iff_exists'.1
          (mt (fun hf => (hfailure.1 hf).2) h)
        rw [hfault]
        exact .inr ⟨h, fault, rfl⟩

end Records

end Upload
end Reclaim
