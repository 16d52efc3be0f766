import Reclaim.Proofs.Dump.Extraction
import Reclaim.Proofs.Text.Fields
import Reclaim.Proofs.Upload.Calls

/-!
# Upload trees

A live record that comes from a dump has the path of an upload, or of one of its
parts, as its key, and the id in that path is the upload of the record.  Batches
are made of records of one upload.  When the owner in the key gives way to the
login of an account, the rest of the path stays.  So what a pass unlinks lies in
the trees of the uploads that it cleans up, although no later step looks at the
shape of a key again.

Main results: `Path.parse?_eq_some_iff` for keys, `accountPath?_eq_under` for the
paths under a login, and `unlinks_in_upload_trees` for a pass.
-/

namespace Reclaim
namespace Upload

/-! ## Paths of uploads -/

namespace Path

/-- The segments of a path behind the owner. -/
def steps (p : Path) : List (List Char) :=
  [uploadsSegment, p.group, p.upload] ++ p.part.toList

/-- The path with a name in place of the owner. -/
def under (name : String) (p : Path) : String :=
  Text.join '/' ("" :: name :: p.steps.map String.ofList)

/-- What is asked of the parts of a path. -/
structure IsWellFormed (p : Path) : Prop where
  owner : isIdLike p.owner = true
  group : p.group ≠ []
  upload : isIdLike p.upload = true
  part : ∀ digits ∈ p.part, isPartNumber digits = true

variable {p : Path} {key : String}

theorem ofSegments?_eq_some_iff {segments : List (List Char)} :
    ofSegments? segments = some p ↔
      segments = [] :: p.owner :: p.steps ∧ p.IsWellFormed := by
  constructor
  · intro h
    unfold ofSegments? at h
    split at h
    · obtain ⟨⟨hroot, howner, rfl, hgroup, hupload⟩, hp⟩ :=
        Option.ite_none_right_eq_some.1 h
      obtain rfl := List.isEmpty_iff.1 hroot
      obtain rfl := Option.some.inj hp
      exact ⟨rfl, howner, fun h => hgroup (List.isEmpty_iff.2 h), hupload, by simp⟩
    · obtain ⟨⟨hroot, howner, rfl, hgroup, hupload, hpart⟩, hp⟩ :=
        Option.ite_none_right_eq_some.1 h
      obtain rfl := List.isEmpty_iff.1 hroot
      obtain rfl := Option.some.inj hp
      exact ⟨rfl, howner, fun h => hgroup (List.isEmpty_iff.2 h), hupload, by simpa using hpart⟩
    · cases h
  · rintro ⟨rfl, h⟩
    obtain ⟨owner, group, upload, part⟩ := p
    have hgroup : ¬ group.isEmpty = true := fun hg => h.group (List.isEmpty_iff.1 hg)
    cases part with
    | none => simp [steps, ofSegments?, h.owner, hgroup, h.upload]
    | some digits => simp [steps, ofSegments?, h.owner, hgroup, h.upload, h.part digits rfl]

/-- Which keys are paths of uploads or of their parts. -/
theorem parse?_eq_some_iff :
    parse? key = some p ↔
      Text.pieces '/' key.toList = [] :: p.owner :: p.steps ∧ p.IsWellFormed :=
  ofSegments?_eq_some_iff

theorem slash_not_mem_steps (h : parse? key = some p) : ∀ s ∈ p.owner :: p.steps, '/' ∉ s := by
  intro s hs
  have hpieces := (parse?_eq_some_iff.1 h).1
  exact Text.not_mem_of_mem_pieces (hpieces ▸ List.mem_cons_of_mem [] hs)

/-- A key is the path under its own owner. -/
theorem eq_under_of_parse? (h : parse? key = some p) :
    key = p.under (String.ofList p.owner) := by
  have hfields : Text.fields '/' key =
      "" :: String.ofList p.owner :: p.steps.map String.ofList := by
    rw [Text.fields, (parse?_eq_some_iff.1 h).1]
    rfl
  rw [under, ← hfields, Text.join_fields]

/-- The fields of the path under a name without slashes. -/
theorem fields_under {name : String} (h : parse? key = some p) (hname : '/' ∉ name.toList) :
    Text.fields '/' (p.under name) = "" :: name :: p.steps.map String.ofList := by
  have hsteps := slash_not_mem_steps h
  refine Text.fields_join '/' _ (List.cons_ne_nil _ _) ?_
  simp only [List.forall_mem_cons, List.forall_mem_map, String.toList_ofList] at hsteps ⊢
  exact ⟨by simp, hname, hsteps.2⟩

theorem toList_under (name : String) (p : Path) :
    (p.under name).toList =
      '/' :: (name.toList ++ '/' :: (Text.join '/' (p.steps.map String.ofList)).toList) := by
  rw [under, Text.toList_join_cons _ _ (List.cons_ne_nil _ _),
    Text.toList_join_cons _ _ (by simp [steps])]
  rfl

end Path

/-- The path under a login of a key that is the path of an upload. -/
theorem accountPath?_eq_under {key login path : String} {p : Path} {owner : Uuid}
    (h : Path.parse? key = some p) (hpath : accountPath? key owner login = some path) :
    path = p.under login := by
  have howner : '/' ∉ p.owner := Path.slash_not_mem_steps h _ List.mem_cons_self
  have hsteps : (Text.join '/' (p.steps.map String.ofList)).toList.isEmpty = false := by
    rw [List.isEmpty_eq_false_iff, Path.steps, List.cons_append, List.map_cons,
      Text.toList_join_cons _ _ (by simp)]
    exact List.append_ne_nil_of_right_ne_nil _ (List.cons_ne_nil _ _)
  rw [accountPath?, Path.eq_under_of_parse? h, Path.toList_under] at hpath
  simp only [String.toList_ofList, Text.cut?_append _ howner, Option.getD_some,
    hsteps, Bool.false_eq_true, if_false] at hpath
  obtain ⟨-, hpath⟩ := Option.ite_none_right_eq_some.1 hpath
  rw [← Option.some.inj hpath, ← String.toList_inj, Path.toList_under]
  simp

/-- A path of the tree of an upload, under the login of an account. -/
def InTree (login : String) (upload : Uuid) (path : String) : Prop :=
  ∃ (group id : String) (part : Option String),
    Text.fields '/' path = ["", login, "uploads", group, id] ++ part.toList ∧
      group ≠ "" ∧ Uuid.parse? id = some upload ∧
      ∀ digits ∈ part, digits ≠ "" ∧ ∀ c ∈ digits.toList, Text.isDecimalDigit c = true

theorem inTree_of_parse? {key login path : String} {p : Path} {owner upload : Uuid}
    (h : Path.parse? key = some p)
    (hupload : Uuid.parse? (String.ofList p.upload) = some upload)
    (hlogin : '/' ∉ login.toList) (hpath : accountPath? key owner login = some path) :
    InTree login upload path := by
  have hwell := (Path.parse?_eq_some_iff.1 h).2
  refine ⟨String.ofList p.group, String.ofList p.upload, p.part.map String.ofList, ?_, ?_,
    hupload, ?_⟩
  · have huploads : String.ofList Path.uploadsSegment = "uploads" := String.ofList_toList
    rw [accountPath?_eq_under h hpath, Path.fields_under h hlogin]
    cases hpart : p.part <;> simp [Path.steps, huploads, hpart]
  · simpa using hwell.group
  · intro digits hdigits
    obtain ⟨number, hnumber, rfl⟩ := Option.map_eq_some_iff.1 hdigits
    simpa [Path.isPartNumber] using hwell.part number hnumber

/-! ## Records of batches -/

section Batches

variable {v : Verified} {batch : Batch}

/-- The records of a verified batch are records of its upload. -/
theorem upload_of_verify (h : batch.verify = .ok v) :
    ∀ r ∈ v.records, r.upload = v.upload := by
  obtain ⟨hu, holds, sound⟩ := holds_of_verify h
  exact fun r hr => (sound.own r (holds.mem_records r hr)).trans hu.symm

end Batches

/-! ## What a pass unlinks -/

section Pass

variable {o : RemovalOptions} {policy : GracePolicy} {s : Store.Services}
variable {v : Verified} {path : String} {allow : Bool} {records : List Record}

/-- What is unlinked for a batch are paths of its live records. -/
theorem mem_livePaths_of_callsMade (h : .unlink path allow ∈ callsMade o s v) :
    path ∈ v.livePaths s := by
  have hlookup : .unlink path allow ∉ lookups v := by
    unfold lookups
    split <;> simp
  have htried : path ∈ (sweeping o s v).tried := by
    simp only [callsMade, List.mem_append, hlookup, false_or, List.mem_map] at h
    rcases h with ⟨p, hp, heq⟩ | ⟨slot, -, heq⟩
    · cases heq
      exact hp
    · cases heq
  obtain ⟨paths, hpaths, hpath⟩ := Store.exists_stage_of_mem_tried htried
  exact mem_livePaths_of_stages hpaths hpath

/-- Cleanups make the calls of their batches, one batch after the other. -/
theorem exists_rounds_callsMade (o : RemovalOptions) (s : Store.Services) (n : Report)
    (vs : List Verified) :
    ∃ rounds, (cleanAll o s n vs).1.calls = s.calls ++ rounds.flatten ∧
      List.Forall₂ (fun v made =>
        ∃ t : Store.Services, t.accounts = s.accounts ∧ made = callsMade o t v) vs rounds := by
  induction vs generalizing s n with
  | nil => exact ⟨[], by simp [cleanAll_nil], .nil⟩
  | cons v vs ih =>
      obtain ⟨rounds, hcalls, hrounds⟩ := ih (clean o s n v).1 (clean o s n v).2
      refine ⟨callsMade o s v :: rounds, ?_, .cons ⟨s, rfl, rfl⟩ ?_⟩
      · rw [cleanAll_cons, hcalls, clean_eq]
        simp
      · rw [clean_accounts] at hrounds
        exact hrounds

/-- The record is one of those that a row of a dump gives. -/
def Record.IsExtracted (r : Record) : Prop :=
  ∃ origin row rs, Record.ofDump origin row = .ok rs ∧ r ∈ rs

theorem exists_path_of_isExtracted {l : LiveRecord} (h : (Record.live l).IsExtracted) :
    ∃ p, Path.parse? l.key = some p ∧
      Uuid.parse? (String.ofList p.upload) = some l.upload := by
  obtain ⟨origin, row, rs, hdump, hl⟩ := h
  rcases Record.cases_ofDump hdump with hlive | hfinalizing | rfl
  · obtain ⟨l', p, heq, hp, hupload⟩ := Record.path_of_liveOfDump hlive _ hl
    cases heq
    exact ⟨p, hp, hupload⟩
  · obtain ⟨f, heq, -⟩ := Record.of_finalizingOfDump hfinalizing _ hl
    cases heq
  · cases hl

/-- The paths of a batch that was handed out lie in the tree of its upload. -/
theorem inTree_of_mem_livePaths
    (hextracted : ∀ r ∈ records, r.IsExtracted)
    (hlogins : ∀ account login, s.login? account = some login → '/' ∉ login.toList)
    (hv : v ∈ handed policy records) (hpath : path ∈ v.livePaths s) :
    ∃ f owner login, v.HasAccount s f owner login ∧ InTree login v.upload path := by
  obtain ⟨f, owner, login, haccount, l, hl, hpath⟩ := mem_pathsOf_iff.1 hpath
  obtain ⟨-, batch, hverify, hbatch⟩ := exists_batch_of_mem_outputs hv
  have hmem : Record.live l ∈ v.records :=
    List.mem_append_left _ (List.mem_map_of_mem hl)
  obtain ⟨p, hp, hupload⟩ := exists_path_of_isExtracted
    (hextracted _ (hbatch _ (mem_of_verify hverify _ hmem)))
  have hsame : l.upload = v.upload := upload_of_verify hverify _ hmem
  exact ⟨f, owner, login, haccount,
    inTree_of_parse? hp (hsame ▸ hupload) (hlogins owner login haccount.login_eq) hpath⟩

/--
Let a pass go over records that come from dumps, in any order, and let no login
contain a slash.  For each batch that is handed out the pass makes some calls,
and it makes no others.  What it unlinks for a batch lies in the tree of the
batch's upload, under the login of the account that the finalizing record names.
-/
theorem unlinks_in_upload_trees
    (o : RemovalOptions) (policy : GracePolicy)
    (hextracted : ∀ r ∈ records, r.IsExtracted)
    (hlogins : ∀ account login, s.login? account = some login → '/' ∉ login.toList) :
    ∃ rounds, (cleanUp o policy s records).1.calls = s.calls ++ rounds.flatten ∧
      List.Forall₂ (fun v made => ∀ path allow, .unlink path allow ∈ made →
        ∃ f owner login, v.HasAccount s f owner login ∧ InTree login v.upload path)
        (handed policy records) rounds := by
  obtain ⟨rounds, hcalls, hrounds⟩ :=
    exists_rounds_callsMade o s {} (handed policy records)
  refine ⟨rounds, by rw [cleanUp_fst, hcalls], ?_⟩
  have hhanded : ∀ v ∈ handed policy records, v ∈ handed policy records := fun _ hv => hv
  refine ((List.forall₂_and_left _ _).2 ⟨hhanded, hrounds⟩).imp ?_
  rintro v made ⟨hv, t, haccounts, rfl⟩ path allow hmade
  -- The accounts are those from before the pass, so the batch has the same paths.
  have hpath : path ∈ v.livePaths s := by
    rw [Verified.livePaths, ← pathsOf_congr haccounts]
    exact mem_livePaths_of_callsMade hmade
  exact inTree_of_mem_livePaths hextracted hlogins hv hpath

end Pass

section Sample

/-- The path of a part of an upload that has the uuid of its owner. -/
def partKey : String :=
  sampleKey ("uploads/1" ++ sampleKey "7")

/-- The row of a part. -/
def partRow : Dump.Row :=
  [("__table", .string "manta"), ("_mtime", .string "1000"),
    ("_value", .object [("key", .string partKey), ("type", .string "object")])]

/-- The row of the finalizing record. -/
def finalizingRow : Dump.Row :=
  [("__table", .string "manta_uploads"), ("_mtime", .string "1000"),
    ("_key", .string ("11111111-1111-1111-1111-111111111111:" ++ sampleKey "o")),
    ("_value", .object [("finalizingType", .string "abort")])]

/-- The records of both rows. -/
def treeRecords : List Record :=
  [.finalizing ⟨sampleOwner, "11111111-1111-1111-1111-111111111111:" ++ sampleKey "o", "s1",
      .wholeSecond 1, .abort⟩,
    .live ⟨sampleOwner, partKey, .wholeSecond 1, .part⟩]

theorem isExtracted_treeRecords : ∀ r ∈ treeRecords, r.IsExtracted := by
  refine List.forall_mem_cons.2 ⟨?_, List.forall_mem_singleton.2 ?_⟩
  · exact ⟨⟨"s1", none⟩, finalizingRow, _, by decide +kernel, List.mem_singleton.2 rfl⟩
  · exact ⟨⟨"s1", none⟩, partRow, _, by decide +kernel, List.mem_singleton.2 rfl⟩

theorem unlinks_in_upload_trees_sample :
    (∀ r ∈ treeRecords, r.IsExtracted) ∧
      .unlink "/jo/uploads/1/11111111-1111-1111-1111-111111111111/7" true ∈
        (cleanUp ⟨1, true⟩ samplePolicy sampleServices treeRecords).1.calls ∧
      ∃ rounds, (cleanUp ⟨1, true⟩ samplePolicy sampleServices treeRecords).1.calls =
          sampleServices.calls ++ rounds.flatten ∧
        List.Forall₂ (fun v made => ∀ path allow, .unlink path allow ∈ made →
          ∃ f owner login, v.HasAccount sampleServices f owner login ∧
            InTree login v.upload path)
          (handed samplePolicy treeRecords) rounds := by
  have hlogins : ∀ account login,
      sampleServices.login? account = some login → '/' ∉ login.toList := by
    intro account login h
    obtain ⟨found, hfound, rfl⟩ := Option.map_eq_some_iff.1 h
    obtain rfl := List.mem_singleton.1 (List.mem_of_find?_eq_some hfound)
    decide
  refine ⟨isExtracted_treeRecords, by decide +kernel, ?_⟩
  exact unlinks_in_upload_trees ⟨1, true⟩ samplePolicy isExtracted_treeRecords hlogins

end Sample

end Upload
end Reclaim
