import Mathlib.Data.Finset.Card
import Mathlib.Data.List.Induction
import Reclaim.Audit.Auditor
import Reclaim.Proofs.Sorted.Map
import Reclaim.Proofs.Stream.Run
import Reclaim.Proofs.Text.Order

/-!
# Findings about objects

What is kept of the rows of an object are the storage nodes on which the
metadata places a replica, those that hold one, and the owner and the key of the
first row of the metadata.  There is a finding about the object if a node of the
first kind is not of the second.

Main results: `of_keep` for one object and `findings_tell_lacks` for a whole
stream.
-/

namespace Reclaim
namespace Audit

namespace Row

/-- The storage node on which a row of the metadata places a replica. -/
def place? : Row → Option String
  | stored _ _ => none
  | expected _ storageId _ _ => some storageId

/-- The storage node of which a row says that it holds a replica. -/
def holder? : Row → Option String
  | stored _ storageId => some storageId
  | expected _ _ _ _ => none

/-- The owner and the key that a row of the metadata gives. -/
def source? : Row → Option (String × String)
  | stored _ _ => none
  | expected _ _ owner key => some (owner, key)

end Row

/-- What is kept of rows: the nodes they name and the first source. -/
structure Replicas.Of (rows : List Row) (r : Replicas) : Prop where
  source : r.source = rows.findSome? Row.source?
  expected : ∀ s, s ∈ r.expected.keys ↔ s ∈ rows.filterMap Row.place?
  stored : ∀ s, s ∈ r.stored.keys ↔ s ∈ rows.filterMap Row.holder?

section Keep

variable {rows : List Row} {row : Row} {r : Replicas}
variable {objectId storageId : String}

theorem Replicas.Of.add (h : r.Of rows) : (r.add row).Of (rows ++ [row]) := by
  cases row with
  | stored objectId storageId =>
      refine ⟨?_, ?_, ?_⟩
      · simp [Replicas.add, h.source, Row.source?]
      · intro s
        simp [Replicas.add, h.expected, Row.place?]
      · intro s
        simp [Replicas.add, Sorted.SortedMap.mem_keys_insert, h.stored,
          Row.holder?, or_comm]
  | expected objectId storageId owner key =>
      refine ⟨?_, ?_, ?_⟩
      · cases hs : rows.findSome? Row.source? with
        | none => simp [Replicas.add, h.source, hs, Row.source?]
        | some o => simp [Replicas.add, h.source, hs]
      · intro s
        simp [Replicas.add, Sorted.SortedMap.mem_keys_insert, h.expected,
          Row.place?, or_comm]
      · intro s
        simp [Replicas.add, h.stored, Row.holder?]

theorem of_keep (rows : List Row) : (grouping.keep rows).Of rows := by
  induction rows using List.reverseRecOn with
  | nil => exact ⟨rfl, fun _ => Iff.rfl, fun _ => Iff.rfl⟩
  | append_singleton rows row ih =>
      rw [Stream.Grouping.keep_append]
      exact ih.add

theorem mem_missing_iff (h : r.Of rows) :
    storageId ∈ r.missing ↔
      storageId ∈ rows.filterMap Row.place? ∧
        storageId ∉ rows.filterMap Row.holder? := by
  rw [Replicas.missing, List.mem_filter, h.expected, ← h.stored,
    Sorted.SortedMap.mem_keys_iff, Bool.not_eq_true', Bool.not_eq_true]

/-- The nodes that should hold a replica either do or do not. -/
theorem length_found_add_length_missing (r : Replicas) :
    r.found.length + r.missing.length = r.expected.keys.length :=
  (List.length_eq_length_filter_add _).symm

theorem length_expected (h : r.Of rows) :
    r.expected.keys.length = (rows.filterMap Row.place?).toFinset.card := by
  have same : r.expected.keys.toFinset =
      (rows.filterMap Row.place?).toFinset := by
    ext s
    rw [List.mem_toFinset, List.mem_toFinset, h.expected]
  rw [← same, List.toFinset_card_of_nodup r.expected.nodup_keys]

/-- An object gives a finding if replicas are missing. -/
theorem close_fst (objectId : String) (r : Replicas) :
    (r.close objectId).1 =
      if r.missing = [] then [] else [r.finding objectId] := by
  unfold Replicas.close
  by_cases hexpected : r.expected.keys = []
  · simp [hexpected, Replicas.missing]
  · by_cases hmissing : r.missing = []
    · simp [hexpected, hmissing]
    · simp [hexpected, hmissing]

theorem decide_eq (objectId : String) (rows : List Row) :
    grouping.decide objectId rows =
      if (grouping.keep rows).missing = [] then []
      else [(grouping.keep rows).finding objectId] :=
  close_fst objectId _

theorem mem_decide_iff {f : Finding} :
    f ∈ grouping.decide objectId rows ↔
      (grouping.keep rows).missing ≠ [] ∧
        f = (grouping.keep rows).finding objectId := by
  rw [decide_eq]
  by_cases h : (grouping.keep rows).missing = [] <;> simp [h]

/-- A finding about an object is about that object. -/
theorem objectId_of_mem_decide
    {f : Finding} (h : f ∈ grouping.decide objectId rows) :
    f.objectId = objectId := by
  obtain ⟨-, rfl⟩ := mem_decide_iff.1 h
  rfl

end Keep

/-! ## Findings in a stream -/

theorem names_follow_keys : Stream.NamesFollow Row.key Row.objectId :=
  .of_fst fun r => by cases r <;> rfl

/-- The rows about an object, in their order. -/
abbrev rowsAbout (objectId : String) (rows : List Row) : List Row :=
  Stream.rowsOf Row.objectId objectId rows

/-- The metadata places a replica of the object on the storage node, which holds none. -/
def Lacks (rows : List Row) (objectId storageId : String) : Prop :=
  (∃ owner key, .expected objectId storageId owner key ∈ rows) ∧
    .stored objectId storageId ∉ rows

/-- A finding tells what the rows of a stream say about its object. -/
structure Finding.Tells (rows : List Row) (f : Finding) : Prop where
  source : (rowsAbout f.objectId rows).findSome? Row.source? =
    some (f.owner, f.key)
  missing : ∀ storageId, storageId ∈ f.missing ↔ Lacks rows f.objectId storageId
  sorted : f.missing.Pairwise Text.BytesBefore
  expected : f.expected =
    ((rowsAbout f.objectId rows).filterMap Row.place?).toFinset.card
  found : f.found + f.missing.length = f.expected

section Stream

variable {rows : List Row} {objectId storageId : String}

theorem mem_places_rowsAbout :
    storageId ∈ (rowsAbout objectId rows).filterMap Row.place? ↔
      ∃ owner key, .expected objectId storageId owner key ∈ rows := by
  rw [List.mem_filterMap]
  constructor
  · rintro ⟨r, hr, hs⟩
    obtain ⟨hm, rfl⟩ := Stream.mem_rowsOf.1 hr
    cases r with
    | stored objectId storageId => cases hs
    | expected objectId storageId owner key =>
        cases hs
        exact ⟨owner, key, hm⟩
  · rintro ⟨owner, key, hr⟩
    exact ⟨_, Stream.mem_rowsOf.2 ⟨hr, rfl⟩, rfl⟩

theorem mem_holders_rowsAbout :
    storageId ∈ (rowsAbout objectId rows).filterMap Row.holder? ↔
      .stored objectId storageId ∈ rows := by
  rw [List.mem_filterMap]
  constructor
  · rintro ⟨r, hr, hs⟩
    obtain ⟨hm, rfl⟩ := Stream.mem_rowsOf.1 hr
    cases r with
    | stored objectId storageId =>
        cases hs
        exact hm
    | expected objectId storageId owner key => cases hs
  · exact fun hr => ⟨_, Stream.mem_rowsOf.2 ⟨hr, rfl⟩, rfl⟩

theorem mem_missing_keep_iff :
    storageId ∈ (grouping.keep (rowsAbout objectId rows)).missing ↔
      Lacks rows objectId storageId := by
  rw [mem_missing_iff (of_keep _), mem_places_rowsAbout,
    mem_holders_rowsAbout, Lacks]

/-- The finding about an object tells what its rows say. -/
theorem tells_of_mem_decide
    {f : Finding} (h : f ∈ grouping.decide objectId (rowsAbout objectId rows)) :
    f.Tells rows := by
  obtain ⟨hmissing, rfl⟩ := mem_decide_iff.1 h
  have kept := of_keep (rowsAbout objectId rows)
  refine ⟨?_, fun _ => mem_missing_keep_iff, ?_, length_expected kept,
    length_found_add_length_missing _⟩
  · -- A node can only be missing if a row of the metadata names it.
    obtain ⟨s, hs⟩ := List.exists_mem_of_ne_nil _ hmissing
    obtain ⟨⟨owner, key, hrow⟩, -⟩ := mem_missing_keep_iff.1 hs
    have hsome : ((rowsAbout objectId rows).findSome? Row.source?).isSome :=
      List.findSome?_isSome_iff.2
        ⟨_, Stream.mem_rowsOf.2 ⟨hrow, rfl⟩, rfl⟩
    obtain ⟨source, hsource⟩ := Option.isSome_iff_exists.1 hsome
    simp only [Replicas.finding, kept.source, hsource, Option.getD_some]
  · refine List.Pairwise.filter _ ?_
    exact (Sorted.SortedMap.pairwise_keys _).imp Text.bytesBefore_iff.2

/--
The findings of an audit of a stream in order: one for each object of which a
storage node lacks a replica, in the order of the objects, and each of them
tells what the rows say about its object.
-/
theorem findings_tell_lacks
    {rows : List Row} (h : Stream.InOrder Row.key rows) :
    ∃ findings, (auditor.run .start rows).2 = .ok findings ∧
      (findings.Pairwise fun f g => Text.BytesBefore f.objectId g.objectId) ∧
      (∀ objectId, (∃ f ∈ findings, f.objectId = objectId) ↔
        ∃ storageId, Lacks rows objectId storageId) ∧
      ∀ f ∈ findings, f.Tells rows := by
  have hrun : (auditor.run .start rows).2 =
      .ok ((Stream.names Row.objectId rows).flatMap fun objectId =>
        grouping.decide objectId (rowsAbout objectId rows)) :=
    grouping.groupwise.run_eq_names names_follow_keys h
  refine ⟨_, hrun, ?_, ?_, ?_⟩
  · rw [List.pairwise_flatMap]
    constructor
    · intro objectId _
      rw [decide_eq]
      split
      · exact List.Pairwise.nil
      · exact List.pairwise_singleton _ _
    · refine (Stream.pairwise_names names_follow_keys h).imp ?_
      intro a b hab f hf g hg
      rw [objectId_of_mem_decide hf, objectId_of_mem_decide hg]
      exact Text.bytesBefore_iff.2 hab
  · intro objectId
    constructor
    · rintro ⟨f, hf, rfl⟩
      obtain ⟨id, -, hf⟩ := List.mem_flatMap.1 hf
      obtain ⟨hmissing, hfinding⟩ := mem_decide_iff.1 hf
      obtain ⟨s, hs⟩ := List.exists_mem_of_ne_nil _ hmissing
      rw [objectId_of_mem_decide hf]
      exact ⟨s, mem_missing_keep_iff.1 hs⟩
    · rintro ⟨s, hs⟩
      obtain ⟨owner, key, hrow⟩ := hs.1
      have hname : objectId ∈ Stream.names Row.objectId rows :=
        Stream.mem_names.2 ⟨_, hrow, rfl⟩
      have hmissing := List.ne_nil_of_mem (mem_missing_keep_iff.2 hs)
      refine ⟨(grouping.keep (rowsAbout objectId rows)).finding objectId,
        List.mem_flatMap.2 ⟨objectId, hname, ?_⟩, rfl⟩
      exact mem_decide_iff.2 ⟨hmissing, rfl⟩
  · intro f hf
    obtain ⟨objectId, -, hf⟩ := List.mem_flatMap.1 hf
    exact tells_of_mem_decide hf

end Stream

section Sample

/-- An object with two replicas of four, a file without metadata and a complete object. -/
def sampleRows : List Row :=
  [.stored "a" "1.stor", .stored "a" "2.stor", .stored "a" "9.stor",
    .expected "a" "1.stor" "o" "/o/x", .expected "a" "2.stor" "o" "/o/x",
    .expected "a" "3.stor" "o" "/o/x", .expected "a" "3.stor" "p" "/p/y",
    .expected "a" "4.stor" "p" "/p/y", .stored "b" "1.stor",
    .stored "c" "1.stor", .expected "c" "1.stor" "o" "/o/z"]

/-- The audit of the sample tells which two replicas the first object lacks. -/
theorem findings_of_sample :
    Stream.InOrder Row.key sampleRows ∧
      (auditor.run .start sampleRows).2 =
        .ok [⟨"a", "o", "/o/x", 4, 2, ["3.stor", "4.stor"]⟩] ∧
      Finding.Tells sampleRows
        ⟨"a", "o", "/o/x", 4, 2, ["3.stor", "4.stor"]⟩ := by
  have h : Stream.InOrder Row.key sampleRows := by decide
  obtain ⟨findings, hr, -, -, tells⟩ := findings_tell_lacks h
  cases hr
  exact ⟨h, rfl, tells _ List.mem_cons_self⟩

end Sample

end Audit
end Reclaim
