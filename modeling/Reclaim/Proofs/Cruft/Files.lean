import Mathlib.Data.List.Induction
import Reclaim.Cruft.Collector
import Reclaim.Proofs.Stream.Run

/-!
# The files of an object

What is kept of the rows of an object are its old files and whether one of the
rows refers to it.  Its old files are cruft if none does.

Main results: `decide_eq`, and `run_eq_unreferenced_files`, which tells the cruft
of a whole stream from its single rows.
-/

namespace Reclaim
namespace Cruft

namespace Row

/-- The row is a reference. -/
def isReference : Row → Bool
  | reference _ => true
  | stored _ _ _ _ => false

/-- The file of a row, if it is old enough to be removed. -/
def candidate? (policy : GracePolicy) : Row → Option Action
  | reference _ => none
  | stored objectId storageId owner date =>
      if policy.isExpired date then some ⟨objectId, storageId, owner⟩ else none

theorem objectId_of_candidate?
    {policy : GracePolicy} {r : Row} {a : Action}
    (h : r.candidate? policy = some a) : a.objectId = r.objectId := by
  cases r with
  | reference objectId => cases h
  | stored objectId storageId owner date =>
      simp only [candidate?] at h
      split at h
      · obtain rfl := Option.some.inj h
        rfl
      · cases h

end Row

variable {policy : GracePolicy}

theorem names_follow_keys : Stream.NamesFollow Row.key Row.objectId :=
  .of_fst fun r => by cases r <;> rfl

theorem add_eq (f : Files) (r : Row) :
    (Files.add policy f r).1 =
      ⟨f.candidates ++ (r.candidate? policy).toList,
        f.referenced || r.isReference⟩ := by
  cases r with
  | reference objectId => simp [Files.add, Row.candidate?, Row.isReference]
  | stored objectId storageId owner date =>
      simp only [Files.add, Row.candidate?, Row.isReference]
      split <;> simp

/-- What is kept of the rows of an object. -/
theorem keep_eq (rows : List Row) :
    (grouping policy).keep rows =
      ⟨rows.filterMap (Row.candidate? policy), rows.any Row.isReference⟩ := by
  induction rows using List.reverseRecOn with
  | nil => rfl
  | append_singleton rows r ih =>
      rw [Stream.Grouping.keep_append, ih]
      refine (add_eq _ r).trans ?_
      rw [List.filterMap_append, List.any_append]
      cases h : r.candidate? policy with
      | none => simp [h]
      | some a => simp [h]

/-- The old files of an object are cruft if no row refers to it. -/
theorem decide_eq (objectId : String) (rows : List Row) :
    (grouping policy).decide objectId rows =
      if rows.any Row.isReference then []
      else rows.filterMap (Row.candidate? policy) := by
  unfold Stream.Grouping.decide
  rw [keep_eq]
  simp only [grouping, Files.close]
  split <;> rfl

/-- Cruft of an object is found among the files of that object. -/
theorem objectId_of_mem_decide
    {objectId : String} {rows : List Row} {a : Action}
    (h : a ∈ (grouping policy).decide objectId
      (Stream.rowsOf Row.objectId objectId rows)) :
    a.objectId = objectId := by
  rw [decide_eq] at h
  split at h
  · cases h
  · obtain ⟨r, hr, ha⟩ := List.mem_filterMap.1 h
    rw [Row.objectId_of_candidate? ha]
    exact (Stream.mem_rowsOf.1 hr).2

/-- A row of the stream refers to the object. -/
def isReferenced (rows : List Row) (objectId : String) : Bool :=
  rows.any fun r => r.isReference && r.objectId = objectId

/-- The file of a row, if it is cruft in the stream. -/
def cruft? (policy : GracePolicy) (rows : List Row) (r : Row) :
    Option Action :=
  if isReferenced rows r.objectId then none else r.candidate? policy

/-- What comes of an object is the cruft among its rows. -/
theorem decide_rowsOf_eq (objectId : String) (rows : List Row) :
    (grouping policy).decide objectId
        (Stream.rowsOf Row.objectId objectId rows) =
      (Stream.rowsOf Row.objectId objectId rows).filterMap
        (cruft? policy rows) := by
  have referenced : (Stream.rowsOf Row.objectId objectId rows).any
      Row.isReference = isReferenced rows objectId := by
    rw [Stream.rowsOf, List.any_filter, isReferenced]
    congr 1
    funext r
    exact Bool.and_comm _ _
  have each : ∀ r ∈ Stream.rowsOf Row.objectId objectId rows,
      cruft? policy rows r =
        if isReferenced rows objectId then none else r.candidate? policy := by
    intro r hr
    rw [cruft?, (Stream.mem_rowsOf.1 hr).2]
  rw [decide_eq, referenced, List.filterMap_congr each]
  split
  · simp
  · rfl

/-- A run over a stream in order finds the cruft among its rows. -/
theorem run_eq_filterMap
    (policy : GracePolicy) {rows : List Row}
    (h : Stream.InOrder Row.key rows) :
    ((collector policy).run .start rows).2 =
      .ok (rows.filterMap (cruft? policy rows)) := by
  have hrun : ((collector policy).run .start rows).2 =
      .ok ((Stream.names Row.objectId rows).flatMap fun objectId =>
        (grouping policy).decide objectId
          (Stream.rowsOf Row.objectId objectId rows)) :=
    (grouping policy).groupwise.run_eq_names names_follow_keys h
  have found : ∀ objectId ∈ Stream.names Row.objectId rows,
      (grouping policy).decide objectId
          (Stream.rowsOf Row.objectId objectId rows) =
        (Stream.rowsOf Row.objectId objectId rows).filterMap
          (cruft? policy rows) :=
    fun objectId _ => decide_rowsOf_eq objectId rows
  rw [hrun, List.flatMap_congr found, ← List.filterMap_flatMap,
    Stream.flatMap_rowsOf names_follow_keys h]

theorem isReferenced_iff_mem {rows : List Row} {objectId : String} :
    isReferenced rows objectId ↔ Row.reference objectId ∈ rows := by
  simp only [isReferenced, List.any_eq_true, Bool.and_eq_true,
    decide_eq_true_eq]
  constructor
  · rintro ⟨r, hr, href, rfl⟩
    cases r with
    | reference objectId => exact hr
    | stored objectId storageId owner date => cases href
  · exact fun h => ⟨.reference objectId, h, rfl, rfl⟩

/--
In a stream in order, the files found are those of the rows whose object no row
of the stream refers to, as far as they are past the grace period: each as often
as there are rows of it, in the order of the rows.
-/
theorem run_eq_unreferenced_files
    (policy : GracePolicy) {rows : List Row}
    (h : Stream.InOrder Row.key rows) :
    ((collector policy).run .start rows).2 =
      .ok ((rows.filter fun r => Row.reference r.objectId ∉ rows).filterMap
        (Row.candidate? policy)) := by
  rw [run_eq_filterMap policy h, List.filterMap_filter]
  congr 1
  apply List.filterMap_congr
  intro r _
  rw [cruft?]
  by_cases href : Row.reference r.objectId ∈ rows
  · rw [if_pos (isReferenced_iff_mem.2 href), if_neg (by simpa using href)]
  · rw [if_neg fun hr => href (isReferenced_iff_mem.1 hr),
      if_pos (by simpa using href)]

section Sample

/-- Two files of an object that is referred to, and the files of a lost one, of which one is new. -/
def sampleFiles : List Row :=
  [.stored "kept" "1.stor" "a" (.wholeSecond 1),
    .stored "kept" "2.stor" "a" (.wholeSecond 1),
    .reference "kept",
    .stored "lost" "1.stor" "a" (.wholeSecond 2),
    .stored "lost" "1.stor" "a" (.wholeSecond 2),
    .stored "lost" "2.stor" "b" (.wholeSecond 95),
    .stored "lost" "3.stor" "b" (.wholeSecond 3)]

/-- Of the sample, the old files of the lost object are found. -/
theorem unreferenced_files_of_sample :
    Stream.InOrder Row.key sampleFiles ∧
      ((collector ⟨.wholeSecond 100, 10000000000⟩).run .start sampleFiles).2 =
        .ok [⟨"lost", "1.stor", "a"⟩, ⟨"lost", "1.stor", "a"⟩,
          ⟨"lost", "3.stor", "b"⟩] := by
  have h : Stream.InOrder Row.key sampleFiles := by decide
  refine ⟨h, ?_⟩
  rw [run_eq_unreferenced_files _ h]
  decide

end Sample

end Cruft
end Reclaim
