import Reclaim.Command
import Reclaim.Proofs.Dump.Extraction
import Reclaim.Proofs.Tool.Lines
import Reclaim.Proofs.Wire.Actions

/-!
# Jobs that write one line for each row

The lines of an input contain no newline, and what a row or an action adds to
its texts is printable.  So a job can write further lines only through strings
that it has not read from its lines as they are: strings that the input gives in
JSON, where a newline has an escape, and strings of the configuration.

Main results: a lemma `Tool.linewise_*` for each tool, and from these
`Job.linewise_of_sources`.
-/

namespace Reclaim
namespace Tool

/-- The strings of the rows of a dump. -/
def dumpStrings (input : List UInt8) : List String :=
  (rowsOfDump {} (linesOf input)).flatMap Dump.Row.strings

section Kinds

variable {ρ : Type} {name storageId : String} {write : ρ → String}
variable {texts : ρ → List String} {input : List UInt8} {summary : Summary}

/-- What is extracted is written in lines if all strings it comes from are. -/
theorem linewise_of_dump
    {extract : Dump.Row → Except Defect (List ρ)} (further : List String)
    (line : ∀ r, (∀ str ∈ texts r, Text.OneLine str) → Text.OneLine (write r))
    (known : ∀ row rs, extract row = .ok rs →
      ∀ r ∈ rs, texts r ⊆ further ++ row.strings)
    (oneLine : ∀ str ∈ further ++ dumpStrings input, Text.OneLine str)
    (ran : (ofExtraction name extract write).run input = .ok summary) :
    summary.Linewise := by
  refine linewise_ofExtraction (fun row hrow rs extracted r hr => ?_) ran
  obtain ⟨fineFurther, fineDump⟩ := List.forall_mem_append.1 oneLine
  refine line r fun str hstr => ?_
  rcases List.mem_append.1 (known row rs extracted r hr hstr) with h | h
  · exact fineFurther str h
  · exact fineDump str (List.mem_flatMap.2 ⟨row, hrow, h⟩)

/-- What is listed is written in lines if the id of the storage node is. -/
theorem linewise_of_listing
    {ofListing : Listing → ρ}
    (line : ∀ r, (∀ str ∈ texts r, Text.OneLine str) → Text.OneLine (write r))
    (known : ∀ l, texts (ofListing l) ⊆ [l.storageId, l.owner, l.objectId])
    (oneLine : Text.OneLine storageId)
    (ran : (ofListings name storageId ofListing write).run input = .ok summary) :
    summary.Linewise := by
  refine linewise_ofListings (fun l hl => line _ fun str hstr => ?_) ran
  obtain ⟨read, hread, parsed⟩ := mem_readEach hl
  obtain ⟨hid, howner, hobject⟩ := Listing.texts_of_parse parsed
  have plain := oneLine_of_mem_linesOf hread
  have each : ∀ str ∈ [l.storageId, l.owner, l.objectId],
      Text.OneLine str := by
    simp only [List.forall_mem_cons]
    exact ⟨hid ▸ oneLine, plain.of_subset howner, plain.of_subset hobject,
      List.forall_mem_nil _⟩
  exact each str (known l hstr)

/-- The texts of rows that lines write are on one line. -/
theorem oneLine_of_mem_rowsOf
    {parse : String → Except Defect ρ}
    (part : ∀ (line : String) (r : ρ), parse line = .ok r →
      ∀ str ∈ texts r, str.toList ⊆ line.toList) :
    ∀ r ∈ rowsOf parse (linesOf input),
      ∀ str ∈ texts r, Text.OneLine str := by
  intro r hr str hstr
  obtain ⟨line, hline, parsed⟩ := mem_readEach hr
  exact (oneLine_of_mem_linesOf hline).of_subset
    (part line.text r parsed str hstr)

end Kinds

/-! ## Tools for dumps and listings -/

section Dumps

variable {origin : Dump.Origin} {storageId : String}
variable {input : List UInt8} {summary : Summary}

theorem linewise_decode (ran : decode.run input = .ok summary) :
    summary.Linewise := by
  refine linewise_ofExtraction (fun _ _ _ _ row _ => ?_) ran
  exact (Json.printable_text (.object row)).oneLine

theorem linewise_extractObjects
    (oneLine : ∀ str ∈ origin.shard :: dumpStrings input, Text.OneLine str)
    (ran : (extractObjects origin).run input = .ok summary) :
    summary.Linewise :=
  linewise_of_dump [origin.shard] (fun _ => Object.Row.oneLine_line)
    (fun _ _ => Object.Row.texts_subset_of_ofDump) oneLine ran

theorem linewise_extractUploads
    (oneLine : ∀ str ∈ origin.shard :: dumpStrings input, Text.OneLine str)
    (ran : (extractUploads origin).run input = .ok summary) :
    summary.Linewise :=
  linewise_of_dump [origin.shard] (fun _ => Upload.Record.oneLine_line)
    (fun _ _ => Upload.Record.texts_subset_of_ofDump) oneLine ran

theorem linewise_extractPlacements
    (oneLine : ∀ str ∈ origin.shard :: dumpStrings input, Text.OneLine str)
    (ran : (extractPlacements origin).run input = .ok summary) :
    summary.Linewise :=
  linewise_of_dump [origin.shard] (fun _ => Placement.Row.oneLine_line)
    (fun _ _ => Placement.Row.texts_subset_of_ofDump) oneLine ran

theorem linewise_extractReferences
    (oneLine : ∀ str ∈ dumpStrings input, Text.OneLine str)
    (ran : extractReferences.run input = .ok summary) :
    summary.Linewise :=
  linewise_of_dump [] (fun _ => Cruft.Row.oneLine_line)
    (fun _ _ => Cruft.Row.texts_subset_of_ofDump) oneLine ran

theorem linewise_extractReplicas
    (oneLine : ∀ str ∈ dumpStrings input, Text.OneLine str)
    (ran : extractReplicas.run input = .ok summary) :
    summary.Linewise := by
  -- An object without owner is written with an empty text.
  have orEmpty : ∀ str ∈ "" :: dumpStrings input, Text.OneLine str :=
    List.forall_mem_cons.2 ⟨Text.oneLine_empty, oneLine⟩
  exact linewise_of_dump [""] (fun _ => Audit.Row.oneLine_line)
    (fun _ _ => Audit.Row.texts_subset_of_ofDump) orEmpty ran

theorem linewise_listCruft
    (oneLine : Text.OneLine storageId)
    (ran : (listCruft storageId).run input = .ok summary) :
    summary.Linewise :=
  linewise_of_listing (fun _ => Cruft.Row.oneLine_line)
    (fun l => by simp [Cruft.Row.ofListing, Cruft.Row.texts]) oneLine ran

theorem linewise_listReplicas
    (oneLine : Text.OneLine storageId)
    (ran : (listReplicas storageId).run input = .ok summary) :
    summary.Linewise :=
  linewise_of_listing (fun _ => Audit.Row.oneLine_line)
    (fun l => by simp [Audit.Row.ofListing, Audit.Row.texts]) oneLine ran

end Dumps

/-! ## Tools for sorted rows -/

section Rows

variable {policy : GracePolicy} {input : List UInt8} {summary : Summary}

theorem linewise_collectObjects
    (oneLine : ∀ r ∈ rowsOf Object.Row.parse (linesOf input),
      ∀ str ∈ r.payloadStrings, Text.OneLine str)
    (ran : (collectObjects policy).run input = .ok summary) :
    summary.Linewise := by
  refine linewise_ofEngine (Object.upholds_texts policy Text.oneLine_empty)
    Stream.Grouping.Upholds.holding_start (fun r hr => ?_)
    (fun _ => Object.Action.oneLine_line) ran
  exact List.forall_mem_append.2
    ⟨oneLine_of_mem_rowsOf (fun _ _ => Object.Row.texts_of_parse) r hr,
      oneLine r hr⟩

theorem linewise_collectUploads
    (ran : (collectUploads policy).run input = .ok summary) :
    summary.Linewise :=
  linewise_ofEngine
    (Upload.upholds_records policy
      fun r => ∀ str ∈ r.texts, Text.OneLine str)
    Upload.Collector.holding_start
    (oneLine_of_mem_rowsOf fun _ _ => Upload.Record.texts_of_parse)
    (fun _ => Upload.Record.oneLine_line) ran

theorem linewise_findCruft
    (ran : (findCruft policy).run input = .ok summary) :
    summary.Linewise :=
  linewise_ofEngine (Cruft.upholds_texts policy)
    Stream.Grouping.Upholds.holding_start
    (oneLine_of_mem_rowsOf fun _ _ => Cruft.Row.texts_of_parse)
    (fun _ => Cruft.Action.oneLine_line) ran

theorem linewise_auditReplicas
    (ran : auditReplicas.run input = .ok summary) :
    summary.Linewise :=
  linewise_ofEngine (Audit.upholds_texts Text.oneLine_empty)
    Stream.Grouping.Upholds.holding_start
    (oneLine_of_mem_rowsOf fun _ _ => Audit.Row.texts_of_parse)
    (fun _ => Audit.Finding.oneLine_line) ran

theorem linewise_planMoves
    {digest : String → Nat} {nodes : List Placement.Node}
    {evacuating : List String}
    (named : ∀ n ∈ nodes, Text.OneLine n.storageId)
    (oneLine : ∀ r ∈ rowsOf Placement.Row.parse (linesOf input),
      ∀ str ∈ r.metadata.strings, Text.OneLine str)
    (ran : (planMoves digest (.ofNodes nodes evacuating)).run input =
      .ok summary) :
    summary.Linewise := by
  refine linewise_ofEngine
    (Placement.upholds_texts digest Text.oneLine_empty
      (Placement.nodes_of_ofNodes named))
    trivial (fun r hr => ?_) (fun _ => Placement.Action.oneLine_line) ran
  exact List.forall_mem_append.2
    ⟨oneLine_of_mem_rowsOf (fun _ _ => Placement.Row.texts_of_parse) r hr,
      oneLine r hr⟩

end Rows

end Tool

/-! ## Jobs -/

namespace Job

open Tool

/-- The strings that a job may write and that its lines do not hold as they are. -/
def sources (s : Settings) (input : List UInt8) : Job → List String
  | extractObjects | extractUploads | extractPlacements =>
      s.shard.toList ++ dumpStrings input
  | extractReferences false | extractReplicas false => dumpStrings input
  | extractReferences true | extractReplicas true => s.storageId.toList
  | collectObjects =>
      (rowsOf Object.Row.parse (linesOf input)).flatMap
        Object.Row.payloadStrings
  | planMoves nodes _ =>
      nodes ++ (rowsOf Placement.Row.parse (linesOf input)).flatMap
        fun r => r.metadata.strings
  | decode | collectUploads | findCruft | auditReplicas => []

theorem shard_of_origin
    {s : Settings} {origin : Dump.Origin} (h : s.origin = .ok origin) :
    s.shard = some origin.shard := by
  obtain ⟨shard, hshard, h⟩ := Success.of_bind h
  obtain rfl := Except.ok.inj h
  rw [Settings.requiredShard] at hshard
  split at hshard
  · next given => rw [given, Except.ok.inj hshard]
  · cases hshard

theorem storageId_of_required
    {s : Settings} {storageId : String}
    (h : s.requiredStorageId = .ok storageId) :
    s.storageId = some storageId := by
  rw [Settings.requiredStorageId] at h
  split at h
  · next given => rw [given, Except.ok.inj h]
  · cases h

/-- The id of a storage node is a part of the text that names the node. -/
theorem subset_of_parseNode
    {str : String} {n : Placement.Node} (h : Placement.Node.parse str = .ok n) :
    n.storageId.toList ⊆ str.toList := by
  rw [Placement.Node.parse] at h
  split at h
  · next storageId datacenter hcut =>
      split at h
      · cases h
      · obtain rfl := Except.ok.inj h
        rw [String.toList_ofList]
        exact List.Subset.trans (Text.subset_of_cutLast? hcut)
          (Text.trimBlanks_subset _)
  · cases h

theorem oneLine_of_readNodes
    {texts : List String} {nodes : List Placement.Node}
    (h : readNodes texts = .ok nodes) (oneLine : ∀ str ∈ texts, Text.OneLine str) :
    ∀ n ∈ nodes, Text.OneLine n.storageId := by
  intro n hn
  obtain ⟨str, hstr, parsed⟩ :=
    Success.mem_of_mapM (Success.of_mapError h) n hn
  exact (oneLine str hstr).of_subset (subset_of_parseNode parsed)

/--
A job writes one line for each row or action if the strings that it has not read
from its lines as they are contain no newline.
-/
theorem linewise_of_sources
    {digest : String → Nat} {s : Settings} {now : Time.Instant} {job : Job}
    {t : Tool} {input : List UInt8} {summary : Summary}
    (made : job.tool digest s now = .ok t)
    (ran : t.run input = .ok summary)
    (oneLine : ∀ str ∈ job.sources s input, Text.OneLine str) :
    summary.Linewise := by
  cases job with
  | decode =>
      obtain rfl := Except.ok.inj made
      exact linewise_decode ran
  | extractObjects =>
      obtain ⟨origin, horigin, rfl⟩ := Success.of_map made
      rw [sources, shard_of_origin horigin] at oneLine
      exact linewise_extractObjects oneLine ran
  | extractUploads =>
      obtain ⟨origin, horigin, rfl⟩ := Success.of_map made
      rw [sources, shard_of_origin horigin] at oneLine
      exact linewise_extractUploads oneLine ran
  | extractReferences listing =>
      cases listing with
      | false =>
          obtain rfl := Except.ok.inj made
          exact linewise_extractReferences oneLine ran
      | true =>
          obtain ⟨storageId, hid, rfl⟩ := Success.of_map made
          rw [sources, storageId_of_required hid] at oneLine
          exact linewise_listCruft (oneLine storageId List.mem_cons_self) ran
  | extractReplicas listing =>
      cases listing with
      | false =>
          obtain rfl := Except.ok.inj made
          exact linewise_extractReplicas oneLine ran
      | true =>
          obtain ⟨storageId, hid, rfl⟩ := Success.of_map made
          rw [sources, storageId_of_required hid] at oneLine
          exact linewise_listReplicas (oneLine storageId List.mem_cons_self) ran
  | extractPlacements =>
      obtain ⟨origin, horigin, rfl⟩ := Success.of_map made
      rw [sources, shard_of_origin horigin] at oneLine
      exact linewise_extractPlacements oneLine ran
  | collectObjects =>
      obtain rfl := Except.ok.inj made
      exact linewise_collectObjects
        (fun r hr str hstr => oneLine str (List.mem_flatMap.2 ⟨r, hr, hstr⟩))
        ran
  | collectUploads =>
      obtain rfl := Except.ok.inj made
      exact linewise_collectUploads ran
  | findCruft =>
      obtain ⟨policy, -, rfl⟩ := Success.of_map made
      exact linewise_findCruft ran
  | auditReplicas =>
      obtain rfl := Except.ok.inj made
      exact linewise_auditReplicas ran
  | planMoves nodes evacuating =>
      obtain ⟨ns, hns, rfl⟩ := Success.of_map made
      obtain ⟨hnodes, hmetadata⟩ := List.forall_mem_append.1 oneLine
      exact linewise_planMoves (oneLine_of_readNodes hns hnodes)
        (fun r hr str hstr => hmetadata str (List.mem_flatMap.2 ⟨r, hr, hstr⟩))
        ran

/-- A dump of one object with one replica; its key is given as it stands in JSON. -/
def sampleDump (key : String) : List UInt8 :=
  Text.Utf8.encode
    ("\x7b\"name\":\"manta\",\"keys\":[\"_value\"]\x7d\n"
      ++ "\x7b\"entry\":[\x7b\"key\":\"" ++ key
      ++ "\",\"type\":\"object\",\"objectId\":\"o-1\",\"sharks\":"
      ++ "[\x7b\"manta_storage_id\":\"1.stor\"\x7d]\x7d]\x7d\n").toList

/-- Settings without shard and storage node. -/
def sampleSettings : Settings :=
  ⟨0, none, none, none, none, 1⟩

/-- The tool for expected replicas does not depend on the settings. -/
theorem tool_extractReplicas
    (digest : String → Nat) (s : Settings) (now : Time.Instant) :
    (extractReplicas false).tool digest s now = .ok Tool.extractReplicas :=
  rfl

/-- The expected replica of an object is written on one line. -/
theorem linewise_of_sources_sample :
    (extractReplicas false).tool (fun _ => 0) sampleSettings
        (.wholeSecond 0) = .ok Tool.extractReplicas ∧
      Tool.extractReplicas.run (sampleDump "/a/b") =
        .ok ⟨2, 0, ["o-1\tmoray\t1.stor\t\t/a/b"]⟩ ∧
      (∀ str ∈ (extractReplicas false).sources sampleSettings
          (sampleDump "/a/b"), Text.OneLine str) ∧
      Summary.Linewise ⟨2, 0, ["o-1\tmoray\t1.stor\t\t/a/b"]⟩ := by
  have made := tool_extractReplicas (fun _ => 0) sampleSettings
    (.wholeSecond 0)
  have ran : Tool.extractReplicas.run (sampleDump "/a/b") =
      .ok ⟨2, 0, ["o-1\tmoray\t1.stor\t\t/a/b"]⟩ := by decide +kernel
  have oneLine : ∀ str ∈ (extractReplicas false).sources sampleSettings
      (sampleDump "/a/b"), Text.OneLine str := by decide +kernel
  exact ⟨made, ran, oneLine, linewise_of_sources made ran oneLine⟩

/-- A newline in the key of an object adds a line, here one that is read as a replica. -/
theorem not_linewise_of_sources :
    ¬ ∀ (digest : String → Nat) (s : Settings) (now : Time.Instant) (job : Job)
      (t : Tool) (input : List UInt8) (summary : Summary),
      job.tool digest s now = .ok t → t.run input = .ok summary →
        summary.Linewise := by
  intro claimed
  have made := tool_extractReplicas (fun _ => 0) sampleSettings
    (.wholeSecond 0)
  have ran : Tool.extractReplicas.run
      (sampleDump "/a\\nv-1\\tmoray\\t9.stor\\ta\\t/b") =
        .ok ⟨2, 0, ["o-1\tmoray\t1.stor\t\t/a\nv-1\tmoray\t9.stor\ta\t/b"]⟩ := by
    decide +kernel
  have linewise := claimed _ _ _ _ _ _ _ made ran
  have oneLine := (Summary.linewise_iff _).1 linewise _ List.mem_cons_self
  exact absurd oneLine (by decide)

end Job
end Reclaim
