import Reclaim.Proofs.Audit.Findings
import Reclaim.Proofs.Cruft.Files
import Reclaim.Proofs.Object.Actions
import Reclaim.Proofs.Routing.Keys
import Reclaim.Proofs.Routing.Lines
import Reclaim.Proofs.Stream.Parts

/-!
# Tools on the outputs of a router

A router shares out lines by their keys.  If the key of a line is the name of
its row, an output gets all rows of some names, in their order.  An engine that
works groupwise makes of them what it makes of all lines, as far as it is about
these names.

Main results: `shares_eq` and `engines_run_on_shares`.
-/

namespace Reclaim
namespace Routing

/-! ## Shares of lines -/

namespace Router

/-- The output for a key. -/
def outputOf (r : Router) (key : String) : Nat :=
  r.select key r.outputs % r.outputs

/-- The lines that are sent to each output. -/
def shares (r : Router) (lines : List String) : List (List String) :=
  linesOf (r.sendAll r.start (lines.map .ok)).1

/-- Sends lines by their first field between tabs, spread by a digest. -/
def byFirstField (digest : String → Nat) (outputs : Nat)
    (positive : 0 < outputs) : Router :=
  ⟨outputs, positive, (KeyPart.field 0 "\t").extract, selectByDigest digest⟩

variable {r : Router} {lines : List String}

/-- Each output gets the lines that are routed there, in their order. -/
theorem shares_eq
    (plain : ∀ l ∈ lines, Text.Plain l) {i : Nat} (hi : i < r.outputs) :
    (r.shares lines)[i]? = some (lines.filter fun l => r.route l = i) := by
  rw [shares, sendAll_ok, linesOf, List.getElem?_map, getElem?_foldl_send,
    map_withoutEnd plain, start, List.getElem?_replicate_of_lt hi]
  simp

end Router

/-! ## Runs on shares -/

section Runs

variable {σ ρ α β : Type}

/--
If a tool succeeds on all lines, it succeeds on the lines of every output, and
writes there the actions of the whole run whose owner is routed to the output.
-/
def RunsOnShares (t : Tool) (start : σ) (e : Stream.Engine σ ρ α)
    (parse : String → Except Defect ρ) (write : α → String)
    (owner : α → String) (r : Router) (lines : List String) : Prop :=
  ∀ summary, t.run (Tool.bytesOf lines) = .ok summary →
    ∃ actions,
      (e.run start (Tool.rowsIn parse (Tool.bytesOf lines))).2 = .ok actions ∧
      summary.output = actions.map write ∧
      ∀ i < r.outputs, ∃ share part,
        (r.shares lines)[i]? = some share ∧
        t.run (Tool.bytesOf share) = .ok part ∧
        part.output =
          (actions.filter fun a => r.outputOf (owner a) = i).map write

variable {start : σ} {e : Stream.Engine σ ρ α}
variable {parse : String → Except Defect ρ} {write : α → String}
variable {r : Router} {lines : List String} {name : ρ → β}

/-- The rows of the lines of an output are those whose names are routed there. -/
theorem rows_of_share
    {text : β → String}
    (keyed : ∀ l ∈ lines, ∀ row, parse l = .ok row → r.key l = text (name row))
    (i : Nat) :
    (lines.filter fun l => r.route l = i).filterMap (Tool.rowOfLine? parse) =
      (lines.filterMap (Tool.rowOfLine? parse)).filter fun row =>
        r.outputOf (text (name row)) = i := by
  induction lines with
  | nil => rfl
  | cons l lines ih =>
      obtain ⟨keyedL, keyedLines⟩ := List.forall_mem_cons.1 keyed
      cases hrow : Tool.rowOfLine? parse l with
      | none =>
          rw [List.filterMap_cons_none hrow, ← ih keyedLines, List.filter_cons]
          split
          · rw [List.filterMap_cons_none hrow]
          · rfl
      | some row =>
          have hroute : r.route l = r.outputOf (text (name row)) := by
            rw [Router.route, keyedL row (Tool.parse_of_rowOfLine? hrow),
              Router.outputOf]
          rw [List.filterMap_cons_some hrow, List.filter_cons,
            List.filter_cons, hroute, ← ih keyedLines]
          split
          · rw [List.filterMap_cons_some hrow]
          · rfl

/-- A tool runs on shares if its engine works groupwise and guards the order of its rows. -/
theorem runsOnShares_ofEngine
    {κ : Type} [Stream.SortKey κ] [Stream.SortKey β] [DecidableEq β]
    [Std.TransOrd κ] [Std.TransOrd β] [Std.LawfulEqOrd β]
    {key : ρ → κ} {decide : β → List ρ → List α}
    {After : ρ → List ρ → σ → Prop} {fault : List ρ → ρ → ρ → Fault}
    {Seen : List ρ → σ → Prop} {toolName : String}
    (text : β → String) (owner : α → β)
    (fatally : e.RefusesFatally)
    (guards : e.GuardsOrder start key fault Seen)
    (groupwise : e.Groupwise start key name decide After)
    (names : Stream.NamesFollow key name)
    (owned : ∀ b rows, ∀ a ∈ decide b (Stream.rowsOf name b rows), owner a = b)
    (plain : ∀ l ∈ lines, Text.Plain l)
    (keyed : ∀ l ∈ lines, ∀ row, parse l = .ok row →
      r.key l = text (name row)) :
    RunsOnShares (Tool.ofEngine toolName start e parse write) start e parse
      write (fun a => text (owner a)) r lines := by
  intro summary h
  rw [Tool.run_ofEngine fatally] at h
  obtain ⟨actions, hactions, rfl⟩ := Success.of_map h
  refine ⟨actions, hactions, rfl, ?_⟩
  intro i hi
  let share := lines.filter fun l => r.route l = i
  have hshare : ∀ l ∈ share, Text.Plain l :=
    fun l hl => plain l (List.mem_filter.1 hl).1
  have hpart : (Tool.ofEngine toolName start e parse write).run
      (Tool.bytesOf share) = _ := Tool.run_ofEngine fatally _
  have hrun := groupwise.run_filter names (guards.inOrder_of_run hactions)
    (fun b => owned b _) hactions fun b => r.outputOf (text b) = i
  rw [Tool.rowsIn_bytesOf plain, ← rows_of_share keyed,
    ← Tool.rowsIn_bytesOf hshare] at hrun
  rw [hrun] at hpart
  exact ⟨share, _, Router.shares_eq plain hi, hpart, rfl⟩

end Runs

end Routing

/-! ## Owners of actions -/

namespace Upload

variable {policy : GracePolicy} {records : List Record} {r : Record}

/-- What is cleaned up are some of the records. -/
theorem mem_of_mem_cleanupsOf (h : r ∈ cleanupsOf policy records) :
    r ∈ records := by
  unfold cleanupsOf at h
  simp only at h
  split at h
  · rcases List.mem_append.1 h with h | h
    · rcases List.mem_append.1 h with h | h
      · exact (List.mem_filter.1 h).1
      · exact (List.mem_filter.1 h).1
    · exact (List.mem_filter.1 h).1
  · cases h

/-- What is cleaned up of an upload are its own records. -/
theorem upload_of_mem_handedOut
    {upload : Uuid}
    (h : r ∈ (handedOut policy upload (recordsOf upload records)).flatMap
      Verified.cleanups) :
    r.upload = upload := by
  rw [cleanups_handedOut_eq] at h
  exact (Stream.mem_rowsOf.1 (mem_of_mem_cleanupsOf h)).2

end Upload

namespace Routing

/--
Lines can be routed by their first field before the engines run on them, for any
digest and any number of outputs: each output then holds, in their order, the
actions about the objects or uploads that are routed there.
-/
theorem engines_run_on_shares
    (digest : String → Nat) {outputs : Nat} (positive : 0 < outputs)
    (policy : GracePolicy) {lines : List String}
    (plain : ∀ l ∈ lines, Text.Plain l) :
    let r := Router.byFirstField digest outputs positive
    RunsOnShares (Tool.collectObjects policy) .start (Object.collector policy)
        Object.Row.parse Object.Action.line Object.Action.objectId r lines ∧
      RunsOnShares (Tool.findCruft policy) .start (Cruft.collector policy)
        Cruft.Row.parse Cruft.Action.line Cruft.Action.objectId r lines ∧
      RunsOnShares Tool.auditReplicas .start Audit.auditor Audit.Row.parse
        Audit.Finding.line Audit.Finding.objectId r lines ∧
      ((∀ l ∈ lines, ∃ u : Uuid, Text.firstField '\t' l = u.text) →
        RunsOnShares (Tool.collectUploads policy) .start
          (Upload.collector policy) Upload.Record.parse Upload.Record.line
          (fun a => a.upload.text) r lines) := by
  intro r
  have first : ∀ l, r.key l = Text.firstField '\t' l := extract_first_field
  refine ⟨?_, ?_, ?_, ?_⟩
  · exact runsOnShares_ofEngine id Object.Action.objectId
      (Object.grouping policy).refusesFatally
      (Object.grouping policy).guardsOrder (Object.grouping policy).groupwise
      Object.names_follow_keys
      (fun _ _ _ ha => Object.objectId_of_mem_actionsOf ha) plain
      fun l _ row h => (first l).trans (Object.Row.objectId_of_parse h).symm
  · exact runsOnShares_ofEngine id Cruft.Action.objectId
      (Cruft.grouping policy).refusesFatally
      (Cruft.grouping policy).guardsOrder (Cruft.grouping policy).groupwise
      Cruft.names_follow_keys
      (fun _ _ _ ha => Cruft.objectId_of_mem_decide ha) plain
      fun l _ row h => (first l).trans (Cruft.Row.objectId_of_parse h).symm
  · exact runsOnShares_ofEngine id Audit.Finding.objectId
      Audit.grouping.refusesFatally
      Audit.grouping.guardsOrder Audit.grouping.groupwise
      Audit.names_follow_keys
      (fun _ _ _ ha => Audit.objectId_of_mem_decide ha) plain
      fun l _ row h => (first l).trans (Audit.Row.objectId_of_parse h).symm
  · intro canonical
    refine runsOnShares_ofEngine Uuid.text Upload.Record.upload
      (Upload.refusesFatally_collector policy)
      (Upload.guardsOrder_collector policy)
      ((Upload.batches_groupwise policy).thenEach Upload.Verified.cleanups)
      Upload.uploads_follow_keys
      (fun _ _ _ ha => Upload.upload_of_mem_handedOut ha) plain ?_
    intro l hl record h
    obtain ⟨u, hu⟩ := canonical l hl
    have hparse := Upload.Record.upload_of_parse h
    rw [hu, Uuid.parse?_text] at hparse
    rw [first l, hu, Option.some.inj hparse]

section Sample

/-- The record that an upload was committed. -/
def sampleCommit : Upload.Record :=
  Upload.sampleFinalizing ⟨3, by decide⟩ 1

/-- The directory of the upload. -/
def sampleDirectory : Upload.Record :=
  .live ⟨sampleCommit.upload, "a/u", .wholeSecond 2, .directory⟩

/-- The record that another upload was committed. -/
def otherCommit : Upload.Record :=
  Upload.sampleFinalizing (.last 15) 1

/-- Tells the two uploads apart. -/
def sampleDigest (key : String) : Nat :=
  if key.toList.head? = some '3' then 1 else 0

/-- Everything older than ten seconds is given up. -/
def samplePolicy : GracePolicy :=
  ⟨.wholeSecond 100, 10000000000⟩

/-- Of two outputs, the second gives the cleanups of the first upload. -/
theorem sample_uploads_run_on_shares :
    let lines :=
      [sampleCommit, sampleDirectory, otherCommit].map Upload.Record.line
    let r := Router.byFirstField sampleDigest 2 (by decide)
    ∃ share part, (r.shares lines)[1]? = some share ∧
      (Tool.collectUploads samplePolicy).run (Tool.bytesOf share) = .ok part ∧
      part.output =
        [sampleDirectory, sampleCommit].map Upload.Record.line := by
  intro lines r
  have plain : ∀ l ∈ lines, Text.Plain l := by decide +kernel
  have canonical : ∀ l ∈ lines,
      ∃ u : Uuid, Text.firstField '\t' l = u.text := by
    intro l hl
    obtain ⟨record, -, rfl⟩ := List.mem_map.1 hl
    exact ⟨record.upload, record.firstField_line⟩
  have cleanups : ((Upload.collector samplePolicy).run .start
      (Tool.rowsIn Upload.Record.parse (Tool.bytesOf lines))).2 =
        .ok [sampleDirectory, sampleCommit, otherCommit] := by
    rw [Tool.rowsIn_bytesOf plain]
    decide +kernel
  have whole : (Tool.collectUploads samplePolicy).run (Tool.bytesOf lines) = _ :=
    Tool.run_ofEngine (Upload.refusesFatally_collector samplePolicy) _
  rw [cleanups] at whole
  obtain ⟨-, -, -, uploads⟩ := engines_run_on_shares sampleDigest
    (by decide : 0 < 2) samplePolicy plain
  obtain ⟨actions, hactions, -, shares⟩ := uploads canonical _ whole
  obtain ⟨share, part, hshare, hpart, houtput⟩ := shares 1 Nat.one_lt_two
  rw [cleanups] at hactions
  obtain rfl := Except.ok.inj hactions
  exact ⟨share, part, hshare, hpart, houtput.trans (by decide +kernel)⟩

end Sample

end Routing
end Reclaim
