import Reclaim.Proofs.Tool.Lines
import Reclaim.Proofs.Upload.Refusals

/-!
# How runs of tools end

A tool that runs an engine reads a row from each frame of its input that is the
text of one.  Other frames are counted and have no influence on what is written.
The run fails if the engine refuses a row, and then nothing is written at all;
otherwise it writes what the engine makes of the rows.

The engines refuse rows only if their order is broken, which is fatal.

Main results: `run_ofEngine`, which tells a whole run of a tool from the run of
its engine, `engines_refuse_unsorted` and `engine_tools_allOrNothing`.
-/

namespace Reclaim

namespace Tool

/-! ## Frames -/

section Frames

variable {ρ : Type} (parse : String → Except Defect ρ)

/-- The text of a frame, if it is one. -/
def textOf? (frame : List UInt8) : Option String :=
  (Text.Utf8.decode (withoutReturn frame)).toOption.map String.ofList

/-- The row that a frame holds: it is a text that is not empty and can be parsed. -/
def rowOf? (frame : List UInt8) : Option ρ :=
  match textOf? frame with
  | none => none
  | some text => if text.isEmpty then none else (parse text).toOption

/-- The frame is no text, or one that is not empty and cannot be parsed. -/
def isSpoiled (frame : List UInt8) : Bool :=
  match textOf? frame with
  | none => true
  | some text => !text.isEmpty && !(parse text).isOk

/-- The rows that the frames of an input hold. -/
def rowsIn (input : List UInt8) : List ρ :=
  (frames input).filterMap (rowOf? parse)

end Frames

/-! ## Steps of a run -/

namespace Progress

variable {t : Tool} {p : Progress t} {frame : List UInt8} {s : t.State}

theorem step_of_ok {output : List String}
    (h : t.offerFrame p.state (p.lines + 1) frame = (s, .ok output)) :
    p.step frame = .ok ⟨s, p.lines + 1, p.skipped, p.output ++ output⟩ := by
  simp only [step, h]

theorem step_of_recoverable {fault : Fault}
    (h : t.offerFrame p.state (p.lines + 1) frame = (s, .error fault))
    (recoverable : fault.isFatal = false) :
    p.step frame = .ok ⟨s, p.lines + 1, p.skipped + 1, p.output⟩ := by
  simp [step, h, recoverable]

theorem step_of_fatal {fault : Fault}
    (h : t.offerFrame p.state (p.lines + 1) frame = (s, .error fault))
    (fatal : fault.isFatal) :
    p.step frame = .error fault := by
  simp only [step, h, fatal, if_true]

/-- Frames that are no text are recoverable faults, as those of the engine are. -/
theorem isFatal_of_offerFrame
    (recoverable : ∀ s line fault,
      (t.engine.offer s line).2 = .error fault → fault.isFatal = false)
    {s' : t.State} {number : Nat} {fault : Fault}
    (h : t.offerFrame s number frame = (s', .error fault)) :
    fault.isFatal = false := by
  simp only [offerFrame, decodeLine] at h
  split at h
  · next hline =>
      obtain rfl := Except.error.inj (congrArg Prod.snd h)
      split at hline
      · cases hline
      · obtain rfl := Except.error.inj hline
        rfl
  · exact recoverable _ _ fault (congrArg Prod.snd h)

/-- A run without fatal faults goes through all frames. -/
theorem exists_foldlM
    (recoverable : ∀ s line fault,
      (t.engine.offer s line).2 = .error fault → fault.isFatal = false)
    (fs : List (List UInt8)) (p : Progress t) :
    ∃ p', fs.foldlM step p = .ok p' := by
  induction fs generalizing p with
  | nil => exact ⟨p, rfl⟩
  | cons f fs ih =>
      have first : ∃ q, p.step f = .ok q := by
        rcases hanswer : t.offerFrame p.state (p.lines + 1) f with
          ⟨s, fault | output⟩
        · exact ⟨_, step_of_recoverable hanswer
            (isFatal_of_offerFrame recoverable hanswer)⟩
        · exact ⟨_, step_of_ok hanswer⟩
      obtain ⟨q, hq⟩ := first
      obtain ⟨p', hp'⟩ := ih q
      exact ⟨p', by rw [List.foldlM_cons, hq]; exact hp'⟩

end Progress

section Steps

variable {σ ρ α : Type} {name : String} {start : σ} {e : Stream.Engine σ ρ α}
variable {parse : String → Except Defect ρ} {write : α → String}

/-- A frame is empty, or it is spoiled, or the engine is offered its row. -/
theorem offerFrame_ofEngine
    (parse : String → Except Defect ρ) (write : α → String) (s : σ)
    (number : Nat) (frame : List UInt8) :
    let answer := (ofEngine name start e parse write).offerFrame s number frame
    (rowOf? parse frame = none ∧ isSpoiled parse frame = false ∧
        answer = (s, .ok [])) ∨
      (rowOf? parse frame = none ∧ isSpoiled parse frame = true ∧
        ∃ d, answer = (s, .error (.malformed number d))) ∨
      ∃ r, rowOf? parse frame = some r ∧ isSpoiled parse frame = false ∧
        answer = ((e.offer s r).1, (e.offer s r).2.map (·.map write)) := by
  rcases hdecode : Text.Utf8.decode (withoutReturn frame) with d | cs
  · have htext : textOf? frame = none := by
      rw [textOf?, hdecode]
      rfl
    refine .inr (.inl ⟨by rw [rowOf?, htext], by rw [isSpoiled, htext], ?_⟩)
    refine ⟨.notUtf8 d, ?_⟩
    simp only [offerFrame, decodeLine, hdecode]
    rfl
  · have htext : textOf? frame = some (String.ofList cs) := by
      rw [textOf?, hdecode]
      rfl
    simp only [rowOf?, isSpoiled, htext, offerFrame, decodeLine, hdecode,
      ofEngine, overRows]
    by_cases hempty : (String.ofList cs).isEmpty
    · simp [hempty]
    · cases hparse : parse (String.ofList cs) with
      | error d =>
          simp [hempty, Except.toOption, Except.isOk, Except.toBool]
      | ok r =>
          simp [hempty, Except.toOption, Except.isOk, Except.toBool]

variable {p : Progress (ofEngine name start e parse write)}
variable {frame : List UInt8}

/-- A frame that holds no row is counted, and that is all. -/
theorem step_of_no_row (h : rowOf? parse frame = none) :
    p.step frame = .ok
      { p with
        lines := p.lines + 1
        skipped := p.skipped + if isSpoiled parse frame then 1 else 0 } := by
  rcases offerFrame_ofEngine parse write p.state (p.lines + 1) frame with
    ⟨-, hsound, hanswer⟩ | ⟨-, hspoiled, d, hanswer⟩ | ⟨r, hrow, -⟩
  · rw [hsound]
    refine (Progress.step_of_ok hanswer).trans ?_
    simp
    rfl
  · rw [hspoiled]
    exact Progress.step_of_recoverable hanswer rfl
  · rw [h] at hrow
    cases hrow

/-- The engine is offered the row that a frame holds. -/
theorem offerFrame_of_row {r : ρ} (h : rowOf? parse frame = some r) :
    isSpoiled parse frame = false ∧
      (ofEngine name start e parse write).offerFrame p.state (p.lines + 1)
          frame =
        ((e.offer p.state r).1, (e.offer p.state r).2.map (·.map write)) := by
  rcases offerFrame_ofEngine parse write p.state (p.lines + 1) frame with
    ⟨hrow, -⟩ | ⟨hrow, -⟩ | ⟨r', hrow, hsound, hanswer⟩
  · rw [h] at hrow
    cases hrow
  · rw [h] at hrow
    cases hrow
  · rw [h] at hrow
    obtain rfl := Option.some.inj hrow
    exact ⟨hsound, hanswer⟩

/-- Steps over frames whose rows are all taken succeed. -/
theorem foldlM_of_feed_ok
    {fs : List (List UInt8)} {s : σ} {actions : List α}
    (h : e.feed p.state (fs.filterMap (rowOf? parse)) = (s, .ok actions)) :
    fs.foldlM Progress.step p =
      .ok ⟨s, p.lines + fs.length, p.skipped + fs.countP (isSpoiled parse),
        p.output ++ actions.map write⟩ := by
  induction fs generalizing p actions with
  | nil =>
      obtain ⟨hstate, hactions⟩ := Prod.mk.inj h
      obtain rfl : p.state = s := hstate
      obtain rfl := Except.ok.inj hactions
      have houtput : p.output ++ ([] : List α).map write = p.output := by
        simp
      rw [houtput]
      rfl
  | cons f fs ih =>
      have hlines : p.lines + (fs.length + 1) = p.lines + 1 + fs.length := by
        omega
      rw [List.foldlM_cons, List.length_cons, List.countP_cons, hlines]
      cases hrow : rowOf? parse f with
      | none =>
          rw [List.filterMap_cons_none hrow] at h
          rw [step_of_no_row hrow, Nat.add_comm (fs.countP _), ← Nat.add_assoc]
          exact ih h
      | some r =>
          rw [List.filterMap_cons_some hrow] at h
          obtain ⟨s₁, first, rest, hoffer, hfeed, rfl⟩ :=
            Stream.Engine.feed_cons_eq_ok h
          obtain ⟨sound, hanswer⟩ := offerFrame_of_row hrow
          rw [hoffer] at hanswer
          have houtput : p.output ++ first.map write ++ rest.map write =
              p.output ++ (first ++ rest).map write := by
            simp [← Array.toList_inj]
          rw [Progress.step_of_ok hanswer, sound, ← houtput]
          exact ih hfeed

/-- Steps over frames end with the row that is refused. -/
theorem foldlM_of_feed_error
    (fatally : e.RefusesFatally) {fs : List (List UInt8)} {s : σ}
    {fault : Fault}
    (h : e.feed p.state (fs.filterMap (rowOf? parse)) = (s, .error fault)) :
    fs.foldlM Progress.step p = .error fault := by
  induction fs generalizing p with
  | nil => cases h
  | cons f fs ih =>
      rw [List.foldlM_cons]
      cases hrow : rowOf? parse f with
      | none =>
          rw [List.filterMap_cons_none hrow] at h
          rw [step_of_no_row hrow]
          exact ih h
      | some r =>
          rw [List.filterMap_cons_some hrow] at h
          obtain ⟨-, hanswer⟩ := offerFrame_of_row hrow
          rcases Stream.Engine.feed_cons_eq_error h with
            hoffer | ⟨s₁, first, hoffer, hfeed⟩
          · have hfatal := fatally p.state r fault (congrArg Prod.snd hoffer)
            rw [hoffer] at hanswer
            rw [Progress.step_of_fatal hanswer hfatal]
            rfl
          · rw [hoffer] at hanswer
            rw [Progress.step_of_ok hanswer]
            exact ih hfeed

/-- A run of a tool is the run of its engine over the rows that the input holds. -/
theorem run_ofEngine (fatally : e.RefusesFatally) (input : List UInt8) :
    (ofEngine name start e parse write).run input =
      (e.run start (rowsIn parse input)).2.map fun actions =>
        ⟨(frames input).length, (frames input).countP (isSpoiled parse),
          actions.map write⟩ := by
  rw [Tool.run, Stream.Engine.run, rowsIn]
  cases hfeed : e.feed start ((frames input).filterMap (rowOf? parse)) with
  | mk s answer =>
      cases answer with
      | error fault =>
          rw [foldlM_of_feed_error fatally hfeed]
          rfl
      | ok actions =>
          rw [foldlM_of_feed_ok hfeed]
          simp [Progress.start, ofEngine, overRows, Bind.bind, Except.bind,
            Except.map]

/-- A run of a tool fails as the run of its engine does. -/
theorem run_ofEngine_eq_error_iff
    (fatally : e.RefusesFatally) {input : List UInt8} {fault : Fault} :
    (ofEngine name start e parse write).run input = .error fault ↔
      (e.run start (rowsIn parse input)).2 = .error fault := by
  rw [run_ofEngine fatally]
  cases (e.run start (rowsIn parse input)).2 with
  | error f => simp [Except.map]
  | ok actions => simp [Except.map]

end Steps

/-! ## Dumps and listings -/

section Extraction

variable {ρ : Type} (name storageId : String) (write : ρ → String)

/-- A decoder of dumps has recoverable faults only. -/
theorem isFatal_of_decodeLine
    {d d' : Dump.Decoder} {line : String} {fault : Fault}
    (h : d.decodeLine line = (d', .error fault)) : fault.isFatal = false := by
  simp only [Dump.Decoder.decodeLine] at h
  split at h
  · cases h
  · cases h
  · cases h
  · obtain rfl := Except.error.inj (congrArg Prod.snd h)
    rfl

/-- An extraction from a dump has recoverable faults only. -/
theorem isFatal_of_offer_ofExtraction
    (extract : Dump.Row → Except Defect (List ρ))
    (d : (ofExtraction name extract write).State) (line : Line) (fault : Fault)
    (h : ((ofExtraction name extract write).engine.offer d line).2 = .error fault) :
    fault.isFatal = false := by
  simp only [ofExtraction, extraction] at h
  split at h
  · next hdecode =>
      obtain rfl := Except.error.inj h
      exact isFatal_of_decodeLine hdecode
  · cases h
  · split at h
    · obtain rfl := Except.error.inj h
      rfl
    · cases h

end Extraction

/-! ## Engines -/

/--
The engines for sorted rows refuse exactly the rows that come before the last
one taken, and a refused row leaves no trace, except that it is counted among
the records of uploads.
-/
theorem engines_refuse_unsorted (policy : GracePolicy) :
    (Object.collector policy).RefusesUnsorted .start Object.Row.key
        (fun _ => Stream.Guard.refusal Object.Row.key) (fun s => s) ∧
      (Cruft.collector policy).RefusesUnsorted .start Cruft.Row.key
        (fun _ => Stream.Guard.refusal Cruft.Row.key) (fun s => s) ∧
      Audit.auditor.RefusesUnsorted .start Audit.Row.key
        (fun _ => Stream.Guard.refusal Audit.Row.key) (fun s => s) ∧
      (Upload.collector policy).RefusesUnsorted .start Upload.Record.sortKey
        Upload.refusal Upload.Collector.withoutRecords ∧
      ∀ records,
        ((Upload.collector policy).endAfter .start records).1.counts.records =
          records.length :=
  ⟨(Object.grouping policy).guardsOrder.refusesUnsorted
      (Object.grouping policy).traceless,
    (Cruft.grouping policy).guardsOrder.refusesUnsorted
      (Cruft.grouping policy).traceless,
    Audit.grouping.guardsOrder.refusesUnsorted Audit.grouping.traceless,
    (Upload.guardsOrder_collector policy).refusesUnsorted
      (Upload.traceless_collector policy),
    Upload.records_endAfter policy⟩

theorem refusesFatally_planner
    (digest : String → Nat) (v : Placement.Inventory) :
    (Placement.planner digest v).RefusesFatally := by
  intro n row fault h
  cases h

/-! ## Tools -/

/-- The bytes that a run writes; a run that fails writes none. -/
def written (t : Tool) (input : List UInt8) : List UInt8 :=
  match t.run input with
  | .ok summary => summary.bytes
  | .error _ => []

/--
A tool over the rows of an engine fails as a whole, with a fatal fault and
without output, exactly if the engine refuses a row after it has taken those
before; otherwise it writes the actions of the engine.  Frames that hold no row
are counted, and they change neither whether a run fails nor what it writes.
-/
structure AllOrNothing {σ ρ α : Type} (t : Tool) (start : σ)
    (e : Stream.Engine σ ρ α) (parse : String → Except Defect ρ)
    (write : α → String) : Prop where
  fails_iff : ∀ input fault, t.run input = .error fault ↔
    ∃ before r after s actions, rowsIn parse input = before ++ r :: after ∧
      e.feed start before = (s, .ok actions) ∧ (e.offer s r).2 = .error fault
  fails : ∀ input fault, t.run input = .error fault →
    fault.isFatal ∧ t.written input = []
  succeeds : ∀ input summary, t.run input = .ok summary →
    ∃ actions, (e.run start (rowsIn parse input)).2 = .ok actions ∧
      summary.output = actions.map write ∧
      summary.lines = (frames input).length ∧
      summary.skipped = (frames input).countP (isSpoiled parse) ∧
      summary.emitted = actions.length ∧
      t.written input =
        Text.Utf8.encode (outputText (actions.map write)).toList
  unaffected : ∀ input input',
    ((frames input).filter fun f => (rowOf? parse f).isSome) =
        ((frames input').filter fun f => (rowOf? parse f).isSome) →
      (t.run input).map Summary.output = (t.run input').map Summary.output

section AllOrNothing

variable {σ ρ α : Type} {name : String} {start : σ} {e : Stream.Engine σ ρ α}
variable {parse : String → Except Defect ρ} {write : α → String}

/-- Frames without rows add nothing to the rows of an input. -/
theorem rowsIn_eq_of_filter_eq
    {input input' : List UInt8}
    (h : ((frames input).filter fun f => (rowOf? parse f).isSome) =
      ((frames input').filter fun f => (rowOf? parse f).isSome)) :
    rowsIn parse input = rowsIn parse input' := by
  have kept : ∀ fs : List (List UInt8), fs.filterMap (rowOf? parse) =
      (fs.filter fun f => (rowOf? parse f).isSome).filterMap (rowOf? parse) := by
    intro fs
    rw [List.filterMap_filter]
    congr 1
    funext f
    cases rowOf? parse f <;> rfl
  rw [rowsIn, rowsIn, kept, h, ← kept]

theorem allOrNothing_ofEngine (fatally : e.RefusesFatally) :
    AllOrNothing (ofEngine name start e parse write) start e parse write where
  fails_iff input fault :=
    (run_ofEngine_eq_error_iff fatally).trans Stream.Engine.run_eq_error_iff
  fails input fault h := by
    refine ⟨?_, by rw [written, h]⟩
    obtain ⟨-, r, -, s, -, -, -, hrefused⟩ :=
      Stream.Engine.run_eq_error_iff.1 ((run_ofEngine_eq_error_iff fatally).1 h)
    exact fatally s r fault hrefused
  succeeds input summary h := by
    have hwritten : (ofEngine name start e parse write).written input =
        summary.bytes := by rw [written, h]
    rw [run_ofEngine fatally] at h
    obtain ⟨actions, hactions, rfl⟩ := Success.of_map h
    exact ⟨actions, hactions, rfl, rfl, rfl, List.length_map _, hwritten⟩
  unaffected input input' h := by
    rw [run_ofEngine fatally, run_ofEngine fatally, rowsIn_eq_of_filter_eq h]
    cases (e.run start (rowsIn parse input')).2 <;> rfl

end AllOrNothing

/-- Each tool for sorted rows is all-or-nothing and isolates the lines that hold no row. -/
theorem engine_tools_allOrNothing
    (policy : GracePolicy) (digest : String → Nat) (v : Placement.Inventory) :
    AllOrNothing (collectObjects policy) .start (Object.collector policy)
        Object.Row.parse Object.Action.line ∧
      AllOrNothing (collectUploads policy) .start (Upload.collector policy)
        Upload.Record.parse Upload.Record.line ∧
      AllOrNothing (findCruft policy) .start (Cruft.collector policy)
        Cruft.Row.parse Cruft.Action.line ∧
      AllOrNothing auditReplicas .start Audit.auditor Audit.Row.parse
        Audit.Finding.line ∧
      AllOrNothing (planMoves digest v) {} (Placement.planner digest v)
        Placement.Row.parse Placement.Action.line :=
  ⟨allOrNothing_ofEngine (Object.grouping policy).refusesFatally,
    allOrNothing_ofEngine (Upload.refusesFatally_collector policy),
    allOrNothing_ofEngine (Cruft.grouping policy).refusesFatally,
    allOrNothing_ofEngine Audit.grouping.refusesFatally,
    allOrNothing_ofEngine (refusesFatally_planner digest v)⟩

end Tool
end Reclaim
