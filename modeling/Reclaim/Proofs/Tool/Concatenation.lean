import Reclaim.Proofs.Tool.Outcome

/-!
# Dumps one after the other

A decoder of dumps keeps one thing that matters for later lines, the last header
that it could read.  Whether a line is a header does not depend on the headers
before it, and a line that is rejected, for whatever reason, is none.  So what
is made of a line is told from the line and the last header before it, and an
input that begins with a header of its own is read as if nothing stood before
it.

Main results: `run_of_recoverable`, which tells a run from the readings of its
frames, `readings_ofExtraction`, which tells these from the headers, and
`dump_tools_join`.
-/

namespace Reclaim

/-- The fault without the number of its line. -/
def Fault.unnumbered : Fault → Fault
  | malformed _ d => malformed 0 d
  | fault => fault

namespace Tool

/-! ## Readings -/

section Readings

variable {t : Tool}

/-- What a tool answers to frames one after the other, also after faults. -/
def answersFrom (t : Tool) (s : t.State) (number : Nat) :
    List (List UInt8) → List (Except Fault (List String))
  | [] => []
  | f :: fs =>
      let (s, answer) := t.offerFrame s (number + 1) f
      answer :: t.answersFrom s (number + 1) fs

/-- What a tool makes of each frame; where a fault is does not count. -/
def readings (t : Tool) (fs : List (List UInt8)) :
    List (Except Fault (List String)) :=
  (t.answersFrom t.start 0 fs).map fun answer => answer.mapError Fault.unnumbered

/-- The number of refusals. -/
def refusals (answers : List (Except Fault (List String))) : Nat :=
  answers.countP fun answer => !answer.isOk

/-- The lines that are written. -/
def linesIn (answers : List (Except Fault (List String))) : List String :=
  answers.flatMap fun answer => answer.toOption.getD []

@[simp] theorem refusals_cons_error (fault : Fault)
    (answers : List (Except Fault (List String))) :
    refusals (.error fault :: answers) = refusals answers + 1 :=
  List.countP_cons_of_pos rfl

@[simp] theorem refusals_cons_ok (output : List String)
    (answers : List (Except Fault (List String))) :
    refusals (.ok output :: answers) = refusals answers :=
  List.countP_cons_of_neg Bool.false_ne_true

@[simp] theorem linesIn_cons_error (fault : Fault)
    (answers : List (Except Fault (List String))) :
    linesIn (.error fault :: answers) = linesIn answers := rfl

@[simp] theorem linesIn_cons_ok (output : List String)
    (answers : List (Except Fault (List String))) :
    linesIn (.ok output :: answers) = output ++ linesIn answers := rfl

theorem refusals_append (answers more : List (Except Fault (List String))) :
    refusals (answers ++ more) = refusals answers + refusals more :=
  List.countP_append

theorem linesIn_append (answers more : List (Except Fault (List String))) :
    linesIn (answers ++ more) = linesIn answers ++ linesIn more :=
  List.flatMap_append

theorem refusals_mapError (answers : List (Except Fault (List String)))
    (f : Fault → Fault) :
    refusals (answers.map fun answer => answer.mapError f) = refusals answers := by
  rw [refusals, List.countP_map]
  congr 1
  funext answer
  cases answer <;> rfl

theorem linesIn_mapError (answers : List (Except Fault (List String)))
    (f : Fault → Fault) :
    linesIn (answers.map fun answer => answer.mapError f) = linesIn answers := by
  rw [linesIn, List.flatMap_map]
  congr 1
  funext answer
  cases answer <;> rfl

theorem foldlM_of_recoverable
    (recoverable : ∀ s line fault,
      (t.engine.offer s line).2 = .error fault → fault.isFatal = false)
    (fs : List (List UInt8)) (p : Progress t) :
    ∃ s, fs.foldlM Progress.step p =
      .ok ⟨s, p.lines + fs.length,
        p.skipped + refusals (t.answersFrom p.state p.lines fs),
        p.output ++ linesIn (t.answersFrom p.state p.lines fs)⟩ := by
  induction fs generalizing p with
  | nil => exact ⟨p.state, by simp [answersFrom, refusals, linesIn]; rfl⟩
  | cons f fs ih =>
      have hlines : p.lines + (fs.length + 1) = p.lines + 1 + fs.length := by
        omega
      rw [List.foldlM_cons, List.length_cons, hlines]
      rcases hanswer : t.offerFrame p.state (p.lines + 1) f with ⟨s, fault | output⟩
      · obtain ⟨last, hrest⟩ := ih ⟨s, p.lines + 1, p.skipped + 1, p.output⟩
        rw [Progress.step_of_recoverable hanswer
          (Progress.isFatal_of_offerFrame recoverable hanswer)]
        refine ⟨last, hrest.trans ?_⟩
        simp [answersFrom, hanswer, Nat.add_assoc, Nat.add_comm 1]
      · obtain ⟨last, hrest⟩ := ih ⟨s, p.lines + 1, p.skipped, p.output ++ output⟩
        rw [Progress.step_of_ok hanswer]
        refine ⟨last, hrest.trans ?_⟩
        simp [answersFrom, hanswer, ← Array.toList_inj]

/-- A run without fatal faults is told from the readings of the frames. -/
theorem run_of_recoverable
    (recoverable : ∀ s line fault,
      (t.engine.offer s line).2 = .error fault → fault.isFatal = false)
    (finish : ∀ s, (t.engine.finish s).2 = []) (input : List UInt8) :
    t.run input =
      .ok ⟨(frames input).length, refusals (t.readings (frames input)),
        linesIn (t.readings (frames input))⟩ := by
  obtain ⟨s, hfold⟩ := foldlM_of_recoverable recoverable (frames input) (.start t)
  rw [run, hfold, readings, refusals_mapError, linesIn_mapError]
  simp [Bind.bind, Except.bind, Progress.start, finish]

end Readings

/-! ## Headers -/

section Headers

variable {schema : Option Dump.Schema} {found : Dump.Schema} {frame : List UInt8}

/-- What a frame of a dump holds under the header before it. -/
def contentOf (schema : Option Dump.Schema) (frame : List UInt8) :
    Except Defect Dump.Line :=
  match Text.Utf8.decode (withoutReturn frame) with
  | .error e => .error (.notUtf8 e)
  | .ok s => Dump.Line.parse schema (String.ofList s)

/-- The header that a frame writes. -/
def headerOf? (frame : List UInt8) : Option Dump.Schema :=
  match contentOf none frame with
  | .ok (.header found) => some found
  | _ => none

/-- A frame of blank characters only. -/
def IsBlankFrame (frame : List UInt8) : Prop :=
  ∃ text, textOf? frame = some text ∧ isBlank text = true

theorem contentOf_of_isBlankFrame (schema : Option Dump.Schema)
    (h : IsBlankFrame frame) : contentOf schema frame = .ok .blank := by
  obtain ⟨text, htext, hblank⟩ := h
  rw [textOf?] at htext
  rw [contentOf]
  cases hdecode : Text.Utf8.decode (withoutReturn frame) with
  | error e =>
      rw [hdecode] at htext
      cases htext
  | ok s =>
      rw [hdecode] at htext
      obtain rfl := Option.some.inj htext
      simp only [Dump.Line.parse]
      exact if_pos hblank

/-- Whether a value is a header does not depend on the headers before it. -/
theorem ofValue_eq_header_iff {v : Json.Value} :
    Dump.Line.ofValue schema v = .ok (.header found) ↔
      Dump.Line.isHeader v = true ∧ Dump.Schema.codec.ofValue v = .ok found := by
  unfold Dump.Line.ofValue
  by_cases hheader : Dump.Line.isHeader v = true
  · rw [if_pos hheader]
    cases Dump.Schema.codec.ofValue v <;> simp [hheader]
  · rw [if_neg hheader]
    refine ⟨fun h => ?_, fun h => absurd h.1 hheader⟩
    split at h
    · cases h
    · split at h
      · cases h
      · obtain ⟨row, -, hrow⟩ := Success.of_map h
        cases hrow

theorem parse_eq_header_iff {text : String} :
    Dump.Line.parse schema text = .ok (.header found) ↔
      Dump.Line.parse none text = .ok (.header found) := by
  simp only [Dump.Line.parse]
  split
  · exact Iff.rfl
  · split
    · exact Iff.rfl
    · rw [ofValue_eq_header_iff, ofValue_eq_header_iff]

theorem contentOf_eq_header_iff :
    contentOf schema frame = .ok (.header found) ↔ headerOf? frame = some found := by
  have hnone : contentOf schema frame = .ok (.header found) ↔
      contentOf none frame = .ok (.header found) := by
    unfold contentOf
    split
    · exact Iff.rfl
    · exact parse_eq_header_iff
  rw [hnone, headerOf?]
  split
  · next h => rw [h]; simp
  · next h => exact ⟨fun hf => absurd hf (h found), fun hf => by cases hf⟩

theorem headerOf?_eq_none (schema : Option Dump.Schema)
    (h : ∀ found, contentOf schema frame ≠ .ok (.header found)) :
    headerOf? frame = none :=
  Option.eq_none_iff_forall_ne_some.2 fun found hfound =>
    h found (contentOf_eq_header_iff.2 hfound)

theorem headerOf?_of_isBlankFrame (h : IsBlankFrame frame) : headerOf? frame = none := by
  rw [headerOf?, contentOf_of_isBlankFrame none h]

end Headers

/-! ## Readings of dumps -/

section Dumps

variable {ρ : Type} {name : String} {extract : Dump.Row → Except Defect (List ρ)}
variable {write : ρ → String} {schema : Option Dump.Schema} {frame : List UInt8}

/-- What is made of a frame under the header before it. -/
def readingUnder (extract : Dump.Row → Except Defect (List ρ)) (write : ρ → String)
    (schema : Option Dump.Schema) (frame : List UInt8) :
    Except Fault (List String) :=
  match contentOf schema frame with
  | .error e => .error (.malformed 0 e)
  | .ok (.row row) =>
      match extract row with
      | .error e => .error (.malformed 0 e)
      | .ok rows => .ok (rows.map write)
  | .ok _ => .ok []

/-- What is made of frames, each under the last header before it. -/
def readingsUnder (extract : Dump.Row → Except Defect (List ρ)) (write : ρ → String)
    (schema : Option Dump.Schema) : List (List UInt8) → List (Except Fault (List String))
  | [] => []
  | f :: fs =>
      readingUnder extract write schema f ::
        readingsUnder extract write ((headerOf? f).or schema) fs

/-- The last header in frames, or else the one before them. -/
def lastHeader (schema : Option Dump.Schema) (fs : List (List UInt8)) :
    Option Dump.Schema :=
  fs.foldl (fun schema f => (headerOf? f).or schema) schema

/-- A decoder keeps the last header, and nothing else that it keeps matters for its answers. -/
theorem offerFrame_ofExtraction (d : Dump.Decoder) (number : Nat) (frame : List UInt8) :
    ∃ (d' : Dump.Decoder) (answer : Except Fault (List String)),
      (ofExtraction name extract write).offerFrame d number frame = (d', answer) ∧
        d'.schema = (headerOf? frame).or d.schema ∧
        answer.mapError Fault.unnumbered = readingUnder extract write d.schema frame := by
  cases hdecode : Text.Utf8.decode (withoutReturn frame) with
  | error e =>
      have hcontent : ∀ schema, contentOf schema frame = .error (.notUtf8 e) := by
        intro schema
        rw [contentOf, hdecode]
      refine ⟨d, .error (.malformed number (.notUtf8 e)), ?_, ?_, ?_⟩
      · simp only [offerFrame, decodeLine, hdecode]
        rfl
      · rw [headerOf?, hcontent]
        rfl
      · rw [readingUnder, hcontent]
        rfl
  | ok s =>
      have hline : decodeLine number frame = .ok ⟨number, String.ofList s⟩ := by
        simp only [decodeLine, hdecode]
      have hcontent : contentOf d.schema frame =
          Dump.Line.parse d.schema (String.ofList s) := by
        rw [contentOf, hdecode]
      have hnone (h : ∀ found,
          Dump.Line.parse d.schema (String.ofList s) ≠ .ok (.header found)) :
          headerOf? frame = none :=
        headerOf?_eq_none d.schema fun found hf => h found (hcontent.symm.trans hf)
      simp only [offerFrame, hline, ofExtraction, extraction, Dump.Decoder.decodeLine,
        readingUnder, hcontent]
      cases hparse : Dump.Line.parse d.schema (String.ofList s) with
      | error e =>
          exact ⟨_, _, rfl, by rw [hnone (by simp [hparse])]; rfl, rfl⟩
      | ok content =>
          cases content with
          | blank =>
              exact ⟨_, _, rfl, by rw [hnone (by simp [hparse])]; rfl, rfl⟩
          | header found =>
              have hsome : headerOf? frame = some found :=
                contentOf_eq_header_iff.1 (hcontent.trans hparse)
              exact ⟨_, _, rfl, by rw [hsome]; rfl, rfl⟩
          | row row =>
              have hrow : headerOf? frame = none := hnone (by simp [hparse])
              cases hextract : extract row with
              | error e =>
                  simp only [hextract]
                  exact ⟨_, _, rfl, by rw [hrow]; rfl, rfl⟩
              | ok rows =>
                  simp only [hextract]
                  exact ⟨_, _, rfl, by rw [hrow]; rfl, rfl⟩

theorem map_answersFrom_ofExtraction (d : Dump.Decoder) (number : Nat)
    (fs : List (List UInt8)) :
    ((ofExtraction name extract write).answersFrom d number fs).map
        (fun answer => answer.mapError Fault.unnumbered) =
      readingsUnder extract write d.schema fs := by
  induction fs generalizing d number with
  | nil => rfl
  | cons f fs ih =>
      obtain ⟨d', answer, hoffer, hschema, hanswer⟩ :=
        @offerFrame_ofExtraction ρ name extract write d (number + 1) f
      simp only [answersFrom, hoffer, List.map_cons, readingsUnder, hanswer, ← hschema]
      rw [ih]

/-- What is made of a frame is told from the frame and the last header before it. -/
theorem readings_ofExtraction (fs : List (List UInt8)) :
    (ofExtraction name extract write).readings fs = readingsUnder extract write none fs :=
  map_answersFrom_ofExtraction {} 0 fs

theorem readingsUnder_append (schema : Option Dump.Schema) (fs gs : List (List UInt8)) :
    readingsUnder extract write schema (fs ++ gs) =
      readingsUnder extract write schema fs ++
        readingsUnder extract write (lastHeader schema fs) gs := by
  induction fs generalizing schema with
  | nil => rfl
  | cons f fs ih =>
      rw [List.cons_append, readingsUnder, readingsUnder, ih, List.cons_append]
      rfl

theorem length_readingsUnder (schema : Option Dump.Schema) (fs : List (List UInt8)) :
    (readingsUnder extract write schema fs).length = fs.length := by
  induction fs generalizing schema with
  | nil => rfl
  | cons f fs ih => rw [readingsUnder, List.length_cons, ih, List.length_cons]

/-- A frame that is rejected is no header. -/
theorem headerOf?_of_readingUnder {fault : Fault}
    (h : readingUnder extract write schema frame = .error fault) :
    headerOf? frame = none := by
  refine headerOf?_eq_none schema fun found hf => ?_
  rw [readingUnder, hf] at h
  cases h

theorem readingUnder_of_headerOf? {found : Dump.Schema} (h : headerOf? frame = some found) :
    readingUnder extract write schema frame = .ok [] := by
  rw [readingUnder, contentOf_eq_header_iff.2 h]

theorem readingUnder_of_isBlankFrame (h : IsBlankFrame frame) :
    readingUnder extract write schema frame = .ok [] := by
  rw [readingUnder, contentOf_of_isBlankFrame schema h]

/-- The first frame that is not blank writes a header. -/
def StartsWithHeader (fs : List (List UInt8)) : Prop :=
  ∃ blanks f rest found, fs = blanks ++ f :: rest ∧ (∀ g ∈ blanks, IsBlankFrame g) ∧
    headerOf? f = some found

/-- Frames that start with a header are read as if no header stood before them. -/
theorem readingsUnder_of_startsWithHeader {fs : List (List UInt8)}
    (h : StartsWithHeader fs) (schema : Option Dump.Schema) :
    readingsUnder extract write schema fs = readingsUnder extract write none fs := by
  obtain ⟨blanks, f, rest, found, rfl, hblanks, hf⟩ := h
  induction blanks with
  | nil =>
      simp only [List.nil_append, readingsUnder, readingUnder_of_headerOf? hf, hf,
        Option.some_or]
  | cons g blanks ih =>
      obtain ⟨hg, hblanks⟩ := List.forall_mem_cons.1 hblanks
      simp only [List.cons_append, readingsUnder, readingUnder_of_isBlankFrame hg,
        headerOf?_of_isBlankFrame hg, Option.none_or, ih hblanks]

end Dumps

/-! ## Tools -/

/-- The input is empty or ends in a newline. -/
def EndsLine (input : List UInt8) : Prop :=
  input = [] ∨ input.getLast? = some newline

theorem frames_append_of_endsLine {first : List UInt8} (h : EndsLine first)
    (second : List UInt8) : frames (first ++ second) = frames first ++ frames second := by
  rcases h with rfl | hlast
  · rfl
  · obtain ⟨start, rfl⟩ := List.getLast?_eq_some_iff.1 hlast
    rw [List.append_assoc]
    exact frames_append start second

/--
A tool for dumps reads an input that ends its last line, and then one that
starts with a header, as it reads them on their own.  The run of a tool is told
from what is made of each frame, and when a frame is rejected, the same is made
of the other frames as if it were not there.
-/
structure JoinsDumps (t : Tool) : Prop where
  run_eq : ∀ input, t.run input =
    .ok ⟨(frames input).length, refusals (t.readings (frames input)),
      linesIn (t.readings (frames input))⟩
  append : ∀ first second, EndsLine first → StartsWithHeader (frames second) →
    ∃ a b whole, t.run first = .ok a ∧ t.run second = .ok b ∧
      t.run (first ++ second) = .ok whole ∧
      whole.lines = a.lines + b.lines ∧ whole.emitted = a.emitted + b.emitted ∧
      whole.skipped = a.skipped + b.skipped ∧ whole.output = a.output ++ b.output ∧
      whole.bytes = a.bytes ++ b.bytes
  isolates : ∀ before f after made fault rest, made.length = before.length →
    t.readings (before ++ f :: after) = made ++ .error fault :: rest →
    t.readings (before ++ after) = made ++ rest

section Tools

variable {ρ : Type} (name : String) (extract : Dump.Row → Except Defect (List ρ))
variable (write : ρ → String)

theorem bytes_append {a b whole : Summary} (h : whole.output = a.output ++ b.output) :
    whole.bytes = a.bytes ++ b.bytes := by
  simp only [Summary.bytes, h, toList_outputText, List.flatMap_append, encode_append]

theorem joinsDumps_ofExtraction : JoinsDumps (ofExtraction name extract write) := by
  have hrun := run_of_recoverable (isFatal_of_offer_ofExtraction name write extract)
    fun _ => rfl
  refine ⟨hrun, fun first second hfirst hsecond => ?_, ?_⟩
  · have hreadings : (ofExtraction name extract write).readings (frames (first ++ second)) =
        (ofExtraction name extract write).readings (frames first) ++
          (ofExtraction name extract write).readings (frames second) := by
      rw [frames_append_of_endsLine hfirst, readings_ofExtraction, readings_ofExtraction,
        readings_ofExtraction, readingsUnder_append, readingsUnder_of_startsWithHeader hsecond]
    have houtput := (congrArg linesIn hreadings).trans (linesIn_append _ _)
    refine ⟨_, _, _, hrun first, hrun second, hrun (first ++ second), ?_, ?_, ?_, houtput,
      bytes_append houtput⟩
    · rw [frames_append_of_endsLine hfirst, List.length_append]
    · exact (congrArg List.length houtput).trans List.length_append
    · exact (congrArg refusals hreadings).trans (refusals_append _ _)
  · intro before f after made fault rest hlength hmade
    rw [readings_ofExtraction, readingsUnder_append, readingsUnder] at hmade
    rw [readings_ofExtraction, readingsUnder_append]
    obtain ⟨rfl, htail⟩ := List.append_inj hmade
      ((length_readingsUnder none before).trans hlength.symm)
    obtain ⟨hf, rfl⟩ := List.cons.inj htail
    rw [headerOf?_of_readingUnder hf, Option.none_or]

/-- The tools that decode dumps read dumps one after the other as they read each of them. -/
theorem dump_tools_join (origin : Dump.Origin) :
    JoinsDumps decode ∧ JoinsDumps (extractObjects origin) ∧
      JoinsDumps (extractUploads origin) ∧ JoinsDumps extractReferences ∧
      JoinsDumps extractReplicas ∧ JoinsDumps (extractPlacements origin) :=
  ⟨joinsDumps_ofExtraction _ _ _, joinsDumps_ofExtraction _ _ _,
    joinsDumps_ofExtraction _ _ _, joinsDumps_ofExtraction _ _ _,
    joinsDumps_ofExtraction _ _ _, joinsDumps_ofExtraction _ _ _⟩

end Tools

section Sample

/-- The lines of a header, and of an entry that has one value too many. -/
def sampleDump : List UInt8 :=
  Text.Utf8.encode (outputText
    ["\x7b\"name\":\"t\",\"keys\":[\"a\"]\x7d", "\x7b\"entry\":[1,2]\x7d"]).toList

/-- A blank line and the lines of another header and an entry under it. -/
def sampleNextDump : List UInt8 :=
  Text.Utf8.encode (outputText
    ["", "\x7b\"name\":\"u\",\"keys\":[\"b\"]\x7d", "\x7b\"entry\":[3]\x7d"]).toList

/-- In the sample, nothing but the table of the second header comes to the entry below it. -/
theorem dump_tools_join_sample :
    ∃ whole, decode.run (sampleDump ++ sampleNextDump) = .ok whole ∧
      whole.lines = 5 ∧ whole.skipped = 1 ∧
      whole.output = ["\x7b\"__table\":\"u\",\"b\":3\x7d"] := by
  have hfirst : decode.run sampleDump = .ok ⟨2, 1, []⟩ := by decide +kernel
  have hsecond : decode.run sampleNextDump =
      .ok ⟨3, 0, ["\x7b\"__table\":\"u\",\"b\":3\x7d"]⟩ := by decide +kernel
  have hends : EndsLine sampleDump := .inr (by decide +kernel)
  have hstarts : StartsWithHeader (frames sampleNextDump) := by
    refine ⟨[[]], _, _, ⟨"u", ["b"]⟩, rfl, ?_, by decide +kernel⟩
    exact List.forall_mem_singleton.2 ⟨"", rfl, rfl⟩
  obtain ⟨a, b, whole, ha, hb, hwhole, hlines, -, hskipped, houtput, -⟩ :=
    (dump_tools_join ⟨"1", none⟩).1.append _ _ hends hstarts
  obtain rfl := Except.ok.inj (hfirst.symm.trans ha)
  obtain rfl := Except.ok.inj (hsecond.symm.trans hb)
  exact ⟨whole, hwhole, hlines, hskipped, houtput⟩

end Sample

end Tool
end Reclaim
