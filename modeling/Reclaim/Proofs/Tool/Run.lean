import Reclaim.Proofs.Stream.Through
import Reclaim.Proofs.Text.Bytes
import Reclaim.Proofs.Text.OneLine
import Reclaim.Tool.Dump
import Reclaim.Tool.Rows

/-!
# Runs of tools

A run that succeeds writes what the engine of the tool gives for the lines of
the input that are texts.  Most engines over lines read rows first, so what they
give is told from the rows: those that a dump or a listing holds, or those whose
lines can be parsed.

Main results: `output_of_run`, and `runThrough_extraction`,
`runThrough_listingRows` and `runThrough_overRows`.
-/

namespace Reclaim
namespace Tool

/-! ## Lines -/

/-- The frames that are texts as lines, numbered behind the given number. -/
def linesFrom (number : Nat) : List (List UInt8) → List Line
  | [] => []
  | f :: fs =>
      match decodeLine (number + 1) f with
      | .ok line => line :: linesFrom (number + 1) fs
      | .error _ => linesFrom (number + 1) fs

/-- The lines of an input that are texts. -/
def linesOf (input : List UInt8) : List Line :=
  linesFrom 0 (frames input)

theorem newline_not_mem_frames {input f : List UInt8} (h : f ∈ frames input) :
    newline ∉ f := by
  induction input generalizing f with
  | nil => cases h
  | cons b input ih =>
      have step : frames (b :: input) = addByte b (frames input) := rfl
      rw [step] at h
      unfold addByte at h
      split at h
      · rcases List.mem_cons.1 h with rfl | h
        · exact List.not_mem_nil
        · exact ih h
      · next hb =>
          split at h
          · obtain rfl := List.mem_singleton.1 h
            simpa using Ne.symm hb
          · next g gs heq =>
              rw [heq] at ih
              rcases List.mem_cons.1 h with rfl | h
              · simpa [Ne.symm hb] using ih List.mem_cons_self
              · exact ih (List.mem_cons_of_mem g h)

theorem oneLine_of_decodeLine
    {number : Nat} {f : List UInt8} {line : Line} (hf : newline ∉ f)
    (h : decodeLine number f = .ok line) : Text.OneLine line.text := by
  rw [decodeLine] at h
  split at h
  · next s hs =>
      obtain rfl := Except.ok.inj h
      intro hm
      rw [String.toList_ofList] at hm
      have bytes := Text.Utf8.mem_of_mem_decode (by decide) (by decide) hs hm
      rw [withoutReturn] at bytes
      split at bytes
      · exact hf (List.dropLast_subset f bytes)
      · exact hf bytes
  · cases h

theorem oneLine_of_mem_linesFrom
    {number : Nat} {fs : List (List UInt8)} {line : Line}
    (hfs : ∀ f ∈ fs, newline ∉ f) (h : line ∈ linesFrom number fs) :
    Text.OneLine line.text := by
  induction fs generalizing number with
  | nil => cases h
  | cons f fs ih =>
      obtain ⟨hf, hfs⟩ := List.forall_mem_cons.1 hfs
      rw [linesFrom] at h
      split at h
      · next first hfirst =>
          rcases List.mem_cons.1 h with rfl | h
          · exact oneLine_of_decodeLine hf hfirst
          · exact ih hfs h
      · exact ih hfs h

/-- No line of an input contains a newline. -/
theorem oneLine_of_mem_linesOf
    {input : List UInt8} {line : Line} (h : line ∈ linesOf input) :
    Text.OneLine line.text :=
  oneLine_of_mem_linesFrom (fun _ => newline_not_mem_frames) h

/-! ## Runs -/

variable {t : Tool}

theorem output_of_foldlM
    {fs : List (List UInt8)} {p p' : Progress t}
    (h : fs.foldlM Progress.step p = .ok p') :
    p'.output.toList ++ (t.engine.finish p'.state).2 =
      p.output.toList ++ t.engine.runThrough p.state (linesFrom p.lines fs) := by
  induction fs generalizing p with
  | nil =>
      obtain rfl := Except.ok.inj h
      rfl
  | cons f fs ih =>
      rw [List.foldlM_cons] at h
      obtain ⟨q, hq, h⟩ := Success.of_bind h
      rw [ih h]
      simp only [Progress.step, offerFrame] at hq
      rw [linesFrom]
      cases hline : decodeLine (p.lines + 1) f with
      | error fault =>
          rw [hline] at hq
          dsimp only at hq
          split at hq
          · cases hq
          · obtain rfl := Except.ok.inj hq
            rfl
      | ok line =>
          rw [hline] at hq
          dsimp only at hq
          cases hoffer : t.engine.offer p.state line with
          | mk s answer =>
              rw [hoffer] at hq
              cases answer with
              | ok output =>
                  obtain rfl := Except.ok.inj hq
                  rw [Stream.Engine.runThrough_cons_of_ok hoffer]
                  simp [List.append_assoc]
              | error fault =>
                  dsimp only at hq
                  split at hq
                  · cases hq
                  · obtain rfl := Except.ok.inj hq
                    rw [Stream.Engine.runThrough_cons_of_error hoffer]

/-- A run that succeeds writes what the engine gives for the lines of the input. -/
theorem output_of_run
    {input : List UInt8} {summary : Summary} (h : t.run input = .ok summary) :
    summary.output = t.engine.runThrough t.start (linesOf input) := by
  obtain ⟨p, hp, h⟩ := Success.of_bind h
  have written := output_of_foldlM hp
  obtain rfl := Except.ok.inj h
  simpa [Progress.start, linesOf] using written

/-! ## Rows -/

/-- The rows that the lines of a dump hold. -/
def rowsOfDump (d : Dump.Decoder) : List Line → List Dump.Row
  | [] => []
  | line :: lines =>
      match d.decodeLine line.text with
      | (d, .ok (some row)) => row :: rowsOfDump d lines
      | (d, _) => rowsOfDump d lines

section Each

variable {ρ : Type} {passedOver : String → Bool}
variable {parse : String → Except Defect ρ}

/-- What can be read of the lines that are not passed over. -/
def readEach (passedOver : String → Bool) (parse : String → Except Defect ρ)
    (lines : List Line) : List ρ :=
  lines.filterMap fun line =>
    if passedOver line.text then none else (parse line.text).toOption

theorem readEach_cons_of_passedOver
    {line : Line} (h : passedOver line.text = true) (lines : List Line) :
    readEach passedOver parse (line :: lines) =
      readEach passedOver parse lines := by
  simp only [readEach, List.filterMap_cons, h, if_true]

theorem readEach_cons_of_error
    {line : Line} {d : Defect} (h : parse line.text = .error d)
    (lines : List Line) :
    readEach passedOver parse (line :: lines) =
      readEach passedOver parse lines := by
  simp only [readEach, List.filterMap_cons, h, Except.toOption, ite_self]

theorem readEach_cons_of_ok
    {line : Line} {r : ρ} (there : ¬ passedOver line.text = true)
    (h : parse line.text = .ok r) (lines : List Line) :
    readEach passedOver parse (line :: lines) =
      r :: readEach passedOver parse lines := by
  simp only [readEach, List.filterMap_cons, h, if_neg there, Except.toOption]

/-- What is read is read from one of the lines. -/
theorem mem_readEach
    {lines : List Line} {r : ρ} (h : r ∈ readEach passedOver parse lines) :
    ∃ line ∈ lines, parse line.text = .ok r := by
  obtain ⟨line, hline, hr⟩ := List.mem_filterMap.1 h
  refine ⟨line, hline, ?_⟩
  split at hr
  · cases hr
  · cases hp : parse line.text with
    | error e =>
        rw [hp] at hr
        cases hr
    | ok x =>
        rw [hp] at hr
        rw [Option.some.inj hr]

end Each

/-- A text of blank characters only. -/
def isBlank (s : String) : Bool :=
  (Text.trim s).isEmpty

/-- The files that the lines of a listing name. -/
def filesOf (storageId : String) (lines : List Line) : List Listing :=
  readEach isBlank (Listing.parse storageId) lines

/-- The rows that lines write. -/
def rowsOf {ρ : Type} (parse : String → Except Defect ρ) (lines : List Line) :
    List ρ :=
  readEach String.isEmpty parse lines

/-- What is extracted from the rows of a dump is written. -/
theorem runThrough_extraction
    {ρ : Type} (extract : Dump.Row → Except Defect (List ρ))
    (write : ρ → String) (d : Dump.Decoder) (lines : List Line) :
    (extraction extract write).runThrough d lines =
      (rowsOfDump d lines).flatMap fun row =>
        ((extract row).toOption.getD []).map write := by
  induction lines generalizing d with
  | nil => rfl
  | cons line lines ih =>
      cases hdecode : d.decodeLine line.text with
      | mk d' answer =>
          rw [rowsOfDump, hdecode]
          match answer with
          | .error fault =>
              have step : (extraction extract write).offer d line =
                  (d', .error fault) := by
                simp only [extraction, hdecode]
              rw [Stream.Engine.runThrough_cons_of_error step, ih]
          | .ok none =>
              have step : (extraction extract write).offer d line =
                  (d', .ok []) := by
                simp only [extraction, hdecode]
              rw [Stream.Engine.runThrough_cons_of_ok step, ih,
                List.nil_append]
          | .ok (some row) =>
              rw [List.flatMap_cons]
              cases hextract : extract row with
              | error e =>
                  have step : (extraction extract write).offer d line =
                      (d', .error (.malformed line.number e)) := by
                    simp only [extraction, hdecode, hextract]
                  rw [Stream.Engine.runThrough_cons_of_error step, ih]
                  rfl
              | ok rows =>
                  have step : (extraction extract write).offer d line =
                      (d', .ok (rows.map write)) := by
                    simp only [extraction, hdecode, hextract]
                  rw [Stream.Engine.runThrough_cons_of_ok step, ih]
                  rfl

/-- The files of a listing are written. -/
theorem runThrough_listingRows
    {ρ : Type} (storageId : String) (ofListing : Listing → ρ)
    (write : ρ → String) (lines : List Line) :
    (listingRows storageId ofListing write).runThrough () lines =
      (filesOf storageId lines).map fun l => write (ofListing l) := by
  induction lines with
  | nil => rfl
  | cons line lines ih =>
      by_cases blank : isBlank line.text
      · have passed : (Text.trim line.text).isEmpty = true := blank
        have step : (listingRows storageId ofListing write).offer () line =
            ((), .ok []) := by
          simp only [listingRows, passed, if_true]
        have rest : filesOf storageId (line :: lines) =
            filesOf storageId lines :=
          readEach_cons_of_passedOver blank lines
        rw [Stream.Engine.runThrough_cons_of_ok step, ih, rest,
          List.nil_append]
      · have there : ¬ (Text.trim line.text).isEmpty = true := blank
        cases hparse : Listing.parse storageId line.text with
        | error e =>
            have step : (listingRows storageId ofListing write).offer () line =
                ((), .error (.malformed line.number e)) := by
              simp only [listingRows, if_neg there, hparse]
            have rest : filesOf storageId (line :: lines) =
                filesOf storageId lines :=
              readEach_cons_of_error hparse lines
            rw [Stream.Engine.runThrough_cons_of_error step, ih, rest]
        | ok l =>
            have step : (listingRows storageId ofListing write).offer () line =
                ((), .ok [write (ofListing l)]) := by
              simp only [listingRows, if_neg there, hparse]
            have first : filesOf storageId (line :: lines) =
                l :: filesOf storageId lines :=
              readEach_cons_of_ok blank hparse lines
            rw [Stream.Engine.runThrough_cons_of_ok step, ih, first,
              List.map_cons, List.singleton_append]

/-- What an engine makes of the rows is written. -/
theorem runThrough_overRows
    {σ ρ α : Type} (e : Stream.Engine σ ρ α)
    (parse : String → Except Defect ρ) (write : α → String) (s : σ)
    (lines : List Line) :
    (overRows e parse write).runThrough s lines =
      (e.runThrough s (rowsOf parse lines)).map write := by
  induction lines generalizing s with
  | nil => rfl
  | cons line lines ih =>
      by_cases blank : line.text.isEmpty
      · have step : (overRows e parse write).offer s line = (s, .ok []) := by
          simp only [overRows, blank, if_true]
        have rest : rowsOf parse (line :: lines) = rowsOf parse lines :=
          readEach_cons_of_passedOver blank lines
        rw [Stream.Engine.runThrough_cons_of_ok step, ih, rest,
          List.nil_append]
      · cases hparse : parse line.text with
        | error d =>
            have step : (overRows e parse write).offer s line =
                (s, .error (.malformed line.number d)) := by
              simp only [overRows, blank, hparse]
              rfl
            have rest : rowsOf parse (line :: lines) = rowsOf parse lines :=
              readEach_cons_of_error hparse lines
            rw [Stream.Engine.runThrough_cons_of_error step, ih, rest]
        | ok row =>
            have first : rowsOf parse (line :: lines) =
                row :: rowsOf parse lines :=
              readEach_cons_of_ok blank hparse lines
            rw [first]
            cases hoffer : e.offer s row with
            | mk s' answer =>
                have step : (overRows e parse write).offer s line =
                    (s', answer.map (·.map write)) := by
                  simp only [overRows, blank, hparse, hoffer]
                  rfl
                cases answer with
                | error fault =>
                    rw [Stream.Engine.runThrough_cons_of_error step,
                      Stream.Engine.runThrough_cons_of_error hoffer, ih]
                | ok actions =>
                    rw [Stream.Engine.runThrough_cons_of_ok step,
                      Stream.Engine.runThrough_cons_of_ok hoffer, ih,
                      List.map_append]

end Tool
end Reclaim
