import Reclaim.Proofs.Tool.Run

/-!
# Lines of an output

A line of output is written with a newline behind it, and nothing in it is
escaped once more.  So the lines that come out are the ones that were written
exactly if none of them contains a newline.

Main results: `Summary.linewise_iff`, and `linewise_ofExtraction`,
`linewise_ofListings` and `linewise_ofEngine` for the kinds of tools.
-/

namespace Reclaim
namespace Tool

/-! ## Bytes of the output -/

namespace Summary

/-- What a run writes, as bytes. -/
def bytes (s : Summary) : List UInt8 :=
  Text.Utf8.encode (outputText s.output).toList

/-- The lines of the output are the lines that were written, each ended once. -/
structure Linewise (s : Summary) : Prop where
  lines : frames s.bytes = s.output.map fun l => Text.Utf8.encode l.toList
  newlines : s.bytes.count newline = s.emitted

end Summary

theorem frames_cons_newline (ys : List UInt8) :
    frames (newline :: ys) = [] :: frames ys := rfl

/-- Bytes without a newline are a line of their own. -/
theorem frames_line {xs : List UInt8} (h : newline ∉ xs) (ys : List UInt8) :
    frames (xs ++ newline :: ys) = xs :: frames ys := by
  induction xs with
  | nil => exact frames_cons_newline ys
  | cons b xs ih =>
      rw [List.mem_cons, not_or] at h
      have step : frames (b :: (xs ++ newline :: ys)) =
          addByte b (frames (xs ++ newline :: ys)) := rfl
      rw [List.cons_append, step, ih h.2, addByte, if_neg (Ne.symm h.1)]

theorem encode_append (s t : List Char) :
    Text.Utf8.encode (s ++ t) = Text.Utf8.encode s ++ Text.Utf8.encode t :=
  List.flatMap_append

theorem toList_outputText (ls : List String) :
    (outputText ls).toList = ls.flatMap fun l => l.toList ++ ['\n'] := by
  rw [outputText, String.toList_join, List.flatMap_map]
  simp only [String.toList_append]
  rfl

/-- The bytes of a line that is written. -/
theorem encode_outputText_cons (l : String) (ls : List String) :
    Text.Utf8.encode (outputText (l :: ls)).toList =
      Text.Utf8.encode l.toList ++
        newline :: Text.Utf8.encode (outputText ls).toList := by
  rw [toList_outputText, List.flatMap_cons, ← toList_outputText,
    List.append_assoc, encode_append, encode_append]
  rfl

/-- A newline in a text is a newline among its bytes. -/
theorem newline_mem_encode_iff {l : String} :
    newline ∈ Text.Utf8.encode l.toList ↔ Text.newline ∈ l.toList := by
  constructor
  · exact Text.Utf8.mem_of_mem_encode (by decide)
  · exact fun h => List.mem_flatMap.2 ⟨_, h, by decide⟩

/-- Written lines add one newline each, and those that stand in them. -/
theorem count_newline_outputText (ls : List String) :
    (Text.Utf8.encode (outputText ls).toList).count newline =
      ls.length +
        (ls.flatMap fun l => Text.Utf8.encode l.toList).count newline := by
  induction ls with
  | nil => rfl
  | cons l ls ih =>
      rw [encode_outputText_cons, List.count_append, List.count_cons_self, ih,
        List.flatMap_cons, List.count_append, List.length_cons]
      omega

theorem frames_outputText {ls : List String} (h : ∀ l ∈ ls, Text.OneLine l) :
    frames (Text.Utf8.encode (outputText ls).toList) =
      ls.map fun l => Text.Utf8.encode l.toList := by
  induction ls with
  | nil => rfl
  | cons l ls ih =>
      obtain ⟨hl, hls⟩ := List.forall_mem_cons.1 h
      have plain : newline ∉ Text.Utf8.encode l.toList :=
        fun hm => hl (newline_mem_encode_iff.1 hm)
      rw [encode_outputText_cons, frames_line plain, ih hls, List.map_cons]

/-- The lines that were written are the lines of the output exactly if none
contains a newline. -/
theorem Summary.linewise_iff (s : Summary) :
    s.Linewise ↔ ∀ l ∈ s.output, Text.OneLine l := by
  have further : (s.output.flatMap fun l =>
      Text.Utf8.encode l.toList).count newline = 0 ↔
        ∀ l ∈ s.output, Text.OneLine l := by
    rw [List.count_eq_zero, List.mem_flatMap]
    constructor
    · intro h l hl hm
      exact h ⟨l, hl, newline_mem_encode_iff.2 hm⟩
    · rintro h ⟨l, hl, hm⟩
      exact h l hl (newline_mem_encode_iff.1 hm)
  constructor
  · rintro ⟨-, newlines⟩
    rw [bytes, count_newline_outputText, emitted] at newlines
    exact further.1 (by omega)
  · intro h
    refine ⟨frames_outputText h, ?_⟩
    rw [bytes, count_newline_outputText, emitted, further.2 h, Nat.add_zero]

/-! ## Kinds of tools -/

variable {input : List UInt8} {summary : Summary}

/-- An extraction writes lines if the texts of what it extracts are on one line. -/
theorem linewise_ofExtraction
    {ρ : Type} {name : String} {extract : Dump.Row → Except Defect (List ρ)}
    {write : ρ → String}
    (fine : ∀ row ∈ rowsOfDump {} (linesOf input), ∀ rs,
      extract row = .ok rs → ∀ r ∈ rs, Text.OneLine (write r))
    (h : (ofExtraction name extract write).run input = .ok summary) :
    summary.Linewise := by
  rw [Summary.linewise_iff, output_of_run h]
  rw [show (ofExtraction name extract write).engine.runThrough
      (ofExtraction name extract write).start (linesOf input) = _ from
    runThrough_extraction extract write {} (linesOf input)]
  intro l hl
  obtain ⟨row, hrow, hl⟩ := List.mem_flatMap.1 hl
  cases hextract : extract row with
  | error e =>
      rw [hextract] at hl
      cases hl
  | ok rs =>
      rw [hextract] at hl
      obtain ⟨r, hr, rfl⟩ := List.mem_map.1 hl
      exact fine row hrow rs hextract r hr

/-- A listing is written in lines if every row is. -/
theorem linewise_ofListings
    {ρ : Type} {name storageId : String} {ofListing : Listing → ρ}
    {write : ρ → String}
    (fine : ∀ l ∈ filesOf storageId (linesOf input),
      Text.OneLine (write (ofListing l)))
    (h : (ofListings name storageId ofListing write).run input = .ok summary) :
    summary.Linewise := by
  rw [Summary.linewise_iff, output_of_run h]
  rw [show (ofListings name storageId ofListing write).engine.runThrough
      (ofListings name storageId ofListing write).start (linesOf input) = _ from
    runThrough_listingRows storageId ofListing write (linesOf input)]
  exact List.forall_mem_map.2 fine

/-- The actions of an engine are written in lines if the engine upholds it. -/
theorem linewise_ofEngine
    {σ ρ α : Type} {name : String} {start : σ} {e : Stream.Engine σ ρ α}
    {parse : String → Except Defect ρ} {write : α → String}
    {Inv : σ → Prop} {Fine : ρ → Prop} {Right : α → Prop}
    (upholds : e.Upholds Inv Fine Right) (started : Inv start)
    (fine : ∀ r ∈ rowsOf parse (linesOf input), Fine r)
    (right : ∀ a, Right a → Text.OneLine (write a))
    (h : (ofEngine name start e parse write).run input = .ok summary) :
    summary.Linewise := by
  rw [Summary.linewise_iff, output_of_run h]
  rw [show (ofEngine name start e parse write).engine.runThrough
      (ofEngine name start e parse write).start (linesOf input) = _ from
    runThrough_overRows e parse write start (linesOf input)]
  intro l hl
  obtain ⟨a, ha, rfl⟩ := List.mem_map.1 hl
  exact right a (upholds.runThrough started fine a ha)

end Tool
end Reclaim
