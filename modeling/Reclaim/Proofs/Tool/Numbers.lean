import Reclaim.Proofs.Tool.Concatenation

/-!
# Numbers of lines in faults

A run numbers the lines that it reads, and a tool puts this number into the
faults of its lines.  Only the decoder of dumps counts lines by itself, and it
is given none that is no text.  So a line that it refuses is numbered too low
by as many lines as were no text before it.

Main results: `offerFrame_eq_malformed_iff`, which tells the faults of dumps
with their numbers, and `faults_numbered`.
-/

namespace Reclaim
namespace Tool

/-! ## Faults that a run obtains -/

section Faults

variable {t : Tool} {p q : Progress t} {frame : List UInt8} {fs : List (List UInt8)}

/-- A run comes to the line behind the first `i` lines, and there obtains the fault. -/
def Obtains (t : Tool) (input : List UInt8) (i : Nat) (fault : Fault) : Prop :=
  ∃ f p, (frames input)[i]? = some f ∧
    ((frames input).take i).foldlM Progress.step (.start t) = .ok p ∧
    (t.offerFrame p.state (p.lines + 1) f).2 = .error fault

/-- Faults of a line carry the number of the line in the input. -/
def NumbersLines (t : Tool) : Prop :=
  ∀ input i n d, t.Obtains input i (.malformed n d) → n = i + 1

/-- A step counts a line and leads to the state in which its frame leaves the tool. -/
theorem Progress.eq_of_step (h : p.step frame = .ok q) :
    q.lines = p.lines + 1 ∧ q.state = (t.offerFrame p.state (p.lines + 1) frame).1 := by
  rcases hanswer : t.offerFrame p.state (p.lines + 1) frame with ⟨s, fault | output⟩
  · cases hfatal : fault.isFatal with
    | true =>
        rw [step_of_fatal hanswer hfatal] at h
        cases h
    | false =>
        rw [step_of_recoverable hanswer hfatal] at h
        obtain rfl := Except.ok.inj h
        exact ⟨rfl, rfl⟩
  · rw [step_of_ok hanswer] at h
    obtain rfl := Except.ok.inj h
    exact ⟨rfl, rfl⟩

theorem Progress.lines_of_foldlM (h : fs.foldlM Progress.step p = .ok q) :
    q.lines = p.lines + fs.length := by
  induction fs generalizing p with
  | nil =>
      obtain rfl := Except.ok.inj h
      rfl
  | cons f fs ih =>
      rw [List.foldlM_cons] at h
      obtain ⟨next, hstep, h⟩ := Success.of_bind h
      rw [ih h, (Progress.eq_of_step hstep).1, List.length_cons]
      omega

theorem length_take_of_getElem? {i : Nat} (h : fs[i]? = some frame) :
    (fs.take i).length = i := by
  obtain ⟨hi, -⟩ := List.getElem?_eq_some_iff.1 h
  rw [List.length_take]
  omega

/-- An engine puts the number of a line into the faults of the line. -/
def NumbersFaults {σ : Type} (e : Stream.Engine σ Line String) : Prop :=
  ∀ s line n d, (e.offer s line).2 = .error (.malformed n d) → n = line.number

theorem number_of_offerFrame (numbers : NumbersFaults t.engine) {s : t.State} {number n : Nat}
    {d : Defect} (h : (t.offerFrame s number frame).2 = .error (.malformed n d)) :
    n = number := by
  simp only [offerFrame, decodeLine] at h
  cases hdecode : Text.Utf8.decode (withoutReturn frame) with
  | error e =>
      simp only [hdecode] at h
      cases h
      rfl
  | ok text =>
      simp only [hdecode] at h
      exact numbers s _ n d h

theorem numbersLines_of_engine (numbers : NumbersFaults t.engine) : NumbersLines t := by
  rintro input i n d ⟨f, p, hf, hbefore, hanswer⟩
  have hlines : p.lines = 0 + i :=
    (Progress.lines_of_foldlM hbefore).trans (congrArg _ (length_take_of_getElem? hf))
  rw [number_of_offerFrame numbers hanswer, hlines, Nat.zero_add]

end Faults

/-! ## Listings and rows -/

section Rows

variable {σ ρ α : Type}

theorem numbersLines_ofListings (name storageId : String) (ofListing : Listing → ρ)
    (write : ρ → String) : NumbersLines (ofListings name storageId ofListing write) := by
  refine numbersLines_of_engine fun s line n d h => ?_
  simp only [ofListings, listingRows] at h
  split at h
  · cases h
  · split at h
    · cases h
      rfl
    · cases h

/-- The faults of an engine are fatal, and those of its lines have their numbers. -/
theorem numbersLines_ofEngine {name : String} {start : σ} {e : Stream.Engine σ ρ α}
    {parse : String → Except Defect ρ} {write : α → String} (fatally : e.RefusesFatally) :
    NumbersLines (ofEngine name start e parse write) := by
  refine numbersLines_of_engine fun s line n d h => ?_
  simp only [ofEngine, overRows] at h
  split at h
  · cases h
  · split at h
    · cases h
      rfl
    · next row _ =>
        cases hoffer : (e.offer s row).2 with
        | ok actions =>
            rw [hoffer] at h
            cases h
        | error fault =>
            rw [hoffer] at h
            obtain rfl := Except.error.inj h
            cases fatally s row _ hoffer

end Rows

/-! ## Dumps -/

section Dumps

variable {ρ : Type} {name : String} {extract : Dump.Row → Except Defect (List ρ)}
variable {write : ρ → String} {frame : List UInt8} {fs : List (List UInt8)}

/-- A dump is refused by its decoder, or what is extracted from a row of it. -/
theorem offerFrame_eq_malformed_iff (d : Dump.Decoder) (number : Nat) (n : Nat) (e : Defect) :
    ((ofExtraction name extract write).offerFrame d number frame).2 =
        .error (.malformed n e) ↔
      (contentOf d.schema frame = .error e ∧
          n = if (textOf? frame).isSome then d.lines + 1 else number) ∨
        ∃ row, contentOf d.schema frame = .ok (.row row) ∧ extract row = .error e ∧
          n = number := by
  cases hdecode : Text.Utf8.decode (withoutReturn frame) with
  | error bad =>
      simp [offerFrame, decodeLine, contentOf, textOf?, hdecode, Except.toOption, and_comm, eq_comm]
  | ok s =>
      simp only [offerFrame, decodeLine, contentOf, textOf?, hdecode, ofExtraction, extraction,
        Dump.Decoder.decodeLine, Except.toOption, Option.map_some, Option.isSome_some, if_true]
      cases hparse : Dump.Line.parse d.schema (String.ofList s) with
      | error e' => simp [and_comm, eq_comm]
      | ok content =>
          cases content with
          | blank => simp
          | header found => simp
          | row row =>
              cases hextract : extract row with
              | error e' => simp [hextract, and_comm, eq_comm]
              | ok rows => simp [hextract]

/-- The decoder counts a frame exactly if it is a text. -/
theorem lines_offerFrame (d : Dump.Decoder) (number : Nat) :
    ((ofExtraction name extract write).offerFrame d number frame).1.lines =
      d.lines + if (textOf? frame).isSome then 1 else 0 := by
  cases hdecode : Text.Utf8.decode (withoutReturn frame) with
  | error bad =>
      simp only [offerFrame, decodeLine, textOf?, hdecode]
      rfl
  | ok s =>
      have hlines := d.decodeLine_lines (String.ofList s)
      simp only [offerFrame, decodeLine, textOf?, hdecode, ofExtraction, extraction]
      split
      · next h => rw [h] at hlines; exact hlines
      · next h => rw [h] at hlines; exact hlines
      · next h =>
          rw [h] at hlines
          split <;> exact hlines

theorem schema_offerFrame (d : Dump.Decoder) (number : Nat) :
    ((ofExtraction name extract write).offerFrame d number frame).1.schema =
      (headerOf? frame).or d.schema := by
  obtain ⟨d', answer, hoffer, hschema, -⟩ :=
    @offerFrame_ofExtraction ρ name extract write d number frame
  exact (congrArg (fun result => result.1.schema) hoffer).trans hschema

/-- The number of frames that are no text. -/
def undecodable (fs : List (List UInt8)) : Nat :=
  fs.countP fun f => (textOf? f).isNone

/-- Behind some frames the decoder knows the last header, and has counted the texts. -/
theorem decoder_of_foldlM {p q : Progress (ofExtraction name extract write)}
    (h : fs.foldlM Progress.step p = .ok q) :
    q.state.schema = lastHeader p.state.schema fs ∧
      q.state.lines + undecodable fs = p.state.lines + fs.length := by
  induction fs generalizing p with
  | nil =>
      obtain rfl := Except.ok.inj h
      exact ⟨rfl, rfl⟩
  | cons f fs ih =>
      rw [List.foldlM_cons] at h
      obtain ⟨next, hstep, h⟩ := Success.of_bind h
      obtain ⟨hschema, hlines⟩ := ih h
      have hstate := (Progress.eq_of_step hstep).2
      have hfirst : next.state.lines = p.state.lines + if (textOf? f).isSome then 1 else 0 :=
        (congrArg Dump.Decoder.lines hstate).trans (lines_offerFrame _ _)
      have hnext : next.state.schema = (headerOf? f).or p.state.schema :=
        (congrArg Dump.Decoder.schema hstate).trans (schema_offerFrame _ _)
      refine ⟨?_, ?_⟩
      · rw [hschema, hnext]
        rfl
      · rw [undecodable, List.countP_cons, List.length_cons]
        rw [undecodable] at hlines
        cases htext : textOf? f <;> simp [htext] at hfirst ⊢ <;> omega

/-- What a run that comes to a line knows of the lines before it. -/
theorem decoder_of_take {i : Nat} {p : Progress (ofExtraction name extract write)}
    (hf : fs[i]? = some frame)
    (h : (fs.take i).foldlM Progress.step (.start (ofExtraction name extract write)) = .ok p) :
    p.lines = i ∧ p.state.schema = lastHeader none (fs.take i) ∧
      p.state.lines + undecodable (fs.take i) = i := by
  have hlength := length_take_of_getElem? hf
  obtain ⟨hschema, hcount⟩ := decoder_of_foldlM h
  refine ⟨?_, hschema, ?_⟩
  · rw [Progress.lines_of_foldlM h, hlength]
    exact Nat.zero_add i
  · rw [hcount, hlength]
    exact Nat.zero_add i

/-- The decoder is given the line behind the first `i` lines, and refuses it. -/
def IsRefusedAt (fs : List (List UInt8)) (i : Nat) : Prop :=
  ∃ f d, fs[i]? = some f ∧ (textOf? f).isSome ∧
    contentOf (lastHeader none (fs.take i)) f = .error d

/--
Faults carry the number of the line, but for those of lines that the decoder
refuses: these are numbered among the lines that are texts.
-/
structure NumbersTexts (t : Tool) : Prop where
  refused : ∀ input i n d, t.Obtains input i (.malformed n d) →
    IsRefusedAt (frames input) i → n + undecodable ((frames input).take i) = i + 1
  others : ∀ input i n d, t.Obtains input i (.malformed n d) →
    ¬ IsRefusedAt (frames input) i → n = i + 1
  numbered_iff : ∀ input,
    (∀ i n d, t.Obtains input i (.malformed n d) → n = i + 1) ↔
      ∀ i, IsRefusedAt (frames input) i → undecodable ((frames input).take i) = 0

/-- What the decoder refuses is a fault, with the number of the line among the texts. -/
theorem obtains_of_isRefusedAt {input : List UInt8} {i : Nat}
    (h : IsRefusedAt (frames input) i) :
    ∃ n d, (ofExtraction name extract write).Obtains input i (.malformed n d) ∧
      n + undecodable ((frames input).take i) = i + 1 := by
  obtain ⟨f, d, hf, htext, hcontent⟩ := h
  obtain ⟨p, hp⟩ := Progress.exists_foldlM
    (isFatal_of_offer_ofExtraction name write extract) ((frames input).take i) (.start _)
  obtain ⟨-, hschema, hcount⟩ := decoder_of_take hf hp
  refine ⟨p.state.lines + 1, d, ⟨f, p, hf, hp, ?_⟩, by omega⟩
  refine (offerFrame_eq_malformed_iff _ _ _ _).2 (.inl ⟨?_, ?_⟩)
  · rw [hschema]
    exact hcontent
  · rw [if_pos htext]

theorem number_of_obtains {input : List UInt8} {i n : Nat} {d : Defect}
    (h : (ofExtraction name extract write).Obtains input i (.malformed n d)) :
    (IsRefusedAt (frames input) i ∧ n + undecodable ((frames input).take i) = i + 1) ∨
      (¬ IsRefusedAt (frames input) i ∧ n = i + 1) := by
  obtain ⟨f, p, hf, hp, hanswer⟩ := h
  obtain ⟨hlines, hschema, hcount⟩ := decoder_of_take hf hp
  have hrefused : IsRefusedAt (frames input) i ↔ (textOf? f).isSome ∧
      ∃ d, contentOf p.state.schema f = .error d := by
    rw [hschema]
    constructor
    · rintro ⟨f', d, hf', htext, hcontent⟩
      obtain rfl := Option.some.inj (hf.symm.trans hf')
      exact ⟨htext, d, hcontent⟩
    · rintro ⟨htext, d, hcontent⟩
      exact ⟨f, d, hf, htext, hcontent⟩
  rw [hlines] at hanswer
  rcases (offerFrame_eq_malformed_iff _ _ _ _).1 hanswer with
    ⟨hcontent, hn⟩ | ⟨row, hcontent, -, hn⟩
  · by_cases htext : (textOf? f).isSome
    · rw [if_pos htext] at hn
      exact .inl ⟨hrefused.2 ⟨htext, d, hcontent⟩, by omega⟩
    · rw [if_neg htext] at hn
      exact .inr ⟨fun h => htext (hrefused.1 h).1, hn⟩
  · refine .inr ⟨fun h => ?_, hn⟩
    obtain ⟨-, d', hd'⟩ := hrefused.1 h
    rw [hcontent] at hd'
    cases hd'

theorem numbersTexts_ofExtraction (name : String)
    (extract : Dump.Row → Except Defect (List ρ)) (write : ρ → String) :
    NumbersTexts (ofExtraction name extract write) where
  refused input i n d h hrefused := by
    rcases number_of_obtains h with ⟨-, hn⟩ | ⟨hnot, -⟩
    · exact hn
    · exact absurd hrefused hnot
  others input i n d h hnot := by
    rcases number_of_obtains h with ⟨hrefused, -⟩ | ⟨-, hn⟩
    · exact absurd hrefused hnot
    · exact hn
  numbered_iff input := by
    constructor
    · intro h i hrefused
      obtain ⟨n, d, hobtains, hn⟩ := obtains_of_isRefusedAt hrefused
      have hline := h i n d hobtains
      omega
    · intro h i n d hobtains
      rcases number_of_obtains hobtains with ⟨hrefused, hn⟩ | ⟨-, hn⟩
      · rw [h i hrefused] at hn
        exact hn
      · exact hn

end Dumps

/-! ## Tools -/

/--
Listings and rows: faults carry the number of the line.  Dumps: so they do
exactly if no line that the decoder refuses stands behind one that is no text.
-/
theorem faults_numbered (digest : String → Nat) (policy : GracePolicy)
    (v : Placement.Inventory) (storageId : String) (origin : Dump.Origin) :
    (NumbersLines (listCruft storageId) ∧ NumbersLines (listReplicas storageId)) ∧
      (NumbersLines (collectObjects policy) ∧ NumbersLines (collectUploads policy) ∧
        NumbersLines (findCruft policy) ∧ NumbersLines auditReplicas ∧
        NumbersLines (planMoves digest v)) ∧
      NumbersTexts decode ∧ NumbersTexts (extractObjects origin) ∧
        NumbersTexts (extractUploads origin) ∧ NumbersTexts extractReferences ∧
        NumbersTexts extractReplicas ∧ NumbersTexts (extractPlacements origin) := by
  refine ⟨⟨numbersLines_ofListings _ _ _ _, numbersLines_ofListings _ _ _ _⟩, ?rows, ?dumps⟩
  case rows =>
    exact ⟨numbersLines_ofEngine (Object.grouping policy).refusesFatally,
      numbersLines_ofEngine (Upload.refusesFatally_collector policy),
      numbersLines_ofEngine (Cruft.grouping policy).refusesFatally,
      numbersLines_ofEngine Audit.grouping.refusesFatally,
      numbersLines_ofEngine (refusesFatally_planner digest v)⟩
  case dumps =>
    exact ⟨numbersTexts_ofExtraction .., numbersTexts_ofExtraction ..,
      numbersTexts_ofExtraction .., numbersTexts_ofExtraction ..,
      numbersTexts_ofExtraction .., numbersTexts_ofExtraction ..⟩

/-- A byte that is no text, and a line that is no JSON. -/
def spoiledInput : List UInt8 :=
  [255, 10, 120, 10]

/-- The decoder refuses the second line as the first one that it is given. -/
theorem not_numbersLines_decode : ¬ NumbersLines decode := by
  intro h
  have hnumber := h spoiledInput 1 1 (.invalidJson .malformed)
    ⟨_, _, rfl, rfl, by decide +kernel⟩
  exact absurd hnumber (by decide)

end Tool
end Reclaim
