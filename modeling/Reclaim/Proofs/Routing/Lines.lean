import Reclaim.Command
import Reclaim.Proofs.Tool.Plain

/-!
# Lines of the outputs of a router

A router writes every line that can be decoded to one output, which is chosen
without the end of the line.  The newline and the carriage return before it are
gone when the line has been read; the router drops one more carriage return,
and so does who reads the output.  So an output holds the lines that are routed
there, in their order and each shorter by as many carriage returns as it ends
in, up to two.

Main results: `getElem?_run`, and `routed_lines`, which says exactly when all
outputs hold their lines as they were read.
-/

namespace Reclaim
namespace Routing

/-! ## Ends of lines -/

namespace Router

variable {l : String}

theorem withoutEnd_of_plain (plain : Text.Plain l) : withoutEnd l = l := by
  have hnewline : l.toList.getLast? ≠ some '\n' :=
    fun h => plain.oneLine (List.mem_of_getLast? h)
  simp only [withoutEnd, if_neg hnewline, if_neg plain.noReturn, String.ofList_toList]

theorem map_withoutEnd {lines : List String} (plain : ∀ l ∈ lines, Text.Plain l) :
    lines.map withoutEnd = lines := by
  rw [List.map_congr_left fun l hl => withoutEnd_of_plain (plain l hl), List.map_id']

/-- The carriage return at the end of a line is dropped. -/
theorem toList_of_return (h : l.toList.getLast? = some '\r') :
    l.toList = (withoutEnd l).toList ++ ['\r'] := by
  have hnewline : l.toList.getLast? ≠ some '\n' := by
    rw [h]
    decide
  simp only [withoutEnd, if_neg hnewline, if_pos h, String.toList_ofList]
  exact (List.dropLast_append_getLast? _ h).symm

/-- A line that stays on one line either is plain or loses a carriage return. -/
theorem plain_or_return (h : Text.OneLine l) :
    Text.Plain l ∨ l.toList.getLast? = some '\r' := by
  by_cases hreturn : l.toList.getLast? = some '\r'
  · exact .inr hreturn
  · exact .inl ⟨h, hreturn⟩

theorem oneLine_withoutEnd (h : Text.OneLine l) : Text.OneLine (withoutEnd l) := by
  rcases plain_or_return h with plain | hreturn
  · rw [withoutEnd_of_plain plain]
    exact h
  · refine h.of_subset ?_
    rw [toList_of_return hreturn]
    exact List.subset_append_left _ _

/-- What ends in a carriage return without its end was longer by one. -/
theorem toList_of_withoutEnd_return (h : Text.OneLine l)
    (hreturn : (withoutEnd l).toList.getLast? = some '\r') :
    l.toList = (withoutEnd l).toList ++ ['\r'] := by
  rcases plain_or_return h with plain | hl
  · rw [withoutEnd_of_plain plain] at hreturn
    exact absurd hreturn plain.noReturn
  · exact toList_of_return hl

end Router

open Router

/-- The text of a written line lacks the carriage return at its end. -/
theorem textOf?_encode_of_oneLine {l : String} (h : Text.OneLine l) :
    Tool.textOf? (Text.Utf8.encode l.toList) = some (withoutEnd l) := by
  rcases plain_or_return h with plain | hreturn
  · rw [Tool.textOf?_encode plain, withoutEnd_of_plain plain]
  · have hbytes : Tool.withoutReturn (Text.Utf8.encode l.toList) =
        Text.Utf8.encode (withoutEnd l).toList := by
      have hcut : Text.Utf8.encode l.toList =
          Text.Utf8.encode (withoutEnd l).toList ++ [Tool.carriageReturn] := by
        rw [toList_of_return hreturn, Tool.encode_append]
        rfl
      rw [hcut, Tool.withoutReturn, if_pos List.getLast?_concat, List.dropLast_concat]
    rw [Tool.textOf?, hbytes, Text.Utf8.decode_encode]
    exact congrArg some String.ofList_toList

/-! ## Lines that can be decoded -/

/-- The lines that can be decoded are the texts of the frames. -/
theorem decodedLines_eq (input : List UInt8) :
    decodedLines input = (Tool.frames input).filterMap Tool.textOf? := by
  rw [← List.zipIdx_map_fst 1 (Tool.frames input), List.filterMap_map]
  refine List.filterMap_congr fun (frame, number) _ => ?_
  simp only [Function.comp_apply, Tool.decodeLine, Tool.textOf?]
  cases Text.Utf8.decode (Tool.withoutReturn frame) <;> rfl

theorem oneLine_of_mem_decodedLines {input : List UInt8} {l : String}
    (h : l ∈ decodedLines input) : Text.OneLine l := by
  obtain ⟨⟨frame, number⟩, hframe, hl⟩ := List.mem_filterMap.1 h
  have hnewline := Tool.newline_not_mem_frames (List.fst_mem_of_mem_zipIdx hframe)
  cases hdecode : Tool.decodeLine number frame with
  | error d =>
      simp only [hdecode] at hl
      cases hl
  | ok line =>
      simp only [hdecode] at hl
      rw [← Option.some.inj hl]
      exact Tool.oneLine_of_decodeLine hnewline hdecode

/-- Written lines are read back without the carriage returns at their ends. -/
theorem decodedLines_bytesOf {lines : List String} (h : ∀ l ∈ lines, Text.OneLine l) :
    decodedLines (Tool.bytesOf lines) = lines.map withoutEnd := by
  rw [decodedLines_eq, Tool.frames_bytesOf h, List.filterMap_map, ← List.filterMap_eq_map]
  exact List.filterMap_congr fun l hl => textOf?_encode_of_oneLine (h l hl)

/-! ## Lines of the outputs -/

namespace Router

variable {r : Router}

/-- A line that is sent adds one to the number of lines of its output. -/
theorem map_length_send (outputs : Outputs) (l : String) :
    (r.send outputs l).map List.length =
      (outputs.map List.length).modify (r.route (withoutEnd l)) (· + 1) := by
  refine List.ext_getElem? fun i => ?_
  simp only [send, List.getElem?_map, List.getElem?_modify]
  cases outputs[i]? with
  | none => rfl
  | some before => by_cases hi : r.route (withoutEnd l) = i <;> simp [hi]

/-- The lines of an output are those before it and those that are routed there. -/
theorem getElem?_foldl_send (lines : List String) (outputs : Outputs) (i : Nat) :
    (lines.foldl r.send outputs)[i]? = outputs[i]?.map
      (((lines.map withoutEnd).filter fun l => r.route l = i).reverse ++ ·) := by
  induction lines generalizing outputs with
  | nil => simp
  | cons l lines ih =>
      rw [List.foldl_cons, ih, send, List.getElem?_modify, List.map_cons]
      by_cases hi : r.route (withoutEnd l) = i
      · cases outputs[i]? with
        | none => simp
        | some before => simp [hi]
      · cases outputs[i]? with
        | none => simp
        | some before => simp [hi]

/-- Sending lines that can all be read goes on to the last one. -/
theorem sendAll_ok (lines : List String) (outputs : Outputs) :
    r.sendAll outputs (lines.map .ok) = (lines.foldl r.send outputs, .ok ()) := by
  induction lines generalizing outputs with
  | nil => rfl
  | cons l lines ih => exact ih _

/-- The lines that are written to an output. -/
def written (r : Router) (input : List UInt8) (i : Nat) : List String :=
  ((decodedLines input).map withoutEnd).filter fun l => r.route l = i

variable {input : List UInt8}

/-- Each output gets the lines that are routed there, in their order. -/
theorem getElem?_run {i : Nat} (hi : i < r.outputs) :
    (r.run input)[i]? = some (r.written input i) := by
  rw [run, linesOf, List.getElem?_map, getElem?_foldl_send, start,
    List.getElem?_replicate_of_lt hi]
  simp [written]

theorem length_run (r : Router) (input : List UInt8) : (r.run input).length = r.outputs := by
  have length_foldl : ∀ (lines : List String) (outputs : Outputs),
      (lines.foldl r.send outputs).length = outputs.length := by
    intro lines
    induction lines with
    | nil => exact fun _ => rfl
    | cons l lines ih => exact fun outputs => (ih _).trans (List.length_modify ..)
  rw [run, linesOf, List.length_map, length_foldl, start, List.length_replicate]

/-- All outputs are told by the lines that are written to them. -/
theorem run_eq (r : Router) (input : List UInt8) :
    r.run input = (List.range r.outputs).map (r.written input) := by
  refine List.ext_getElem? fun i => ?_
  rw [List.getElem?_map]
  by_cases hi : i < r.outputs
  · rw [getElem?_run hi, List.getElem?_range hi]
    rfl
  · rw [List.getElem?_eq_none (by rw [length_run]; omega),
      List.getElem?_eq_none (by rw [List.length_range]; omega)]
    rfl

theorem oneLine_of_mem_written {i : Nat} {l : String} (h : l ∈ r.written input i) :
    Text.OneLine l := by
  obtain ⟨l', hl', rfl⟩ := List.mem_map.1 (List.mem_filter.1 h).1
  exact oneLine_withoutEnd (oneLine_of_mem_decodedLines hl')

/-- The lines that are read of an output. -/
def readBack (r : Router) (input : List UInt8) (i : Nat) : List String :=
  decodedLines (Tool.bytesOf (r.written input i))

theorem readBack_eq (r : Router) (input : List UInt8) (i : Nat) :
    r.readBack input i = (r.written input i).map withoutEnd :=
  decodedLines_bytesOf fun _ h => oneLine_of_mem_written h

/-- The lines of the input that the router has for an output. -/
def share (r : Router) (input : List UInt8) (i : Nat) : List String :=
  (decodedLines input).filter fun l => r.route l = i

/-- Plain lines are written and read back as they are. -/
theorem readBack_of_plain (plain : ∀ l ∈ decodedLines input, Text.Plain l) (i : Nat) :
    r.readBack input i = r.share input i := by
  have hwritten : r.written input i = r.share input i := by
    rw [written, map_withoutEnd plain]
    rfl
  rw [readBack_eq, hwritten]
  exact map_withoutEnd fun l hl => plain l (List.mem_filter.1 hl).1

/-- A line that is read back with a carriage return at its end was longer by two. -/
theorem exists_longer {i : Nat} {l : String} (h : l ∈ r.readBack input i)
    (hreturn : l.toList.getLast? = some '\r') :
    ∃ l' ∈ decodedLines input, l'.toList = l.toList ++ ['\r', '\r'] := by
  rw [readBack_eq] at h
  obtain ⟨m, hm, rfl⟩ := List.mem_map.1 h
  obtain ⟨l', hl', rfl⟩ := List.mem_map.1 (List.mem_filter.1 hm).1
  have hline := oneLine_of_mem_decodedLines hl'
  have hm := toList_of_withoutEnd_return (oneLine_withoutEnd hline) hreturn
  have hl := toList_of_withoutEnd_return hline (by rw [hm]; exact List.getLast?_concat)
  refine ⟨l', hl', ?_⟩
  rw [hl, hm, List.append_assoc]
  rfl

/-- If every output is read back as its share, no line ends in a carriage return. -/
theorem plain_of_readBack (h : ∀ i < r.outputs, r.readBack input i = r.share input i) :
    ∀ l ∈ decodedLines input, Text.Plain l := by
  refine fun l hl => ⟨oneLine_of_mem_decodedLines hl, fun hreturn => ?_⟩
  -- Such a line leads to ever longer ones, each being what is read back of the next.
  have unbounded : ∀ n, ∃ l' ∈ decodedLines input,
      l'.toList.getLast? = some '\r' ∧ n ≤ l'.toList.length := by
    intro n
    induction n with
    | zero => exact ⟨l, hl, hreturn, Nat.zero_le _⟩
    | succ n ih =>
        obtain ⟨m, hm, hend, hlong⟩ := ih
        have hread : m ∈ r.readBack input (r.route m) := by
          rw [h _ (r.route_lt m)]
          exact List.mem_filter.2 ⟨hm, decide_eq_true rfl⟩
        obtain ⟨m', hm', heq⟩ := exists_longer hread hend
        refine ⟨m', hm', ?_, ?_⟩
        · rw [heq, Text.getLast?_append_cons]
          rfl
        · rw [heq, List.length_append]
          exact Nat.add_le_add hlong (by decide)
  obtain ⟨m, hm, -, hlong⟩ :=
    unbounded (((decodedLines input).map String.toList).flatten.length + 1)
  have hshort := (List.sublist_flatten_of_mem
    (List.mem_map_of_mem (f := String.toList) hm)).length_le
  omega

/-- Every output is read back as the lines that the router has for it. -/
def Faithful (r : Router) (input : List UInt8) : Prop :=
  ∀ i < r.outputs, ∃ lines, (r.run input)[i]? = some lines ∧
    decodedLines (Tool.bytesOf lines) = r.share input i

/-- The outputs are faithful exactly if no line ends in a carriage return. -/
theorem faithful_iff : r.Faithful input ↔
    ∀ l ∈ decodedLines input, l.toList.getLast? ≠ some '\r' := by
  constructor
  · intro h l hl
    refine (plain_of_readBack (r := r) (fun i hi => ?_) l hl).noReturn
    obtain ⟨lines, hlines, hread⟩ := h i hi
    obtain rfl := Option.some.inj ((getElem?_run hi).symm.trans hlines)
    exact hread
  · intro h i hi
    refine ⟨_, getElem?_run hi, readBack_of_plain (fun l hl => ?_) i⟩
    exact ⟨oneLine_of_mem_decodedLines hl, h l hl⟩

/-- The lines of an output are counted one by one. -/
theorem counts_eq (r : Router) (input : List UInt8) :
    r.counts input = (r.run input).map List.length := by
  have counted : ∀ (lines : List String) (outputs : Outputs),
      lines.foldl r.count (outputs.map List.length) =
        (lines.foldl r.send outputs).map List.length := by
    intro lines
    induction lines with
    | nil => exact fun _ => rfl
    | cons l lines ih =>
        intro outputs
        rw [List.foldl_cons, List.foldl_cons, ← ih, map_length_send, count]
  have hstart : r.start.map List.length = List.replicate r.outputs 0 := List.map_replicate
  rw [counts, ← hstart, counted, run, linesOf, List.map_map]
  exact List.map_congr_left fun _ _ => List.length_reverse.symm

end Router

/-! ## Files -/

section Files

variable {path : String} {files : List (String × List UInt8)}

theorem writeFile_of_not_mem {content : List UInt8} (h : path ∉ files.map Prod.fst) :
    writeFile path content files = files ++ [(path, content)] := by
  induction files with
  | nil => rfl
  | cons file files ih =>
      rw [List.map_cons, List.mem_cons, not_or] at h
      rw [writeFile, if_neg (Ne.symm h.1), ih h.2]
      rfl

/-- Outputs with names of their own are written to files of their own. -/
theorem filesOf_of_nodup {paths : List String} {outputs : List (List String)}
    (hlength : outputs.length = paths.length) (names : paths.Nodup) :
    filesOf paths outputs = paths.zip (outputs.map Tool.bytesOf) := by
  have written : ∀ (named : List (String × List String)) (files : List (String × List UInt8)),
      (files.map Prod.fst ++ named.map Prod.fst).Nodup →
      named.foldl (fun files output => writeFile output.1 (Tool.bytesOf output.2) files) files =
        files ++ named.map (Prod.map id Tool.bytesOf) := by
    intro named
    induction named with
    | nil => exact fun files _ => (List.append_nil files).symm
    | cons output named ih =>
        intro files hnames
        have hnew : output.1 ∉ files.map Prod.fst := by
          intro hmem
          exact (List.nodup_append.1 hnames).2.2 _ hmem _ List.mem_cons_self rfl
        rw [List.foldl_cons, writeFile_of_not_mem hnew, ih]
        · simp [Prod.map]
        · rw [List.map_append, List.append_assoc]
          exact hnames
  have hfst : (paths.zip outputs).map Prod.fst = paths :=
    List.map_fst_zip (Nat.le_of_eq hlength.symm)
  rw [List.zip_map_right]
  exact written (paths.zip outputs) [] (by rw [List.map_nil, List.nil_append, hfst]; exact names)

end Files

/-! ## Runs -/

/-- What a run writes for each of the outputs, how it is read, and how it is counted. -/
structure Routed (r : Router) (outputs : List String) (input : List UInt8)
    (w : Written) : Prop where
  output : w.output = []
  /-- Outputs that share a file have to fit their buffers, as said at `filesOf`. -/
  files : w.files = filesOf outputs ((List.range r.outputs).map (r.written input))
  /-- Files that are not shared hold their outputs, of any length. -/
  contents : outputs.Nodup →
    w.files = outputs.zip ((List.range r.outputs).map fun i => Tool.bytesOf (r.written input i))
  texts : ∀ i, Tool.frames (Tool.bytesOf (r.written input i)) =
    (r.written input i).map fun l => Text.Utf8.encode l.toList
  readBack : ∀ i, decodedLines (Tool.bytesOf (r.written input i)) =
    (r.written input i).map withoutEnd
  counts : r.counts input = (List.range r.outputs).map fun i => (r.written input i).length
  faithful : r.Faithful input ↔ ∀ l ∈ decodedLines input, l.toList.getLast? ≠ some '\r'

section Runs

/-- The router of a command that has outputs. -/
def routerOf (digest : String → Nat) (field : Option Nat) (delimiter : String)
    {outputs : List String} (h : outputs ≠ []) : Router :=
  ⟨outputs.length, List.length_pos_iff.2 h, (Command.keyPart field delimiter).extract,
    selectByDigest digest⟩

/--
Every line that can be decoded is written to one output.  The outputs are read
back as the lines that are routed there exactly if no line ends in a carriage
return once it has been read.
-/
theorem routed_lines (digest : String → Nat) (s : Settings) (now : Time.Instant)
    (field : Option Nat) (delimiter : String) {outputs : List String} (h : outputs ≠ [])
    (input : List UInt8) :
    ∃ w, Command.run digest s now (.routeLines outputs field delimiter) input = .ok w ∧
      Routed (routerOf digest field delimiter h) outputs input w := by
  let r := routerOf digest field delimiter h
  have hrouter : Router.ofOutputs outputs.length (Command.keyPart field delimiter).extract
      (selectByDigest digest) = .ok r := dif_pos (List.length_pos_iff.2 h)
  refine ⟨⟨[], filesOf outputs (r.run input)⟩, ?_, ?_⟩
  · rw [Command.run, Command.runRouter, hrouter]
  refine ⟨rfl, ?_, fun names => ?_, fun i => ?_, r.readBack_eq input, ?_, faithful_iff⟩
  · rw [r.run_eq]
  · rw [filesOf_of_nodup (r.length_run input) names, r.run_eq, List.map_map]
    rfl
  · exact Tool.frames_bytesOf fun l hl => oneLine_of_mem_written hl
  · rw [counts_eq, r.run_eq, List.map_map]
    rfl

/-- Settings that are not given. -/
def noSettings : Settings :=
  ⟨Settings.defaultGracePeriod, none, none, none, none, Settings.defaultConcurrency⟩

/-- A line that ends in a carriage return, and another line. -/
def returnInput : List UInt8 :=
  Text.Utf8.encode "a\r\r\nb\n".toList

/-- Both lines are written and counted, and the first one has lost a carriage return. -/
theorem routed_lines_of_return :
    ["o"] ≠ [] ∧ ∃ w,
      Command.run (fun _ => 0) noSettings (.wholeSecond 0) (.routeLines ["o"] none "\t")
        returnInput = .ok w ∧ w.files = [("o", Text.Utf8.encode "a\nb\n".toList)] := by
  obtain ⟨w, hw, routed⟩ := routed_lines (fun _ => 0) noSettings (.wholeSecond 0) none "\t"
    (List.cons_ne_nil "o" []) returnInput
  refine ⟨List.cons_ne_nil "o" [], w, hw, ?_⟩
  rw [routed.contents (List.nodup_singleton _)]
  decide +kernel

/-- A line that ends in a carriage return is not read back as it was. -/
theorem not_forall_faithful :
    ¬ ∀ (digest : String → Nat) (field : Option Nat) (delimiter : String)
      (outputs : List String) (h : outputs ≠ []) (input : List UInt8),
      (routerOf digest field delimiter h).Faithful input := by
  intro hall
  have hfaithful := hall (fun _ => 0) none "\t" ["o"] (List.cons_ne_nil _ _) returnInput
  exact absurd (faithful_iff.1 hfaithful) (by decide +kernel)

end Runs

end Routing
end Reclaim
