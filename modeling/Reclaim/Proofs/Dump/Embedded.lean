import Reclaim.Metadata
import Reclaim.Proofs.Json.Agreement

/-!
# Embedded metadata

The metadata of a row is an object, or a text that writes one.  It does not
matter which of the two a dump has, if no object in the text repeats a name: the
fields of metadata and of a location are read into different parts of a draft,
so that both are records whose codecs agree on texts and values.

Main result: `Metadata.toOption_ofValue_text`.
-/

namespace Reclaim

open Json Json.Codec

namespace Location

theorem pairwise_apart_fields : fields.Pairwise Field.Apart := by
  simp only [fields, List.pairwise_cons, List.forall_mem_cons, List.not_mem_nil,
    false_implies, implies_true, List.Pairwise.nil, and_true]
  and_intros
  all_goals
    exact Field.apart_of_map rfl rfl (fun _ _ _ => rfl) (fun _ _ => rfl) fun _ _ => rfl

/-- A location is read alike from a text and from a value. -/
theorem agrees_codec : codec.Agrees := by
  refine Agrees.record ?_ pairwise_apart_fields ?_ ofDraft
  · simp only [fields, List.forall_mem_cons, List.not_mem_nil, false_implies, implies_true,
      and_true]
    exact ⟨agrees_text.optional.map _, agrees_text.map _, agrees_text.optional.map _,
      agrees_text.optional.map _⟩
  · simp [fields]

end Location

namespace Metadata

theorem pairwise_apart_fields : fields.Pairwise Field.Apart := by
  simp only [fields, List.pairwise_cons, List.forall_mem_cons, List.not_mem_nil,
    false_implies, implies_true, List.Pairwise.nil, and_true]
  and_intros
  all_goals
    exact Field.apart_of_map rfl rfl (fun _ _ _ => rfl) (fun _ _ => rfl) fun _ _ => rfl

/-- Metadata is read alike from a text and from a value. -/
theorem agrees_codec : codec.Agrees := by
  refine Agrees.record ?_ pairwise_apart_fields ?_ ofDraft
  · simp only [fields, List.forall_mem_cons, List.not_mem_nil, false_implies, implies_true,
      and_true]
    exact ⟨agrees_text.map _, agrees_text.map _, agrees_text.optional.map _,
      agrees_text.optional.map _, Location.agrees_codec.list.map _,
      agrees_signed.optional.map _, agrees_value.optional.map _⟩
  · simp [fields]

/--
Metadata that is embedded as a text is read as the value that the text writes, or
neither is read, unless the text repeats a name in an object.  A text that writes
a string is another matter, since a string stands for what it writes itself.
-/
theorem toOption_ofValue_text {t : String} {v : Value} (hparse : parse t = .ok v)
    (honce : RepeatsNoName t) (hstring : ∀ s, v ≠ .string s) :
    (ofValue (.string t)).toOption = (ofValue v).toOption := by
  have hvalue : ofValue v = (codec.ofValue v).mapError .invalidMetadata := by
    cases v with
    | string s => exact absurd rfl (hstring s)
    | _ => rfl
  rw [hvalue, ofValue, Success.toOption_mapError, Success.toOption_mapError]
  exact agrees_codec.toOption_ofText hparse honce

/-- Metadata whose members are not in order, with a field that is not modelled. -/
def embeddedSample : String :=
  "\x7b\"type\":\"object\",\"sharks\":[[null,\"1.stor\"]],\"mtime\":7,\"etag\":[\x7b\"b\":[true]\x7d],\"key\":\"/o/k\"\x7d"

/-- The value that the sample writes, with its members as they are written. -/
def embeddedValue : Value :=
  .object [("type", .string "object"),
    ("sharks", .array [.array [.null, .string "1.stor"]]),
    ("mtime", .number (.integer 7)),
    ("etag", .array [.object [("b", .array [.bool true])]]),
    ("key", .string "/o/k")]

theorem namesOnce_embeddedValue : embeddedValue.NamesOnce := by
  refine .object (by decide) ?_
  simp only [List.forall_mem_cons]
  refine ⟨.string _, ?_, .number _, ?_, .string _, List.forall_mem_nil _⟩
  · refine .array ?_
    simp only [List.forall_mem_cons]
    refine ⟨.array ?_, List.forall_mem_nil _⟩
    simp only [List.forall_mem_cons]
    exact ⟨.null, .string _, List.forall_mem_nil _⟩
  · refine .array ?_
    simp only [List.forall_mem_cons]
    refine ⟨.object (by decide) ?_, List.forall_mem_nil _⟩
    simp only [List.forall_mem_cons]
    refine ⟨.array ?_, List.forall_mem_nil _⟩
    simp only [List.forall_mem_cons]
    exact ⟨.bool true, List.forall_mem_nil _⟩

/-- The sample is read as the object that it writes. -/
theorem toOption_ofValue_embeddedSample :
    parse embeddedSample = .ok embeddedValue.ordered ∧ RepeatsNoName embeddedSample ∧
      (ofValue (.string embeddedSample)).toOption =
        some ⟨"/o/k", "object", none, none, [⟨none, "1.stor", none, none⟩], some 7, none⟩ := by
  have hwritten : written embeddedSample = .ok embeddedValue := by
    decide +kernel
  have hparse : parse embeddedSample = .ok embeddedValue.ordered := by
    rw [parse_eq_written, hwritten]
    rfl
  have honce : RepeatsNoName embeddedSample := ⟨_, hwritten, namesOnce_embeddedValue⟩
  refine ⟨hparse, honce, ?_⟩
  rw [toOption_ofValue_text hparse honce (by simp [embeddedValue, ordered_object])]
  rfl

end Metadata
end Reclaim
