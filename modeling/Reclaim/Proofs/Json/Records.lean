import Reclaim.Json.Record
import Reclaim.Proofs.Json.RoundTrip

/-!
# Printed records are read back

What the codecs take from the tokens of a printed value.  A record takes an
object member by member: a member that belongs to a field that has not been set
yet changes the draft by what the codec of the field takes.

Main results: `takes_list`, `visits_field` and `takes_record`.
-/

namespace Reclaim
namespace Json
namespace Codec

variable {α β δ ρ : Type}

theorem takes_text (depth : Nat) (s : String) :
    Takes (text.ofTokens depth) (.string s) s := by
  intro r
  simp only [Value.tokens, text, List.cons_append, List.nil_append,
    decodeString_stringParts]
  rfl

theorem takes_value
    {depth : Nat} {v : Value} (h : v.Canonical Number.ReadsBack depth) :
    Takes (value.ofTokens depth) v v :=
  takes_readValue h

/-- A signed number of 64 bits is taken as itself. -/
theorem takes_signed
    (depth : Nat) {n : Int}
    (low : -(Text.maxSigned64 : Int) - 1 ≤ n) (high : n ≤ Text.maxSigned64) :
    Takes (signed.ofTokens depth) (.number (.integer n)) n := by
  have fits : (Number.integer n).IsInteger64 :=
    ⟨low, Int.le_trans high (by decide)⟩
  obtain ⟨t, htoken, -, ht⟩ := fits.readsBack.token_eq
  intro r
  simp only [Value.tokens, htoken, signed, List.cons_append, List.nil_append,
    ht, bind, Except.bind, signedOfNumber, if_pos high]

theorem takes_map
    {c : Codec α} {depth : Nat} {v : Value} {x : α} (f : α → β)
    (h : Takes (c.ofTokens depth) v x) :
    Takes ((c.map f).ofTokens depth) v (f x) := by
  intro r
  simp only [map, h r]
  rfl

theorem takes_null (c : Codec α) (depth : Nat) :
    Takes ((optional c).ofTokens depth) .null none :=
  fun _ => rfl

theorem head_tokens_ne_null {v : Value} (h : v ≠ .null) (r r' : List Token) :
    v.tokens ++ r ≠ .null :: r' := by
  cases v with
  | null => exact absurd rfl h
  | number n =>
      simp only [Value.tokens, Number.token]
      split <;> simp
  | _ => simp [Value.tokens]

theorem takes_some
    {c : Codec α} {depth : Nat} {v : Value} {x : α}
    (present : v ≠ .null) (h : Takes (c.ofTokens depth) v x) :
    Takes ((optional c).ofTokens depth) v (some x) := by
  intro r
  simp only [optional]
  split
  · next r' heq => exact absurd heq (head_tokens_ne_null present r r')
  · rw [h r]
    rfl

/-- A list is taken item by item. -/
theorem takes_list
    {c : Codec α} {depth : Nat} {vs : List Value} {xs : List α}
    (h : List.Forall₂ (Takes (c.ofTokens depth)) vs xs) :
    Takes ((list c).ofTokens (depth + 1)) (.array vs) xs := by
  intro r
  simp only [Value.tokens, list, List.cons_append]
  exact items_of_takes h r

/-- A member of an object changes the draft through the codec of its field. -/
theorem visits_field
    {fields : List (Field δ)} {f : Field δ} {depth : Nat}
    {draft draft' : δ} {name : String} {v : Value} {ms : Members}
    {change : δ → δ}
    (found : fields.find? (·.name = name) = some f)
    (unset : f.isSet draft = false)
    (takes : Takes (f.codec.ofTokens depth) v change)
    (rest : Visits (Field.readMember fields depth) (change draft) ms draft') :
    Visits (Field.readMember fields depth) draft ((name, v) :: ms) draft' := by
  refine .cons (t := change draft) ?_ rest
  intro r
  simp only [Field.readMember, found, unset, behindColon, takes r, bind,
    Except.bind]
  rfl

/-- A record takes an object whose members complete its draft. -/
theorem takes_record
    {fields : List (Field δ)} {empty draft : δ}
    {finish : δ → Except Fault ρ} {depth : Nat} {ms : Members} {x : ρ}
    (visits : Visits (Field.readMember fields depth) empty ms draft)
    (finished : finish draft = .ok x) :
    Takes ((record fields empty finish).ofTokens (depth + 1)) (.object ms)
      x := by
  intro r
  simp only [Value.tokens, record, List.cons_append,
    members_of_visits visits r, bind, Except.bind, finished]
  rfl

end Codec
end Json
end Reclaim
