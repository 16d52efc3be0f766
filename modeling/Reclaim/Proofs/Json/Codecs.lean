import Reclaim.Proofs.Json.Reading
import Reclaim.Proofs.Json.Strings

/-!
# What codecs read

A codec puts what it reads together from parts of a value or of a text.  What
holds of the parts then holds of what is read, which is shown once for each way
to build a codec: a record changes a draft field by field, and keeps what every
change keeps.

Main results: `Codec.Gives.record` for values, `Codec.SetBy.of_members` for the
fields of objects, and `Codec.GivesFrom.record` for texts.
-/

namespace Reclaim
namespace Json

namespace Codec

variable {α β δ ρ : Type} {Within Inside : Value → Prop}

/-- What is read from values with a property has a property of its own. -/
def Gives (c : Codec α) (Within : Value → Prop) (Holds : α → Prop) : Prop :=
  ∀ v, Within v → ∀ x, c.ofValue v = .ok x → Holds x

/-- A property of values gives another one for their items and members. -/
structure PartsOf (Within Inside : Value → Prop) : Prop where
  items : ∀ xs, Within (.array xs) → ∀ x ∈ xs, Inside x
  members : ∀ ms, Within (.object ms) → ∀ m ∈ ms, Inside m.2

theorem eq_some_of_required
    {name : String} {o : Option α} {x : α} (h : required name o = .ok x) :
    o = some x := by
  cases o with
  | none => cases h
  | some y => rw [Except.ok.inj h]

namespace Gives

variable {Holds : α → Prop} {Kept : δ → Prop}

theorem mono
    {c : Codec α} (h : c.Gives Within Holds) (sub : ∀ v, Inside v → Within v) :
    c.Gives Inside Holds :=
  fun v hv => h v (sub v hv)

theorem text
    {Fine : String → Prop} (strings : ∀ s, Within (.string s) → Fine s) :
    Codec.text.Gives Within Fine := by
  intro v hv x h
  cases v with
  | string s =>
      obtain rfl := Except.ok.inj h
      exact strings s hv
  | _ => cases h

theorem map
    {c : Codec α} {f : α → β} {Mapped : β → Prop} (h : c.Gives Within Holds)
    (step : ∀ x, Holds x → Mapped (f x)) :
    (c.map f).Gives Within Mapped := by
  intro v hv y hy
  obtain ⟨x, hx, rfl⟩ := Success.of_map hy
  exact step x (h v hv x hx)

/-- What is read where a value is not null. -/
theorem optional
    {c : Codec α} (h : c.Gives (fun v => v ≠ .null ∧ Within v) Holds) :
    (optional c).Gives Within fun o => ∀ x ∈ o, Holds x := by
  intro v hv o ho
  simp only [Codec.optional] at ho
  split at ho
  · cases ho
    nofun
  · next present =>
      obtain ⟨x, hx, rfl⟩ := Success.of_map ho
      rintro y ⟨⟩
      exact h v ⟨fun hnull => present hnull, hv⟩ x hx

theorem of_mapM
    {c : Codec α} (h : c.Gives Inside Holds)
    {vs : List Value} {xs : List α} (inside : ∀ v ∈ vs, Inside v)
    (read : vs.mapM c.ofValue = .ok xs) :
    ∀ x ∈ xs, Holds x := by
  intro x hx
  obtain ⟨v, hv, hx⟩ := Success.mem_of_mapM read x hx
  exact h v (inside v hv) x hx

theorem list
    {c : Codec α} (parts : PartsOf Within Inside) (h : c.Gives Inside Holds) :
    (list c).Gives Within fun xs => ∀ x ∈ xs, Holds x := by
  intro v hv xs read
  cases v with
  | array vs => exact h.of_mapM (parts.items vs hv) read
  | _ => cases read

/-- The draft of a record keeps a property that the codecs of all fields keep. -/
def KeptBy (fields : List (Field δ)) (Inside : Value → Prop)
    (Kept : δ → Prop) : Prop :=
  ∀ f ∈ fields, f.codec.Gives Inside fun change =>
    ∀ draft, Kept draft → Kept (change draft)

theorem kept_of_visitMember
    {fields : List (Field δ)} (kept : KeptBy fields Inside Kept)
    {draft draft' : δ} {m : String × Value} (hd : Kept draft)
    (inside : Inside m.2)
    (read : Field.visitMember fields draft m = .ok draft') :
    Kept draft' := by
  simp only [Field.visitMember] at read
  split at read
  · next f found =>
      obtain ⟨change, hc, read⟩ := Success.of_bind read
      obtain rfl := Except.ok.inj read
      exact kept f (List.mem_of_find?_eq_some found) m.2 inside change hc draft
        hd
  · obtain rfl := Except.ok.inj read
    exact hd

theorem kept_of_members
    {fields : List (Field δ)} (kept : KeptBy fields Inside Kept)
    {ms : Members} {draft draft' : δ} (hd : Kept draft)
    (inside : ∀ m ∈ ms, Inside m.2)
    (read : ms.foldlM (Field.visitMember fields) draft = .ok draft') :
    Kept draft' := by
  induction ms generalizing draft with
  | nil =>
      cases read
      exact hd
  | cons m ms ih =>
      rw [List.foldlM_cons] at read
      obtain ⟨next, hm, read⟩ := Success.of_bind read
      obtain ⟨insideM, insideMs⟩ := List.forall_mem_cons.1 inside
      exact ih (kept_of_visitMember kept hd insideM hm) insideMs read

theorem kept_of_items
    {fields : List (Field δ)} (kept : KeptBy fields Inside Kept)
    {vs : List Value} {draft draft' : δ} (hd : Kept draft)
    (inside : ∀ v ∈ vs, Inside v)
    (read : Field.visitItems draft fields vs = .ok draft') :
    Kept draft' := by
  induction fields generalizing draft vs with
  | nil =>
      cases vs with
      | nil =>
          cases read
          exact hd
      | cons v vs => cases read
  | cons f fs ih =>
      obtain ⟨keptF, rest⟩ := List.forall_mem_cons.1 kept
      cases vs with
      | nil =>
          simp only [Field.visitItems] at read
          split at read
          · exact ih rest hd inside read
          · cases read
      | cons v vs =>
          rw [Field.visitItems] at read
          obtain ⟨change, hc, read⟩ := Success.of_bind read
          obtain ⟨insideV, insideVs⟩ := List.forall_mem_cons.1 inside
          exact ih rest (keptF v insideV change hc draft hd) insideVs read

/-- A record has what its draft keeps through all changes. -/
theorem record
    {fields : List (Field δ)} {empty : δ} {finish : δ → Except Fault ρ}
    {Finished : ρ → Prop} (parts : PartsOf Within Inside)
    (kept : KeptBy fields Inside Kept) (start : Kept empty)
    (finished : ∀ draft x, Kept draft → finish draft = .ok x → Finished x) :
    (record fields empty finish).Gives Within Finished := by
  intro v hv x read
  cases v with
  | object ms =>
      obtain ⟨draft, hd, read⟩ := Success.of_bind read
      exact finished draft x
        (kept_of_members kept start (parts.members ms hv) hd) read
  | array vs =>
      obtain ⟨draft, hd, read⟩ := Success.of_bind read
      exact finished draft x
        (kept_of_items kept start (parts.items vs hv) hd) read
  | _ => cases read

end Gives

/-! ## Members of objects -/

section Members

variable {fields : List (Field δ)} {f : Field δ} {Sets : Value → β → Prop} {get : δ → β}

/-- A part of a draft that one field sets and no other field changes. -/
structure SetBy (fields : List (Field δ)) (f : Field δ) (get : δ → β)
    (Sets : Value → β → Prop) : Prop where
  find : fields.find? (·.name = f.name) = some f
  sets : ∀ v change, f.codec.ofValue v = .ok change → ∀ d, Sets v (get (change d))
  keeps : ∀ g ∈ fields, g.name ≠ f.name → ∀ v change, g.codec.ofValue v = .ok change →
    ∀ d, get (change d) = get d

/-- What every change keeps is kept by a change that is read. -/
theorem keeps_of_map {c : Codec α} {change : α → δ → δ} (h : ∀ x d, get (change x d) = get d)
    (v : Value) (change' : δ → δ) (read : (c.map change).ofValue v = .ok change') (d : δ) :
    get (change' d) = get d := by
  obtain ⟨x, -, rfl⟩ := Success.of_map read
  exact h x d

theorem SetBy.of_visitMember (h : SetBy fields f get Sets) {d d' : δ} {m : String × Value}
    (read : Field.visitMember fields d m = .ok d') :
    (m.1 = f.name → Sets m.2 (get d')) ∧ (m.1 ≠ f.name → get d' = get d) := by
  simp only [Field.visitMember] at read
  split at read
  · next g found =>
      obtain ⟨change, hchange, read⟩ := Success.of_bind read
      obtain rfl := Except.ok.inj read
      have hname : g.name = m.1 := by simpa using List.find?_some found
      refine ⟨fun heq => ?_, fun hne => ?_⟩
      · obtain rfl : f = g := Option.some.inj (h.find.symm.trans (heq ▸ found))
        exact h.sets m.2 change hchange d
      · exact h.keeps g (List.mem_of_find?_eq_some found) (hname ▸ hne) m.2 change hchange d
  · next hnone =>
      obtain rfl := Except.ok.inj read
      refine ⟨fun heq => ?_, fun _ => rfl⟩
      rw [heq, h.find] at hnone
      cases hnone

/-- The part is set from the member with the name of the field, if there is one. -/
theorem SetBy.of_members (h : SetBy fields f get Sets) {ms : Members}
    (names : (ms.map Prod.fst).Nodup) {d d' : δ}
    (read : ms.foldlM (Field.visitMember fields) d = .ok d') :
    (∀ v, getMember? f.name ms = some v → Sets v (get d')) ∧
      (getMember? f.name ms = none → get d' = get d) := by
  induction ms generalizing d with
  | nil =>
      cases read
      refine ⟨fun v hv => ?_, fun _ => rfl⟩
      cases hv
  | cons m ms ih =>
      rw [List.foldlM_cons] at read
      obtain ⟨next, hm, read⟩ := Success.of_bind read
      obtain ⟨hfirst, hother⟩ := h.of_visitMember hm
      rw [List.map_cons, List.nodup_cons] at names
      obtain ⟨hfound, hnone⟩ := ih names.2 read
      rw [getMember?]
      by_cases heq : m.1 = f.name
      · have hrest : getMember? f.name ms = none := by
          refine Option.eq_none_iff_forall_ne_some.2 fun v hv => names.1 ?_
          exact heq ▸ List.mem_map_of_mem (f := Prod.fst) (mem_of_getMember? hv)
        rw [if_pos heq]
        refine ⟨fun v hv => ?_, fun h => absurd h (Option.some_ne_none _)⟩
        obtain rfl := Option.some.inj hv
        exact (hnone hrest) ▸ hfirst heq
      · rw [if_neg heq]
        exact ⟨hfound, fun hrest => (hnone hrest).trans (hother heq)⟩

end Members

/-! ## Reading from tokens -/

/-- What is read from tokens with a bound on the nesting has a property. -/
def GivesFrom (c : Codec α) (depth : Nat) (Holds : α → Prop) : Prop :=
  ∀ ts x r, c.ofTokens depth ts = .ok (x, r) → Holds x

namespace GivesFrom

variable {Holds : α → Prop} {Kept : δ → Prop} {depth : Nat}

theorem map
    {c : Codec α} {f : α → β} {Mapped : β → Prop} (h : c.GivesFrom depth Holds)
    (step : ∀ x, Holds x → Mapped (f x)) :
    (c.map f).GivesFrom depth Mapped := by
  intro ts y r hy
  obtain ⟨⟨x, r'⟩, hx, heq⟩ := Success.of_map hy
  obtain ⟨rfl, rfl⟩ := Prod.mk.inj heq
  exact step x (h ts x r' hx)

/-- What is read where the tokens do not start with a null. -/
theorem optional
    {c : Codec α}
    (h : ∀ ts x r, (∀ r', ts ≠ .null :: r') → c.ofTokens depth ts = .ok (x, r) →
      Holds x) :
    (optional c).GivesFrom depth fun o => ∀ x ∈ o, Holds x := by
  intro ts o r ho
  simp only [Codec.optional] at ho
  split at ho
  · cases ho
    nofun
  · next present =>
      obtain ⟨⟨x, r'⟩, hx, heq⟩ := Success.of_map ho
      cases heq
      rintro y ⟨⟩
      exact h ts x r' present hx

/-- The draft of a record keeps a property that the codecs of all fields keep. -/
def KeptBy (fields : List (Field δ)) (depth : Nat) (Kept : δ → Prop) : Prop :=
  ∀ f ∈ fields, f.codec.GivesFrom depth fun change =>
    ∀ draft, Kept draft → Kept (change draft)

theorem kept_of_readMember
    {fields : List (Field δ)} (kept : KeptBy fields depth Kept)
    {draft draft' : δ} {name : String} {ts r : List Token} (hd : Kept draft)
    (read : Field.readMember fields depth draft name ts = .ok (draft', r)) :
    Kept draft' := by
  simp only [Field.readMember] at read
  split at read
  · next f found =>
      split at read
      · cases read
      · obtain ⟨⟨change, r'⟩, hc, read⟩ := Success.of_bind read
        cases read
        exact of_behindColon (kept f (List.mem_of_find?_eq_some found)) hc draft
          hd
  · obtain ⟨⟨u, r'⟩, -, read⟩ := Success.of_bind read
    cases read
    exact hd

theorem kept_of_readMissing
    {fields : List (Field δ)} {draft draft' : δ} {ts r : List Token}
    (hd : Kept draft)
    (read : Field.readMissing draft fields ts = .ok (draft', r)) :
    Kept draft' := by
  rw [Field.readMissing] at read
  split at read
  · cases read
    exact hd
  · cases read

theorem kept_of_readFurtherItems
    {fields : List (Field δ)} (kept : KeptBy fields depth Kept)
    {draft draft' : δ} {ts r : List Token} (hd : Kept draft)
    (read : Field.readFurtherItems depth draft fields ts = .ok (draft', r)) :
    Kept draft' := by
  induction fields generalizing draft ts with
  | nil =>
      unfold Field.readFurtherItems at read
      split at read
      · exact kept_of_readMissing hd read
      · next heq => cases heq
      · cases read
  | cons f fs ih =>
      obtain ⟨keptF, keptFs⟩ := List.forall_mem_cons.1 kept
      unfold Field.readFurtherItems at read
      split at read
      · exact kept_of_readMissing hd read
      · next heq =>
          obtain ⟨rfl, rfl⟩ := List.cons.inj heq
          obtain ⟨⟨change, r'⟩, hc, read⟩ := Success.of_bind read
          exact ih keptFs (keptF _ change r' hc draft hd) read
      · cases read

theorem kept_of_readItems
    {fields : List (Field δ)} (kept : KeptBy fields depth Kept)
    {draft draft' : δ} {ts r : List Token} (hd : Kept draft)
    (read : Field.readItems depth draft fields ts = .ok (draft', r)) :
    Kept draft' := by
  unfold Field.readItems at read
  split at read
  · exact kept_of_readMissing hd read
  · obtain ⟨keptF, keptFs⟩ := List.forall_mem_cons.1 kept
    obtain ⟨⟨change, r'⟩, hc, read⟩ := Success.of_bind read
    exact kept_of_readFurtherItems keptFs (keptF _ change r' hc draft hd) read
  · cases read

/-- A record has what its draft keeps through all changes. -/
theorem record
    {fields : List (Field δ)} {empty : δ} {finish : δ → Except Fault ρ}
    {Finished : ρ → Prop} (kept : KeptBy fields depth Kept) (start : Kept empty)
    (finished : ∀ draft x, Kept draft → finish draft = .ok x → Finished x) :
    (record fields empty finish).GivesFrom (depth + 1) Finished := by
  intro ts x r read
  unfold Codec.record at read
  dsimp only at read
  split at read
  · next heq =>
      cases heq
      obtain ⟨⟨draft, r'⟩, hd, read⟩ := Success.of_bind read
      obtain ⟨y, hy, heq⟩ := Success.of_map read
      cases heq
      refine finished draft x ?_ hy
      exact kept_of_members
        (fun _ _ _ _ _ hs => kept_of_readMember kept hs) start hd
  · next heq =>
      cases heq
      obtain ⟨⟨draft, r'⟩, hd, read⟩ := Success.of_bind read
      obtain ⟨y, hy, heq⟩ := Success.of_map read
      cases heq
      exact finished draft x (kept_of_readItems kept start hd) hy
  · next heq => cases heq
  · next heq => cases heq
  · cases read

end GivesFrom
end Codec
end Json
end Reclaim
