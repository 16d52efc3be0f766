import Reclaim.Proofs.Json.Reading

/-!
# Values as they are written

The members of an object that is read are kept in the order of their names.  A
text may write them in any order, and may repeat a name, of which the last one
counts.  `readWritten` reads a value with the members as they are written, so
that a repeated name is still there to be seen; `Value.ordered` puts them in
order.

What has been read successfully is then described by how it is written, without
the fuel of the readers: `FurtherItems` and `FurtherMembers` go through lists and
objects, and `WrittenAs` looks at the first token of a value.

Main result: `parse_eq_written` says that reading a text is to read it as it is
written and to put the members in order.
-/

namespace Reclaim
namespace Json

/-! ## Members in order -/

mutual

/-- The value with the members of its objects in the order of their names. -/
def Value.ordered : Value → Value
  | .array xs => .array (orderedItems xs)
  | .object ms => .ofMembers (orderedMembers ms)
  | .null => .null
  | .bool b => .bool b
  | .number n => .number n
  | .string s => .string s

/-- The items of a list, each with its members in order. -/
def orderedItems : List Value → List Value
  | [] => []
  | x :: xs => x.ordered :: orderedItems xs

/-- The members of an object as they stand, each value with its members in order. -/
def orderedMembers : List (String × Value) → List (String × Value)
  | [] => []
  | (n, v) :: ms => (n, v.ordered) :: orderedMembers ms

end

theorem orderedItems_eq_map (xs : List Value) : orderedItems xs = xs.map Value.ordered := by
  induction xs with
  | nil => rfl
  | cons x xs ih => rw [orderedItems, ih, List.map_cons]

theorem orderedMembers_eq_map (ms : Members) :
    orderedMembers ms = ms.map (Prod.map id Value.ordered) := by
  induction ms with
  | nil => rfl
  | cons m ms ih => rw [orderedMembers, ih]; rfl

/-- No object in the value has two members of one name. -/
inductive Value.NamesOnce : Value → Prop
  | null : NamesOnce .null
  | bool (b : Bool) : NamesOnce (.bool b)
  | number (n : Number) : NamesOnce (.number n)
  | string (s : String) : NamesOnce (.string s)
  | array {xs : List Value} (items : ∀ x ∈ xs, NamesOnce x) : NamesOnce (.array xs)
  | object {ms : Members} (names : (ms.map Prod.fst).Nodup)
      (values : ∀ m ∈ ms, NamesOnce m.2) : NamesOnce (.object ms)

/-! ## Reading -/

/-- Puts a member behind the members before it. -/
def keepMember (value : List Token → Except Fault (Taken Value)) (ms : Members)
    (name : String) (ts : List Token) : Except Fault (Taken Members) := do
  let (v, r) ← behindColon value ts
  .ok (ms ++ [(name, v)], r)

/-- Reads one value, with the members of its objects as they are written. -/
def readWritten : Nat → List Token → Except Fault (Taken Value)
  | _, .null :: r => .ok (.null, r)
  | _, .bool b :: r => .ok (.bool b, r)
  | _, .number t :: r => do
      let n ← decodeNumber t
      .ok (.number n, r)
  | _, .string parts :: r => do
      let s ← decodeString parts
      .ok (.string s, r)
  | depth + 1, .openArray :: r => do
      let (xs, r) ← items (readWritten depth) r
      .ok (.array xs, r)
  | depth + 1, .openObject :: r => do
      let (ms, r) ← members (keepMember (readWritten depth)) [] r
      .ok (.object ms, r)
  | _, _ => .error .malformed

/-- The value that a text writes, with the members of its objects as they are written. -/
def written (s : String) : Except Fault Value :=
  readText (readWritten maxDepth) s

section Map

variable {α β σ τ : Type} {f : α → β} {g : σ → τ}
variable {item : List Token → Except Fault (Taken α)}
variable {item' : List Token → Except Fault (Taken β)}
variable {member : σ → String → List Token → Except Fault (Taken σ)}
variable {member' : τ → String → List Token → Except Fault (Taken τ)}

theorem furtherItems_map (one : ∀ ts, item' ts = (item ts).map (Prod.map f id))
    (fuel : Nat) (ts : List Token) :
    furtherItems item' fuel ts =
      (furtherItems item fuel ts).map (Prod.map (List.map f) id) := by
  induction fuel generalizing ts with
  | zero =>
      cases ts with
      | nil => rfl
      | cons t r => cases t <;> rfl
  | succ fuel ih =>
      cases ts with
      | nil => rfl
      | cons t r =>
          cases t with
          | comma =>
              rw [furtherItems, furtherItems, one]
              cases item r with
              | error e => rfl
              | ok p =>
                  simp only [Except.map, bind, Except.bind, Prod.map, id_eq, ih]
                  cases furtherItems item fuel p.2 <;> rfl
          | _ => rfl

theorem items_of_opens {ts : List Token} (opens : ∀ r, ts = .closeArray :: r → False) :
    items item ts = (do
      let (x, r) ← item ts
      let (xs, r) ← furtherItems item r.length r
      .ok (x :: xs, r)) := by
  rw [items]
  exact opens

theorem members_of_opens {ts : List Token} (s : σ)
    (opens : ∀ r, ts = .closeObject :: r → False) :
    members member s ts = (do
      let (s, r) ← oneMember member s ts
      furtherMembers member r.length s r) := by
  rw [members]
  exact opens

theorem items_map (one : ∀ ts, item' ts = (item ts).map (Prod.map f id))
    (ts : List Token) :
    items item' ts = (items item ts).map (Prod.map (List.map f) id) := by
  by_cases hclose : ∃ r, ts = .closeArray :: r
  · obtain ⟨r, rfl⟩ := hclose
    rfl
  · have hopens : ∀ r, ts = .closeArray :: r → False := fun r h => hclose ⟨r, h⟩
    rw [items_of_opens hopens, items_of_opens hopens, one]
    cases item ts with
    | error e => rfl
    | ok p =>
        simp only [Except.map, bind, Except.bind, Prod.map, id_eq,
          furtherItems_map one]
        cases furtherItems item p.2.length p.2 <;> rfl

variable (one : ∀ s name ts,
  member' (g s) name ts = (member s name ts).map (Prod.map g id))
include one

theorem oneMember_map (s : σ) (ts : List Token) :
    oneMember member' (g s) ts = (oneMember member s ts).map (Prod.map g id) := by
  cases ts with
  | nil => rfl
  | cons t r =>
      cases t with
      | string parts =>
          rw [oneMember, oneMember]
          cases decodeString parts with
          | error e => rfl
          | ok name => exact one s name r
      | _ => rfl

theorem furtherMembers_map (fuel : Nat) (s : σ) (ts : List Token) :
    furtherMembers member' fuel (g s) ts =
      (furtherMembers member fuel s ts).map (Prod.map g id) := by
  induction fuel generalizing s ts with
  | zero =>
      cases ts with
      | nil => rfl
      | cons t r => cases t <;> rfl
  | succ fuel ih =>
      cases ts with
      | nil => rfl
      | cons t r =>
          cases t with
          | comma =>
              rw [furtherMembers, furtherMembers, oneMember_map one]
              cases oneMember member s r with
              | error e => rfl
              | ok p => exact ih p.1 p.2
          | _ => rfl

theorem members_map (s : σ) (ts : List Token) :
    members member' (g s) ts = (members member s ts).map (Prod.map g id) := by
  by_cases hclose : ∃ r, ts = .closeObject :: r
  · obtain ⟨r, rfl⟩ := hclose
    rfl
  · have hopens : ∀ r, ts = .closeObject :: r → False := fun r h => hclose ⟨r, h⟩
    rw [members_of_opens (g s) hopens, members_of_opens s hopens, oneMember_map one]
    cases oneMember member s ts with
    | error e => rfl
    | ok p => exact furtherMembers_map one p.2.length p.1 p.2

end Map

/-- The members of an object in order, each value with its own members in order. -/
def orderedObject (ms : Members) : Members :=
  inOrder (ms.map (Prod.map id Value.ordered))

theorem ordered_object (ms : Members) :
    Value.ordered (.object ms) = .object (orderedObject ms) := by
  rw [Value.ordered, orderedMembers_eq_map]
  rfl

theorem behindColon_map {α β : Type} {f : α → β}
    {value : List Token → Except Fault (Taken α)}
    {value' : List Token → Except Fault (Taken β)}
    (one : ∀ ts, value' ts = (value ts).map (Prod.map f id)) (ts : List Token) :
    behindColon value' ts = (behindColon value ts).map (Prod.map f id) := by
  cases ts with
  | nil => rfl
  | cons t r =>
      cases t with
      | colon => exact one r
      | _ => rfl

/-- Puts a member in its place among the members before it. -/
def putMember (value : List Token → Except Fault (Taken Value)) (ms : Members)
    (name : String) (ts : List Token) : Except Fault (Taken Members) := do
  let (v, r) ← behindColon value ts
  .ok (setMember name v ms, r)

theorem putMember_map {value value' : List Token → Except Fault (Taken Value)}
    (one : ∀ ts, value' ts = (value ts).map (Prod.map Value.ordered id))
    (ms : Members) (name : String) (ts : List Token) :
    putMember value' (orderedObject ms) name ts =
      (keepMember value ms name ts).map (Prod.map orderedObject id) := by
  rw [putMember, behindColon_map one, keepMember]
  cases behindColon value ts with
  | error e => rfl
  | ok p =>
      simp only [Except.map, bind, Except.bind, Prod.map, id_eq, orderedObject,
        List.map_append, List.map_cons, List.map_nil, inOrder_concat]

theorem readValue_openObject (depth : Nat) (r : List Token) :
    readValue (depth + 1) (.openObject :: r) =
      (members (putMember (readValue depth)) (orderedObject []) r).map
        (Prod.map Value.object id) := by
  rw [readValue]
  change (members (putMember (readValue depth)) (orderedObject []) r >>= _) = _
  cases members (putMember (readValue depth)) (orderedObject []) r <;> rfl

/-- A value is read as it is written, and its members are put in order. -/
theorem readValue_eq_written (depth : Nat) (ts : List Token) :
    readValue depth ts = (readWritten depth ts).map (Prod.map Value.ordered id) := by
  -- Both take the same tokens; only a member joins the members before it in another way.
  induction depth generalizing ts with
  | zero =>
      cases ts with
      | nil => rfl
      | cons t r =>
          cases t with
          | number t =>
              rw [readValue, readWritten]
              cases decodeNumber t <;> rfl
          | string parts =>
              rw [readValue, readWritten]
              cases decodeString parts <;> rfl
          | _ => rfl
  | succ depth ih =>
      cases ts with
      | nil => rfl
      | cons t r =>
          cases t with
          | number t =>
              rw [readValue, readWritten]
              cases decodeNumber t <;> rfl
          | string parts =>
              rw [readValue, readWritten]
              cases decodeString parts <;> rfl
          | openArray =>
              rw [readValue, readWritten, items_map ih]
              cases items (readWritten depth) r with
              | error e => rfl
              | ok p =>
                  simp only [Except.map, bind, Except.bind, Prod.map, id_eq,
                    Value.ordered, orderedItems_eq_map]
          | openObject =>
              rw [readValue_openObject, readWritten, members_map (putMember_map ih)]
              cases members (keepMember (readWritten depth)) [] r with
              | error e => rfl
              | ok p =>
                  simp only [Except.map, bind, Except.bind, Prod.map, id_eq,
                    ordered_object]
          | _ => rfl

/-- A whole text is read if nothing is left behind what is read. -/
theorem readText_eq_ok_iff {α : Type} {read : List Token → Except Fault (Taken α)}
    {s : String} {x : α} :
    readText read s = .ok x ↔ read (scan s.toList) = .ok (x, []) := by
  rw [readText]
  cases read (scan s.toList) with
  | error e => simp [bind, Except.bind]
  | ok p =>
      obtain ⟨y, r⟩ := p
      cases r <;> simp [bind, Except.bind]

/-- What a text writes is read as it is written, and its members are put in order. -/
theorem parse_eq_written (s : String) : parse s = (written s).map Value.ordered := by
  rw [parse, written, readText, readText, readValue_eq_written]
  cases readWritten maxDepth (scan s.toList) with
  | error e => rfl
  | ok p =>
      obtain ⟨w, r⟩ := p
      cases r <;> rfl

/-- A text that writes a value, in no object of which a name is repeated. -/
def RepeatsNoName (s : String) : Prop :=
  ∃ w, written s = .ok w ∧ w.NamesOnce

/-! ## Items and members that have been read -/

section Views

variable {α : Type} {item : List Token → Except Fault (Taken α)}
variable {value : List Token → Except Fault (Taken Value)}

/-- The items behind the first one, as they have been read up to the closing bracket. -/
inductive FurtherItems (item : List Token → Except Fault (Taken α)) :
    List Token → List α → List Token → Prop
  | close (r : List Token) : FurtherItems item (.closeArray :: r) [] r
  | next {ts r r' : List Token} {x : α} {xs : List α} (one : item ts = .ok (x, r))
      (rest : FurtherItems item r xs r') :
      FurtherItems item (.comma :: ts) (x :: xs) r'

/-- The items of a list, as they have been read behind its opening bracket. -/
inductive AllItems (item : List Token → Except Fault (Taken α)) :
    List Token → List α → List Token → Prop
  | none (r : List Token) : AllItems item (.closeArray :: r) [] r
  | some {ts r r' : List Token} {x : α} {xs : List α}
      (opens : ∀ r, ts = .closeArray :: r → False) (one : item ts = .ok (x, r))
      (rest : FurtherItems item r xs r') (fits : xs.length ≤ r.length) :
      AllItems item ts (x :: xs) r'

/-- The members behind the first one, as they have been read up to the closing brace. -/
inductive FurtherMembers (value : List Token → Except Fault (Taken Value)) :
    List Token → Members → List Token → Prop
  | close (r : List Token) : FurtherMembers value (.closeObject :: r) [] r
  | next {parts : List StringPart} {name : String} {ts r r' : List Token} {v : Value}
      {ms : Members} (named : decodeString parts = .ok name)
      (one : value ts = .ok (v, r)) (rest : FurtherMembers value r ms r') :
      FurtherMembers value (.comma :: .string parts :: .colon :: ts) ((name, v) :: ms) r'

/-- The members of an object, as they have been read behind its opening brace. -/
inductive AllMembers (value : List Token → Except Fault (Taken Value)) :
    List Token → Members → List Token → Prop
  | none (r : List Token) : AllMembers value (.closeObject :: r) [] r
  | some {parts : List StringPart} {name : String} {ts r r' : List Token} {v : Value}
      {ms : Members} (named : decodeString parts = .ok name)
      (one : value ts = .ok (v, r)) (rest : FurtherMembers value r ms r')
      (fits : ms.length ≤ r.length) :
      AllMembers value (.string parts :: .colon :: ts) ((name, v) :: ms) r'

theorem FurtherItems.of_read {fuel : Nat} {ts r : List Token} {xs : List α}
    (h : furtherItems item fuel ts = .ok (xs, r)) :
    FurtherItems item ts xs r ∧ xs.length ≤ fuel := by
  induction fuel generalizing ts xs with
  | zero =>
      unfold furtherItems at h
      split at h
      · cases h
        exact ⟨.close r, Nat.zero_le _⟩
      · next hfuel => cases hfuel
      · cases h
  | succ fuel ih =>
      unfold furtherItems at h
      split at h
      · cases h
        exact ⟨.close r, Nat.zero_le _⟩
      · next hfuel =>
          obtain rfl := Nat.succ.inj hfuel
          obtain ⟨⟨x, r₁⟩, hx, h⟩ := Success.of_bind h
          obtain ⟨⟨rest, r₂⟩, hrest, h⟩ := Success.of_bind h
          cases h
          exact ⟨.next hx (ih hrest).1, Nat.succ_le_succ (ih hrest).2⟩
      · cases h

theorem AllItems.of_read {ts r : List Token} {xs : List α}
    (h : items item ts = .ok (xs, r)) : AllItems item ts xs r := by
  unfold items at h
  split at h
  · cases h
    exact .none r
  · next opens =>
      obtain ⟨⟨x, r₁⟩, hx, h⟩ := Success.of_bind h
      obtain ⟨⟨rest, r₂⟩, hrest, h⟩ := Success.of_bind h
      cases h
      obtain ⟨hfurther, hfits⟩ := FurtherItems.of_read hrest
      exact .some opens hx hfurther hfits

/-- One member that has been read: its name, a colon and its value. -/
theorem exists_of_keepMember {before after : Members} {ts r : List Token}
    (h : oneMember (keepMember value) before ts = .ok (after, r)) :
    ∃ parts name ts' v, ts = .string parts :: .colon :: ts' ∧
      decodeString parts = .ok name ∧ value ts' = .ok (v, r) ∧
      after = before ++ [(name, v)] := by
  unfold oneMember at h
  split at h
  · next parts ts =>
      obtain ⟨name, hname, h⟩ := Success.of_bind h
      obtain ⟨⟨v, r'⟩, hv, h⟩ := Success.of_bind h
      cases h
      unfold behindColon at hv
      split at hv
      · exact ⟨parts, name, _, v, rfl, hname, hv, rfl⟩
      · cases hv
  · cases h

theorem FurtherMembers.of_read {fuel : Nat} {ts r : List Token} {before after : Members}
    (h : furtherMembers (keepMember value) fuel before ts = .ok (after, r)) :
    ∃ ms, after = before ++ ms ∧ FurtherMembers value ts ms r ∧ ms.length ≤ fuel := by
  induction fuel generalizing before ts with
  | zero =>
      unfold furtherMembers at h
      split at h
      · cases h
        exact ⟨[], by simp, .close r, Nat.zero_le _⟩
      · next hfuel => cases hfuel
      · cases h
  | succ fuel ih =>
      unfold furtherMembers at h
      split at h
      · cases h
        exact ⟨[], by simp, .close r, Nat.zero_le _⟩
      · next hfuel =>
          obtain rfl := Nat.succ.inj hfuel
          obtain ⟨⟨ms₁, r₁⟩, hone, h⟩ := Success.of_bind h
          obtain ⟨parts, name, ts', v, rfl, hname, hv, rfl⟩ := exists_of_keepMember hone
          obtain ⟨ms, rfl, hms, hfits⟩ := ih h
          exact ⟨(name, v) :: ms, by simp, .next hname hv hms, Nat.succ_le_succ hfits⟩
      · cases h

theorem AllMembers.of_read {ts r : List Token} {ms : Members}
    (h : members (keepMember value) [] ts = .ok (ms, r)) : AllMembers value ts ms r := by
  unfold members at h
  split at h
  · cases h
    exact .none r
  · obtain ⟨⟨ms₁, r₁⟩, hone, h⟩ := Success.of_bind h
    obtain ⟨parts, name, ts', v, rfl, hname, hv, rfl⟩ := exists_of_keepMember hone
    obtain ⟨ms', rfl, hms, hfits⟩ := FurtherMembers.of_read h
    exact .some hname hv hms hfits

/-- What a value that has been read is written with. -/
inductive WrittenAs : Nat → List Token → Value → List Token → Prop
  | null (depth : Nat) (r : List Token) : WrittenAs depth (.null :: r) .null r
  | bool (depth : Nat) (b : Bool) (r : List Token) :
      WrittenAs depth (.bool b :: r) (.bool b) r
  | number (depth : Nat) {t : NumberText} {n : Number} (r : List Token)
      (decoded : decodeNumber t = .ok n) :
      WrittenAs depth (.number t :: r) (.number n) r
  | string (depth : Nat) {parts : List StringPart} {s : String} (r : List Token)
      (decoded : decodeString parts = .ok s) :
      WrittenAs depth (.string parts :: r) (.string s) r
  | array {depth : Nat} {ts r : List Token} {xs : List Value}
      (items : AllItems (readWritten depth) ts xs r) :
      WrittenAs (depth + 1) (.openArray :: ts) (.array xs) r
  | object {depth : Nat} {ts r : List Token} {ms : Members}
      (members : AllMembers (readWritten depth) ts ms r) :
      WrittenAs (depth + 1) (.openObject :: ts) (.object ms) r

theorem WrittenAs.of_read {depth : Nat} {ts r : List Token} {w : Value}
    (h : readWritten depth ts = .ok (w, r)) : WrittenAs depth ts w r := by
  unfold readWritten at h
  split at h
  · cases h
    exact .null _ r
  · cases h
    exact .bool _ _ r
  · obtain ⟨n, hn, h⟩ := Success.of_bind h
    cases h
    exact .number _ r hn
  · obtain ⟨s, hs, h⟩ := Success.of_bind h
    cases h
    exact .string _ r hs
  · obtain ⟨⟨xs, r₁⟩, hxs, h⟩ := Success.of_bind h
    cases h
    exact .array (.of_read hxs)
  · obtain ⟨⟨ms, r₁⟩, hms, h⟩ := Success.of_bind h
    cases h
    exact .object (.of_read hms)
  · cases h

end Views

end Json
end Reclaim
