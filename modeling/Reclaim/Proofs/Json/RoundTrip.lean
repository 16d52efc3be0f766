import Mathlib.Data.List.Forall2
import Reclaim.Proofs.Json.Scan

/-!
# Printed values are read back

The tokens of a printed value are known from the value alone, so a reader is
described by what it takes: `Takes read v x` says that it takes the tokens of
`v` as `x` and leaves what stands behind them.  Lists are taken item by item and
objects member by member, whatever reads the items and the members.

Main result: `parse_text` says that the text of a value is read as the value,
provided the members of its objects are in order, its numbers are read back and
its nesting is within bounds.
-/

namespace Reclaim
namespace Json

/-! ## Values -/

/-- The token of a printed number. -/
def Number.token (n : Number) : Token :=
  match scanNumber? (printNumber n) with
  | some (t, _) => .number t
  | none => .bad

mutual

/-- The tokens of a printed value. -/
def Value.tokens : Value → List Token
  | .null => [.null]
  | .bool b => [.bool b]
  | .number n => [n.token]
  | .string s => [.string (stringParts s)]
  | .array xs => .openArray :: itemTokens xs
  | .object ms => .openObject :: memberTokens ms

/-- The tokens of the items of a list and of the closing bracket. -/
def itemTokens : List Value → List Token
  | [] => [.closeArray]
  | x :: xs => x.tokens ++ furtherItemTokens xs

/-- The tokens of the items after the first one and of the closing bracket. -/
def furtherItemTokens : List Value → List Token
  | [] => [.closeArray]
  | x :: xs => .comma :: (x.tokens ++ furtherItemTokens xs)

/-- The tokens of the members of an object and of the closing brace. -/
def memberTokens : List (String × Value) → List Token
  | [] => [.closeObject]
  | (n, v) :: ms =>
      .string (stringParts n) :: .colon :: (v.tokens ++ furtherMemberTokens ms)

/-- The tokens of the members after the first one and of the closing brace. -/
def furtherMemberTokens : List (String × Value) → List Token
  | [] => [.closeObject]
  | (n, v) :: ms =>
      .comma :: .string (stringParts n) :: .colon ::
        (v.tokens ++ furtherMemberTokens ms)

end

/--
A value with at most `depth` levels of nesting, with the members of its objects
in the order of their names, each name once, and with good numbers.
-/
inductive Value.Canonical (good : Number → Prop) : Nat → Value → Prop
  | null (depth : Nat) : Canonical good depth .null
  | bool (depth : Nat) (b : Bool) : Canonical good depth (.bool b)
  | number (depth : Nat) {n : Number} (h : good n) :
      Canonical good depth (.number n)
  | string (depth : Nat) (s : String) : Canonical good depth (.string s)
  | array {depth : Nat} {xs : List Value}
      (items : ∀ x ∈ xs, Canonical good depth x) :
      Canonical good (depth + 1) (.array xs)
  | object {depth : Nat} {ms : Members}
      (names : ms.Pairwise fun a b => compare a.1 b.1 = .lt)
      (values : ∀ m ∈ ms, Canonical good depth m.2) :
      Canonical good (depth + 1) (.object ms)

/-- A value stays canonical if less is asked of its numbers. -/
theorem Value.Canonical.mono
    {good fair : Number → Prop} (weaker : ∀ n, good n → fair n)
    {depth : Nat} {v : Value} (h : v.Canonical good depth) :
    v.Canonical fair depth := by
  induction h with
  | null => exact .null _
  | bool _ b => exact .bool _ b
  | number _ hn => exact .number _ (weaker _ hn)
  | string _ s => exact .string _ s
  | array _ ih => exact .array ih
  | object names _ ih => exact .object names ih

theorem Number.ReadsBack.token_eq {n : Number} (h : n.ReadsBack) :
    ∃ t, n.token = .number t ∧ scanNumber? (printNumber n) = some (t, []) ∧
      decodeNumber t = .ok n := by
  obtain ⟨t, hs, ht⟩ := h
  exact ⟨t, by rw [Number.token, hs], hs, by rw [decodeNumber, ht]⟩

theorem endsNumber_nil : EndsNumber [] := by
  simp [EndsNumber]

theorem endsNumber_cons
    {c : Char} (r : List Char)
    (h : c = ',' ∨ c = ']' ∨ c = '\x7d') :
    EndsNumber (c :: r) := by
  rcases h with rfl | rfl | rfl <;> simp [EndsNumber, Text.isDigit]

theorem endsNumber_furtherItems (xs : List Value) (r : List Char) :
    EndsNumber (printFurtherItems xs ++ r) := by
  cases xs <;> exact endsNumber_cons _ (by simp)

theorem endsNumber_furtherMembers (ms : Members) (r : List Char) :
    EndsNumber (printFurtherMembers ms ++ r) := by
  cases ms <;> exact endsNumber_cons _ (by simp)

/-- A text is scanned as the tokens of the value and goes on behind it. -/
def ScansAs (v : Value) : Prop :=
  ∀ r, EndsNumber r → scan (printValue v ++ r) = v.tokens ++ scan r

theorem scan_printFurtherItems
    {xs : List Value} (h : ∀ x ∈ xs, ScansAs x) (r : List Char) :
    scan (printFurtherItems xs ++ r) = furtherItemTokens xs ++ scan r := by
  induction xs with
  | nil => exact scan_closeArray r
  | cons x xs ih =>
      simp only [printFurtherItems, furtherItemTokens, List.cons_append,
        List.append_assoc, scan_comma]
      rw [h x (by simp) _ (endsNumber_furtherItems xs r),
        ih fun y hy => h y (by simp [hy])]

theorem scan_printItems
    {xs : List Value} (h : ∀ x ∈ xs, ScansAs x) (r : List Char) :
    scan (printItems xs ++ r) = itemTokens xs ++ scan r := by
  cases xs with
  | nil => exact scan_closeArray r
  | cons x xs =>
      simp only [printItems, itemTokens, List.append_assoc]
      rw [h x (by simp) _ (endsNumber_furtherItems xs r),
        scan_printFurtherItems fun y hy => h y (by simp [hy])]

theorem scan_printFurtherMembers
    {ms : Members} (h : ∀ m ∈ ms, ScansAs m.2) (r : List Char) :
    scan (printFurtherMembers ms ++ r) = furtherMemberTokens ms ++ scan r := by
  induction ms with
  | nil => exact scan_closeObject r
  | cons m ms ih =>
      obtain ⟨n, v⟩ := m
      simp only [printFurtherMembers, furtherMemberTokens, List.cons_append,
        List.append_assoc, scan_comma, scan_printString, scan_colon]
      rw [h (n, v) (by simp) _ (endsNumber_furtherMembers ms r),
        ih fun y hy => h y (by simp [hy])]

theorem scan_printMembers
    {ms : Members} (h : ∀ m ∈ ms, ScansAs m.2) (r : List Char) :
    scan (printMembers ms ++ r) = memberTokens ms ++ scan r := by
  cases ms with
  | nil => exact scan_closeObject r
  | cons m ms =>
      obtain ⟨n, v⟩ := m
      simp only [printMembers, memberTokens, List.cons_append,
        List.append_assoc, scan_printString, scan_colon]
      rw [h (n, v) (by simp) _ (endsNumber_furtherMembers ms r),
        scan_printFurtherMembers fun y hy => h y (by simp [hy])]

theorem scansAs_array {xs : List Value} (h : ∀ x ∈ xs, ScansAs x) :
    ScansAs (.array xs) := by
  intro r _
  simp only [printValue, Value.tokens, List.cons_append, scan_openArray,
    scan_printItems h]

theorem scansAs_object {ms : Members} (h : ∀ m ∈ ms, ScansAs m.2) :
    ScansAs (.object ms) := by
  intro r _
  simp only [printValue, Value.tokens, List.cons_append, scan_openObject,
    scan_printMembers h]

theorem scansAs_null : ScansAs .null :=
  fun r _ => scan_null r

theorem scansAs_string (s : String) : ScansAs (.string s) :=
  fun r _ => scan_printString s r

theorem scansAs_number {n : Number} (h : n.ReadsBack) :
    ScansAs (.number n) := by
  intro r hr
  obtain ⟨t, htoken, hs, -⟩ := h.token_eq
  rw [printValue, Value.tokens, htoken, scan_number hs hr]
  rfl

/-- A printed value is scanned as its tokens. -/
theorem scansAs_of_canonical
    {depth : Nat} {v : Value}
    (h : v.Canonical Number.ReadsBack depth) : ScansAs v := by
  induction h with
  | null => exact scansAs_null
  | bool _ b =>
      intro r _
      cases b with
      | true => exact scan_true r
      | false => exact scan_false r
  | number _ hn => exact scansAs_number hn
  | string _ s => exact scansAs_string s
  | array _ ih => exact scansAs_array ih
  | object _ _ ih => exact scansAs_object ih

/-! ## Reading -/

section Reading

variable {α δ : Type}

/-- A reader takes the tokens of a value and nothing behind them. -/
def Takes (read : List Token → Except Fault (Taken α)) (v : Value) (x : α) : Prop :=
  ∀ r, read (v.tokens ++ r) = .ok (x, r)

theorem length_furtherItemTokens (xs : List Value) :
    xs.length < (furtherItemTokens xs).length := by
  induction xs with
  | nil => simp [furtherItemTokens]
  | cons x xs ih => simp [furtherItemTokens]; omega

theorem length_furtherMemberTokens (ms : Members) :
    ms.length < (furtherMemberTokens ms).length := by
  induction ms with
  | nil => simp [furtherMemberTokens]
  | cons m ms ih => simp [furtherMemberTokens]; omega

/-- Items that are taken one by one are taken as a list. -/
theorem furtherItems_of_takes
    {item : List Token → Except Fault (Taken α)}
    {vs : List Value} {xs : List α}
    (h : List.Forall₂ (Takes item) vs xs)
    {fuel : Nat} (hf : vs.length ≤ fuel) (r : List Token) :
    furtherItems item fuel (furtherItemTokens vs ++ r) = .ok (xs, r) := by
  induction h generalizing fuel with
  | nil => cases fuel <;> rfl
  | @cons v x vs xs hv _ ih =>
      obtain _ | fuel := fuel
      · simp at hf
      · simp only [furtherItemTokens, List.cons_append, List.append_assoc,
          furtherItems]
        rw [hv]
        simp only [bind, Except.bind, ih (by simpa using hf)]

theorem head_tokens_ne_closeArray (v : Value) (r r' : List Token) :
    v.tokens ++ r ≠ .closeArray :: r' := by
  cases v with
  | number n =>
      simp only [Value.tokens, Number.token]
      split <;> simp
  | _ => simp [Value.tokens]

theorem items_of_takes
    {item : List Token → Except Fault (Taken α)}
    {vs : List Value} {xs : List α}
    (h : List.Forall₂ (Takes item) vs xs) (r : List Token) :
    items item (itemTokens vs ++ r) = .ok (xs, r) := by
  cases h with
  | nil => rfl
  | @cons v x vs xs hv h =>
      have hf : vs.length ≤ (furtherItemTokens vs ++ r).length := by
        have := length_furtherItemTokens vs
        rw [List.length_append]
        omega
      simp only [itemTokens, List.append_assoc]
      rw [items, hv]
      · simp only [bind, Except.bind, furtherItems_of_takes h hf]
      · exact fun r' => head_tokens_ne_closeArray v _ r'

/--
The members of an object, read one after the other behind their names, change a
state.
-/
inductive Visits (member : δ → String → List Token → Except Fault (Taken δ)) :
    δ → Members → δ → Prop
  | nil (s : δ) : Visits member s [] s
  | cons {s t u : δ} {n : String} {v : Value} {ms : Members}
      (first : ∀ r, member s n (.colon :: (v.tokens ++ r)) = .ok (t, r))
      (rest : Visits member t ms u) :
      Visits member s ((n, v) :: ms) u

theorem furtherMembers_of_visits
    {member : δ → String → List Token → Except Fault (Taken δ)}
    {s s' : δ} {ms : Members} (h : Visits member s ms s')
    {fuel : Nat} (hf : ms.length ≤ fuel) (r : List Token) :
    furtherMembers member fuel s (furtherMemberTokens ms ++ r) =
      .ok (s', r) := by
  induction h generalizing fuel with
  | nil => cases fuel <;> rfl
  | cons hv _ ih =>
      obtain _ | fuel := fuel
      · simp at hf
      · simp only [furtherMemberTokens, List.cons_append, List.append_assoc,
          furtherMembers, oneMember, decodeString_stringParts, bind,
          Except.bind, hv]
        exact ih (by simpa using hf)

theorem members_of_visits
    {member : δ → String → List Token → Except Fault (Taken δ)}
    {s s' : δ} {ms : Members} (h : Visits member s ms s') (r : List Token) :
    members member s (memberTokens ms ++ r) = .ok (s', r) := by
  cases h with
  | nil => rfl
  | @cons _ s₁ _ n v ms hv h =>
      have hf : ms.length ≤ (furtherMemberTokens ms ++ r).length := by
        have := length_furtherMemberTokens ms
        rw [List.length_append]
        omega
      simp only [memberTokens, List.cons_append, List.append_assoc]
      rw [members]
      · simp only [oneMember, decodeString_stringParts, bind, Except.bind, hv]
        exact furtherMembers_of_visits h hf r
      · simp

end Reading

/-- A member whose name comes after all others is put at the end. -/
theorem setMember_of_after
    {name : String} {v : Value} {ms : Members}
    (h : ∀ m ∈ ms, compare m.1 name = .lt) :
    setMember name v ms = ms ++ [(name, v)] := by
  induction ms with
  | nil => rfl
  | cons m ms ih =>
      obtain ⟨n, w⟩ := m
      have hgt : compare name n = .gt :=
        Std.OrientedCmp.gt_of_lt (h (n, w) (by simp))
      simp only [setMember, hgt, List.cons_append]
      rw [ih fun m hm => h m (by simp [hm])]

theorem foldl_setMember_of_sorted
    (before : Members) {ms : Members}
    (names : (before ++ ms).Pairwise fun a b => compare a.1 b.1 = .lt) :
    ms.foldl (fun ms m => setMember m.1 m.2 ms) before = before ++ ms := by
  induction ms generalizing before with
  | nil => exact (List.append_nil before).symm
  | cons m ms ih =>
      have hset : setMember m.1 m.2 before = before ++ [m] :=
        setMember_of_after fun n hn =>
          (List.pairwise_append.1 names).2.2 n hn m List.mem_cons_self
      rw [List.append_cons] at names ⊢
      rw [List.foldl_cons, hset, ih _ names]

/-- The members of an object are read one after the other, in whatever order they are written. -/
theorem visits_foldl_setMember
    {depth : Nat} {ms : Members} (before : Members)
    (values : ∀ m ∈ ms, Takes (readValue depth) m.2 m.2) :
    Visits
      (fun ms name ts => do
        let (v, r) ← behindColon (readValue depth) ts
        .ok (setMember name v ms, r))
      before ms (ms.foldl (fun ms m => setMember m.1 m.2 ms) before) := by
  induction ms generalizing before with
  | nil => exact .nil before
  | cons m ms ih =>
      obtain ⟨n, v⟩ := m
      obtain ⟨hv, hms⟩ := List.forall_mem_cons.1 values
      refine .cons (t := setMember n v before) (fun r => ?_) (ih _ hms)
      simp only [behindColon, hv r, bind, Except.bind]

/-- A value is read from its tokens. -/
theorem takes_readValue
    {depth : Nat} {v : Value}
    (h : v.Canonical Number.ReadsBack depth) :
    Takes (readValue depth) v v := by
  intro r
  induction h generalizing r with
  | null depth => cases depth <;> rfl
  | bool depth b => cases depth <;> rfl
  | number depth hn =>
      obtain ⟨t, htoken, -, ht⟩ := hn.token_eq
      simp only [Value.tokens, htoken, List.cons_append, List.nil_append]
      rw [readValue, ht]
      rfl
  | string depth s =>
      simp only [Value.tokens, List.cons_append, List.nil_append]
      rw [readValue, decodeString_stringParts]
      rfl
  | @array depth xs _ ih =>
      have hall : List.Forall₂ (Takes (readValue depth)) xs xs :=
        List.forall₂_same.2 ih
      simp only [Value.tokens, List.cons_append, readValue,
        items_of_takes hall r]
      rfl
  | @object depth ms names _ ih =>
      have hmembers := members_of_visits (visits_foldl_setMember [] ih) r
      rw [foldl_setMember_of_sorted [] names, List.nil_append] at hmembers
      simp only [Value.tokens, List.cons_append, readValue, hmembers]
      rfl

/-- The text of a value is read as what a reader takes its tokens for. -/
theorem readText_of_takes
    {α : Type} {read : List Token → Except Fault (Taken α)}
    {v : Value} {x : α}
    (scans : ScansAs v) (takes : Takes read v x) :
    readText read v.text = .ok x := by
  have hs : scan (printValue v) = v.tokens := by
    simpa [scan_nil] using scans [] endsNumber_nil
  have hr : read v.tokens = .ok (x, []) := by
    simpa using takes []
  rw [readText, Value.text, String.toList_ofList, hs, hr]
  rfl

/-- The text of a value is read as the value. -/
theorem parse_text
    {v : Value} (h : v.Canonical Number.ReadsBack maxDepth) :
    parse v.text = .ok v :=
  readText_of_takes (scansAs_of_canonical h) (takes_readValue h)

end Json
end Reclaim
