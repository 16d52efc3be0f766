import Reclaim.Proofs.Success
import Reclaim.Settings

/-!
# Which settings are found

A setting is an argument, or else it is read from its variable, or else it has
its default.  There are settings for a run exactly if all that is given can be
read, the grace period is not negative, something may be removed at once, and
the grace period can be counted in milliseconds.  The last condition is the only
one that no check of the arguments or variables reports: the program panics.

Main results: `resolve_eq_ok_iff`, `resolve_congr` and `settings_found`.
-/

namespace Reclaim

/-- The fault is that of a text that cannot be read, or of a number that is not allowed. -/
def SettingsFault.isOfCheck : SettingsFault → Bool
  | gracePanic _ => false
  | _ => true

/-- The faults of the checks are those that are reported; a panic is not. -/
theorem SettingsFault.isSome_message (f : SettingsFault) : f.message.isSome = f.isOfCheck := by
  cases f <;> rfl

namespace Settings

/-! ## Single settings -/

/-- The number that an argument is, that is read from a text, or that is the default. -/
inductive IsNumber {α : Type} (read : String → Except Text.IntegerFault α) (absent : α) :
    Option α → Option String → α → Prop
  | argument (n : α) (text : Option String) : IsNumber read absent (some n) text n
  | text (s : String) (n : α) (h : read s = .ok n) : IsNumber read absent none (some s) n
  | absent : IsNumber read absent none none absent

theorem numberOr_eq_ok_iff {α : Type} {argument : Option α} {text : Option String} {absent n : α}
    {read : String → Except Text.IntegerFault α}
    {fault : String → Text.IntegerFault → SettingsFault} :
    numberOr argument text absent read fault = .ok n ↔
      IsNumber read absent argument text n := by
  constructor
  · intro h
    cases argument with
    | some m =>
        obtain rfl := Except.ok.inj h
        exact .argument m text
    | none =>
        cases text with
        | some s => exact .text s n (Success.of_mapError h)
        | none =>
            obtain rfl := Except.ok.inj h
            exact .absent
  · intro h
    cases h with
    | argument n text => rfl
    | text s n h =>
        rw [numberOr, h]
        rfl
    | absent => rfl

theorem instant?_eq_ok_iff {text : Option String} {fault : String → SettingsFault}
    {t : Option Time.Instant} :
    instant? text fault = .ok t ↔ text.map Time.Instant.parse? = t.map some := by
  cases text with
  | none => cases t <;> simp [instant?]
  | some s => cases hparse : Time.Instant.parse? s <;> cases t <;> simp [instant?, hparse]

theorem checkGrace_eq_ok_iff {seconds : Int} : checkGrace seconds = .ok () ↔ 0 ≤ seconds := by
  unfold checkGrace
  split <;> simp <;> omega

theorem checkConcurrency_eq_ok_iff {n : Nat} : checkConcurrency n = .ok () ↔ n ≠ 0 := by
  unfold checkConcurrency
  split <;> simp_all

/-! ## All settings -/

variable {a : Arguments} {env env' : String → Option String} {s : Settings}

/-- The settings that arguments and environment give. -/
structure Given (a : Arguments) (env : String → Option String) (s : Settings) : Prop where
  gracePeriod : IsNumber (Text.readInteger Text.maxSigned64) defaultGracePeriod a.gracePeriod
    (env "MANTA_GC_GRACE_PERIOD_SECS") s.gracePeriod
  notNegative : 0 ≤ s.gracePeriod
  reference : (given a.reference env "MANTA_GC_REFERENCE_TIME").map Time.Instant.parse? =
    s.reference.map some
  earliest : (given a.earliest env "MANTA_GC_EARLIEST_DUMP_DATE").map Time.Instant.parse? =
    s.earliest.map some
  concurrency : IsNumber (Text.readNatural Text.maxUnsigned64) defaultConcurrency a.concurrency
    (env "MANTA_GC_UNLINK_CONCURRENCY") s.concurrency
  positive : s.concurrency ≠ 0
  shard : s.shard = given a.shard env "MANTA_GC_SHARD"
  storageId : s.storageId = given a.storageId env "MANTA_GC_STORAGE_ID"

/-- The environments agree on the variables that no argument hides. -/
structure AgreeUnlessGiven (a : Arguments) (env env' : String → Option String) : Prop where
  gracePeriod : a.gracePeriod = none →
    env "MANTA_GC_GRACE_PERIOD_SECS" = env' "MANTA_GC_GRACE_PERIOD_SECS"
  reference : a.reference = none →
    env "MANTA_GC_REFERENCE_TIME" = env' "MANTA_GC_REFERENCE_TIME"
  earliest : a.earliest = none →
    env "MANTA_GC_EARLIEST_DUMP_DATE" = env' "MANTA_GC_EARLIEST_DUMP_DATE"
  concurrency : a.concurrency = none →
    env "MANTA_GC_UNLINK_CONCURRENCY" = env' "MANTA_GC_UNLINK_CONCURRENCY"
  shard : a.shard = none → env "MANTA_GC_SHARD" = env' "MANTA_GC_SHARD"
  storageId : a.storageId = none → env "MANTA_GC_STORAGE_ID" = env' "MANTA_GC_STORAGE_ID"

theorem given_congr {argument : Option String} {name : String}
    (h : argument = none → env name = env' name) :
    given argument env name = given argument env' name := by
  cases argument with
  | none => exact h rfl
  | some s => rfl

theorem numberOr_congr {α : Type} {argument : Option α} {text text' : Option String}
    (h : argument = none → text = text') (absent : α)
    (read : String → Except Text.IntegerFault α)
    (fault : String → Text.IntegerFault → SettingsFault) :
    numberOr argument text absent read fault = numberOr argument text' absent read fault := by
  cases argument with
  | none => rw [h rfl]
  | some n => rfl

/-- Variables that arguments hide do not matter. -/
theorem resolve_congr (h : AgreeUnlessGiven a env env') : resolve a env = resolve a env' := by
  simp only [resolve, numberOr_congr h.gracePeriod, numberOr_congr h.concurrency,
    given_congr h.reference, given_congr h.earliest, given_congr h.shard, given_congr h.storageId]

/-! ## Faults -/

theorem isOfCheck_of_numberOr {α : Type} {argument : Option α} {text : Option String}
    {absent : α} {read : String → Except Text.IntegerFault α}
    {fault : String → Text.IntegerFault → SettingsFault}
    (ofCheck : ∀ s e, (fault s e).isOfCheck = true) {f : SettingsFault}
    (h : numberOr argument text absent read fault = .error f) : f.isOfCheck = true := by
  cases argument with
  | some n => cases h
  | none =>
      cases text with
      | none => cases h
      | some s =>
          rw [numberOr] at h
          cases hread : read s with
          | ok n =>
              rw [hread] at h
              cases h
          | error e =>
              rw [hread] at h
              obtain rfl := Except.error.inj h
              exact ofCheck s e

theorem isOfCheck_of_instant? {text : Option String} {fault : String → SettingsFault}
    (ofCheck : ∀ s, (fault s).isOfCheck = true) {f : SettingsFault}
    (h : instant? text fault = .error f) : f.isOfCheck = true := by
  unfold instant? at h
  split at h
  · cases h
  · split at h
    · cases h
    · obtain rfl := Except.error.inj h
      exact ofCheck _

/-- A check that refuses some numbers has one fault. -/
theorem isOfCheck_of_ite {P : Prop} [Decidable P] {g f : SettingsFault}
    (ofCheck : g.isOfCheck = true)
    (h : (if P then .error g else .ok () : Except SettingsFault Unit) = .error f) :
    f.isOfCheck = true := by
  split at h
  · obtain rfl := Except.error.inj h
    exact ofCheck
  · cases h

/-- A step whose faults are those of a check either fails so or goes on. -/
theorem bind_cases {α β : Type} {x : Except SettingsFault α}
    {next : α → Except SettingsFault β} {P : Prop}
    (fails : ∀ {f}, x = .error f → f.isOfCheck = true)
    (goesOn : ∀ y, x = .ok y → P ∨ ∃ f, next y = .error f ∧ f.isOfCheck = true) :
    P ∨ ∃ f, (x >>= next) = .error f ∧ f.isOfCheck = true := by
  cases x with
  | error f => exact .inr ⟨f, rfl, fails rfl⟩
  | ok y => exact goesOn y rfl

/-- Settings are given, or a check fails. -/
theorem given_or_isOfCheck (a : Arguments) (env : String → Option String) :
    (∃ s, Given a env s) ∨ ∃ f, resolve a env = .error f ∧ f.isOfCheck = true := by
  refine bind_cases (isOfCheck_of_numberOr fun _ _ => rfl) fun gracePeriod hgrace => ?_
  refine bind_cases (isOfCheck_of_ite rfl) fun _ hnotNegative => ?_
  refine bind_cases (isOfCheck_of_instant? fun _ => rfl) fun reference hreference => ?_
  refine bind_cases (isOfCheck_of_instant? fun _ => rfl) fun earliest hearliest => ?_
  refine bind_cases (isOfCheck_of_numberOr fun _ _ => rfl) fun concurrency hconcurrency => ?_
  refine bind_cases (isOfCheck_of_ite rfl) fun _ hpositive => ?_
  exact .inl ⟨⟨gracePeriod, reference, earliest, given a.shard env "MANTA_GC_SHARD",
      given a.storageId env "MANTA_GC_STORAGE_ID", concurrency⟩,
    { gracePeriod := numberOr_eq_ok_iff.1 hgrace
      notNegative := checkGrace_eq_ok_iff.1 hnotNegative
      reference := instant?_eq_ok_iff.1 hreference
      earliest := instant?_eq_ok_iff.1 hearliest
      concurrency := numberOr_eq_ok_iff.1 hconcurrency
      positive := checkConcurrency_eq_ok_iff.1 hpositive
      shard := rfl
      storageId := rfl }⟩

/-! ## All settings together -/

/-- Settings that are given are found if the grace period can be counted. -/
theorem resolve_of_given (h : Given a env s) :
    resolve a env =
      if maxGracePeriod < s.gracePeriod then .error (.gracePanic s.gracePeriod)
      else .ok s := by
  simp only [resolve, numberOr_eq_ok_iff.2 h.gracePeriod, checkGrace_eq_ok_iff.2 h.notNegative,
    instant?_eq_ok_iff.2 h.reference, instant?_eq_ok_iff.2 h.earliest,
    numberOr_eq_ok_iff.2 h.concurrency, checkConcurrency_eq_ok_iff.2 h.positive, ← h.shard,
    ← h.storageId, Bind.bind, Except.bind, duration]
  by_cases hrange : maxGracePeriod < s.gracePeriod
  · simp only [if_pos hrange]
  · simp only [if_neg hrange]

theorem resolve_eq_ok_iff :
    resolve a env = .ok s ↔ Given a env s ∧ s.gracePeriod ≤ maxGracePeriod := by
  constructor
  · intro h
    rcases given_or_isOfCheck a env with ⟨s', given⟩ | ⟨f, hf, -⟩
    · rw [resolve_of_given given] at h
      split at h
      · cases h
      · next hrange =>
          obtain rfl := Except.ok.inj h
          exact ⟨given, Int.not_lt.1 hrange⟩
    · rw [hf] at h
      cases h
  · rintro ⟨given, hrange⟩
    rw [resolve_of_given given, if_neg (Int.not_lt.2 hrange)]

/-- The program panics exactly if settings are given whose grace period is too long. -/
theorem resolve_eq_gracePanic_iff {g : Int} :
    resolve a env = .error (.gracePanic g) ↔
      ∃ s, Given a env s ∧ s.gracePeriod = g ∧ maxGracePeriod < g := by
  constructor
  · intro h
    rcases given_or_isOfCheck a env with ⟨s, given⟩ | ⟨f, hf, hcheck⟩
    · rw [resolve_of_given given] at h
      split at h
      · next hrange =>
          cases h
          exact ⟨s, given, rfl, hrange⟩
      · cases h
    · rw [hf] at h
      cases h
      cases hcheck
  · rintro ⟨s, given, rfl, hrange⟩
    rw [resolve_of_given given, if_pos hrange]

/--
There are settings exactly if they are given and the grace period can be
counted.  With a longer grace period and all else given the program panics, and
in all other cases a check reports a fault.  Variables that arguments hide do
not matter.
-/
structure Found (a : Arguments) (env : String → Option String) : Prop where
  ok_iff : ∀ s, resolve a env = .ok s ↔ Given a env s ∧ s.gracePeriod ≤ maxGracePeriod
  panics_iff : ∀ g, resolve a env = .error (.gracePanic g) ↔
    ∃ s, Given a env s ∧ s.gracePeriod = g ∧ maxGracePeriod < g
  fails : (∀ s, ¬ Given a env s) → ∃ f, resolve a env = .error f ∧ f.isOfCheck = true
  congr : ∀ env', AgreeUnlessGiven a env env' → resolve a env = resolve a env'

theorem settings_found (a : Arguments) (env : String → Option String) : Found a env where
  ok_iff _ := resolve_eq_ok_iff
  panics_iff _ := resolve_eq_gracePanic_iff
  fails none := (given_or_isOfCheck a env).resolve_left fun ⟨s, given⟩ => none s given
  congr _ := resolve_congr

/-- The shortest grace period that cannot be counted. -/
def uncounted : Int := 9223372036854776

/-- Settings that are given are not found for every grace period that is not negative. -/
theorem not_forall_found_of_given :
    ¬ ∀ (a : Arguments) (env : String → Option String),
      (∃ s, resolve a env = .ok s) ↔ ∃ s, Given a env s := by
  intro h
  have given : Given { gracePeriod := some uncounted } (fun _ => none)
      ⟨uncounted, none, none, none, none, defaultConcurrency⟩ :=
    ⟨.argument .., by decide, rfl, rfl, .absent, by decide, rfl, rfl⟩
  obtain ⟨s, hs⟩ := (h _ _).2 ⟨_, given⟩
  cases hs

end Settings
end Reclaim
