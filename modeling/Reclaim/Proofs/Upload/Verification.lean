import Mathlib.Tactic.SplitIfs
import Reclaim.Upload.Collector

/-!
# Verifying the batches of uploads

A batch is verified if its records are sound: they belong to its upload, and one
of them at most is finalizing and one a directory.  What is verified holds the
same records; otherwise the fault is the breach of the first record that is not
sound together with those before it.

The cleanups of a verified batch can be told from the records alone: they are
the parts, the directory and the finalizing record of an upload that is finished.

Main results: `verify_sound_or_first_breach` and `cleanups_judge_eq`.
-/

namespace Reclaim
namespace Upload

namespace Record

/-- The record says how its upload ended. -/
def isFinalizing : Record → Bool
  | finalizing _ => true
  | live _ => false

/-- The record is the directory of its upload. -/
def isDirectory : Record → Bool
  | finalizing _ => false
  | live r => r.kind = .directory

/-- The record is a part of its upload. -/
def isPart : Record → Bool
  | finalizing _ => false
  | live r => r.kind = .part

end Record

/-- The records of an upload hold one finalizing record and one directory at most. -/
def Fits (records : List Record) : Prop :=
  (records.filter Record.isFinalizing).length ≤ 1 ∧
    (records.filter Record.isDirectory).length ≤ 1

/--
What is cleaned up of the records of an upload: nothing, unless they hold
exactly one finalizing record, which is past the grace period, and one directory
at most; then the parts in their order, the directory and the finalizing record.
-/
def cleanupsOf (policy : GracePolicy) (records : List Record) :
    List Record :=
  let finalizing := records.filter Record.isFinalizing
  let directories := records.filter Record.isDirectory
  if finalizing.length = 1 ∧ directories.length ≤ 1 ∧
      ∀ r ∈ finalizing, policy.isExpired r.date then
    records.filter Record.isPart ++ directories ++ finalizing
  else []

/-- The records are those of an upload and fit together. -/
structure Sound (upload : Uuid) (records : List Record) : Prop where
  own : ∀ r ∈ records, r.upload = upload
  fits : Fits records

/-- What is wrong with a record of a batch that comes after others. -/
def breach? (upload : Uuid) (before : List Record) (r : Record) :
    Option BatchDefect :=
  if r.upload ≠ upload then some (.foreignRecord r.upload)
  else if r.isFinalizing ∧ before.any Record.isFinalizing then
    some .secondFinalizing
  else if r.isDirectory ∧ before.any Record.isDirectory then
    some .secondDirectory
  else none

/-- What is verified holds the records. -/
structure Verified.Holds (v : Verified) (records : List Record) : Prop where
  finalizing : records.filter Record.isFinalizing =
    v.finalizing.toList.map .finalizing
  directory : records.filter Record.isDirectory =
    v.directory.toList.map .live
  parts : records.filter Record.isPart = v.parts.map .live

section Sound

variable {upload : Uuid} {before more : List Record} {r : Record}

theorem Fits.of_append (h : Fits (before ++ more)) : Fits before := by
  obtain ⟨hf, hd⟩ := h
  simp only [List.filter_append, List.length_append] at hf hd
  exact ⟨by omega, by omega⟩

theorem Sound.of_append (h : Sound upload (before ++ more)) :
    Sound upload before :=
  ⟨fun r hr => h.own r (List.mem_append_left more hr), h.fits.of_append⟩

theorem length_filter_concat_le_one_iff
    {p : Record → Bool} (h : (before.filter p).length ≤ 1) :
    ((before ++ [r]).filter p).length ≤ 1 ↔ ¬ (p r ∧ before.any p) := by
  rw [← List.countP_eq_length_filter] at h ⊢
  rw [List.countP_append, List.any_eq_true, ← List.countP_pos_iff,
    List.countP_singleton]
  by_cases hr : p r = true
  · simp only [hr, if_true, true_and]
    omega
  · simp only [hr, Bool.false_eq_true, if_false, false_and, not_false_eq_true,
      iff_true]
    exact h

/-- A record may follow sound ones if it is no breach. -/
theorem Sound.concat_iff (h : Sound upload before) :
    Sound upload (before ++ [r]) ↔ breach? upload before r = none := by
  have fits : Fits (before ++ [r]) ↔
      ¬ (r.isFinalizing ∧ before.any Record.isFinalizing) ∧
        ¬ (r.isDirectory ∧ before.any Record.isDirectory) :=
    and_congr (length_filter_concat_le_one_iff h.fits.1)
      (length_filter_concat_le_one_iff h.fits.2)
  have own : (∀ s ∈ before ++ [r], s.upload = upload) ↔ r.upload = upload := by
    simp only [List.forall_mem_append, List.forall_mem_singleton]
    exact and_iff_right h.own
  have both : Sound upload (before ++ [r]) ↔
      r.upload = upload ∧ Fits (before ++ [r]) := by
    rw [← own]
    exact ⟨fun h => ⟨h.own, h.fits⟩, fun h => ⟨h.1, h.2⟩⟩
  rw [both, fits, breach?]
  split_ifs <;> simp_all

/-- Records that go on behind a breach are not sound. -/
theorem not_sound_of_breach
    {after : List Record} {e : BatchDefect}
    (h : breach? upload before r = some e) :
    ¬ Sound upload (before ++ r :: after) := by
  intro hs
  rw [List.append_cons] at hs
  have sound := hs.of_append
  rw [sound.of_append.concat_iff.1 sound] at h
  cases h

end Sound

section Verify

variable {v v' : Verified} {before more records : List Record} {r : Record}

theorem holds_start (upload : Uuid) :
    Verified.Holds { upload := upload } [] :=
  ⟨rfl, rfl, rfl⟩

theorem sound_nil (upload : Uuid) : Sound upload [] :=
  ⟨List.forall_mem_nil _, Nat.zero_le 1, Nat.zero_le 1⟩

theorem any_eq_isSome
    {α : Type} {p : Record → Bool} {f : α → Record} {o : Option α}
    (h : records.filter p = o.toList.map f) :
    records.any p = o.isSome := by
  cases o with
  | none =>
      rw [Option.isSome_none, List.any_eq_false]
      exact List.filter_eq_nil_iff.1 h
  | some a =>
      have hm : f a ∈ records.filter p := by simp [h]
      rw [Option.isSome_some, List.any_eq_true]
      exact ⟨f a, List.mem_filter.1 hm⟩

/-- A record is added to those that are held, or it is a breach. -/
theorem Verified.Holds.add (hv : v.Holds before) :
    (∃ v', v.add r = .ok v' ∧ v'.upload = v.upload ∧
        v'.Holds (before ++ [r]) ∧ breach? v.upload before r = none) ∨
      ∃ e, v.add r = .error e ∧ breach? v.upload before r = some e := by
  have finalizing := any_eq_isSome hv.finalizing
  have directory := any_eq_isSome hv.directory
  obtain ⟨hf, hd, hp⟩ := hv
  unfold Verified.add breach?
  by_cases hr : r.upload = v.upload
  · rw [if_pos hr, if_neg (fun h => h hr), finalizing, directory]
    cases r with
    | finalizing f =>
        cases hvf : v.finalizing with
        | none =>
            rw [hvf] at hf
            refine .inl ⟨{ v with finalizing := some f }, rfl, rfl, ?_,
              by simp [Record.isDirectory]⟩
            constructor <;> simp [hf, hd, hp, Record.isFinalizing,
              Record.isDirectory, Record.isPart]
        | some g => exact .inr ⟨.secondFinalizing, rfl, rfl⟩
    | live l =>
        cases hk : l.kind with
        | directory =>
            cases hvd : v.directory with
            | none =>
                rw [hvd] at hd
                refine .inl ⟨{ v with directory := some l }, by simp [hk], rfl,
                  ?_, by simp [Record.isFinalizing]⟩
                constructor <;> simp [hf, hd, hp, hk, Record.isFinalizing,
                  Record.isDirectory, Record.isPart]
            | some g =>
                exact .inr ⟨.secondDirectory, by simp [hk],
                  by simp [Record.isFinalizing, Record.isDirectory, hk]⟩
        | part =>
            refine .inl ⟨{ v with parts := v.parts ++ [l] }, by simp [hk], rfl,
              ?_, by simp [Record.isFinalizing, Record.isDirectory, hk]⟩
            constructor <;> simp [hf, hd, hp, hk, Record.isFinalizing,
              Record.isDirectory, Record.isPart]
  · exact .inr ⟨_, if_neg hr, if_pos hr⟩

/-- Sound records are all added, or the first one that is a breach is refused. -/
theorem Verified.Holds.foldlM_add
    (hv : v.Holds before) (hs : Sound v.upload before) (records : List Record) :
    (∃ v', records.foldlM Verified.add v = .ok v' ∧ v'.upload = v.upload ∧
        v'.Holds (before ++ records) ∧ Sound v.upload (before ++ records)) ∨
      ∃ sound r rest e, records = sound ++ r :: rest ∧
        Sound v.upload (before ++ sound) ∧
        breach? v.upload (before ++ sound) r = some e ∧
        records.foldlM Verified.add v = .error e := by
  induction records generalizing v before with
  | nil =>
      rw [List.append_nil]
      exact .inl ⟨v, rfl, rfl, hv, hs⟩
  | cons r rs ih =>
      have hsplit : before ++ r :: rs = (before ++ [r]) ++ rs := by simp
      rw [List.foldlM_cons, hsplit]
      rcases hv.add (r := r) with ⟨v₁, hadd, hu, hv₁, hn⟩ | ⟨e, hadd, he⟩
      · rw [hadd]
        have hs₁ : Sound v₁.upload (before ++ [r]) := hu ▸ hs.concat_iff.2 hn
        rw [← hu]
        rcases ih hv₁ hs₁ with hok | ⟨sound, r', rest, e, rfl, hsound, he, hfold⟩
        · exact .inl hok
        · refine .inr ⟨r :: sound, r', rest, e, rfl, ?_, ?_, hfold⟩
          · rwa [List.append_assoc] at hsound
          · rwa [List.append_assoc] at he
      · rw [hadd]
        exact .inr ⟨[], r, rs, e, rfl, by rwa [List.append_nil],
          by rwa [List.append_nil], rfl⟩

/-- A batch is verified if its records are sound; otherwise its first breach is the fault. -/
theorem verify_cases (batch : Batch) :
    (∃ v, batch.verify = .ok v ∧ v.upload = batch.upload ∧
        v.Holds batch.records ∧ Sound batch.upload batch.records) ∨
      ∃ before r after e, batch.records = before ++ r :: after ∧
        Sound batch.upload before ∧ breach? batch.upload before r = some e ∧
        batch.verify = .error (.invalidBatch batch.upload e) := by
  unfold Batch.verify
  rcases (holds_start batch.upload).foldlM_add (sound_nil batch.upload)
    batch.records with
    ⟨v, hv, hu, hholds, hs⟩ | ⟨before, r, after, e, hr, hs, he, hfold⟩
  · rw [hv]
    exact .inl ⟨v, rfl, hu, hholds, hs⟩
  · rw [hfold]
    exact .inr ⟨before, r, after, e, hr, hs, he, rfl⟩

/-- What is verified holds the records of the batch, which are sound. -/
theorem holds_of_verify {batch : Batch} (h : batch.verify = .ok v) :
    v.upload = batch.upload ∧ v.Holds batch.records ∧
      Sound batch.upload batch.records := by
  rcases verify_cases batch with
    ⟨w, hw, holds⟩ | ⟨before, r, after, e, -, -, -, hw⟩
  · cases hw.symm.trans h
    exact holds
  · cases hw.symm.trans h

/-- There is one first breach only. -/
theorem eq_of_breaches
    {upload : Uuid} {before' after after' : List Record} {r' : Record}
    {e e' : BatchDefect}
    (hr : before ++ r :: after = before' ++ r' :: after')
    (hs : Sound upload before) (hs' : Sound upload before')
    (he : breach? upload before r = some e)
    (he' : breach? upload before' r' = some e') :
    e = e' := by
  rcases List.append_eq_append_iff.1 hr with ⟨more, rfl, hmore⟩ | ⟨more, rfl, hmore⟩
  · cases more with
    | nil =>
        cases hmore
        rw [List.append_nil] at he'
        exact Option.some.inj (he.symm.trans he')
    | cons s more =>
        cases hmore
        exact absurd hs' (not_sound_of_breach he)
  · cases more with
    | nil =>
        cases hmore
        rw [List.append_nil] at he
        exact Option.some.inj (he.symm.trans he')
    | cons s more =>
        cases hmore
        exact absurd hs (not_sound_of_breach he')

/-- What holds the records of an upload is determined by them. -/
theorem Verified.Holds.unique
    (h : v.Holds records) (h' : v'.Holds records) (hu : v.upload = v'.upload) :
    v = v' := by
  have finalizing := h.finalizing.symm.trans h'.finalizing
  have directory := h.directory.symm.trans h'.directory
  have parts := h.parts.symm.trans h'.parts
  rw [List.map_inj_right fun _ _ => Record.finalizing.inj] at finalizing
  rw [List.map_inj_right fun _ _ => Record.live.inj] at directory parts
  obtain ⟨u, f, d, ps⟩ := v
  obtain ⟨u', f', d', ps'⟩ := v'
  cases f <;> cases f' <;> cases d <;> cases d' <;> simp_all

/--
Verification succeeds just for sound records and then gives their finalizing
record, their directory and their parts in order; otherwise the fault tells the
breach of the first record that is not sound with those before it.
-/
theorem verify_sound_or_first_breach (batch : Batch) :
    ((∃ v, batch.verify = .ok v) ↔ Sound batch.upload batch.records) ∧
      (∀ v, batch.verify = .ok v ↔
        Sound batch.upload batch.records ∧ v.upload = batch.upload ∧
          v.Holds batch.records) ∧
      ∀ fault, batch.verify = .error fault ↔
        ∃ before r after e, batch.records = before ++ r :: after ∧
          Sound batch.upload before ∧ breach? batch.upload before r = some e ∧
          fault = .invalidBatch batch.upload e := by
  rcases verify_cases batch with
    ⟨v, hv, hu, hholds, hs⟩ | ⟨before, r, after, e, hr, hs, he, hv⟩
  · refine ⟨⟨fun _ => hs, fun _ => ⟨v, hv⟩⟩, fun v' => ?_, fun fault => ?_⟩
    · constructor
      · intro hv'
        obtain ⟨hu', hholds', -⟩ := holds_of_verify hv'
        exact ⟨hs, hu', hholds'⟩
      · rintro ⟨-, hu', hholds'⟩
        rw [hv, hholds.unique hholds' (hu.trans hu'.symm)]
    · constructor
      · intro hf
        cases hv.symm.trans hf
      · rintro ⟨before, r, after, e, hr, -, he, -⟩
        exact absurd (hr ▸ hs) (not_sound_of_breach he)
  · have unsound : ¬ Sound batch.upload batch.records :=
      hr ▸ not_sound_of_breach he
    refine ⟨⟨?_, fun h => absurd h unsound⟩, fun v' => ⟨?_, ?_⟩, fun fault => ?_⟩
    · rintro ⟨v, hv'⟩
      cases hv.symm.trans hv'
    · intro hv'
      cases hv.symm.trans hv'
    · rintro ⟨h, -⟩
      exact absurd h unsound
    · constructor
      · intro hf
        cases hv.symm.trans hf
        exact ⟨before, r, after, e, hr, hs, he, rfl⟩
      · rintro ⟨before', r', after', e', hr', hs', he', rfl⟩
        rw [hv, eq_of_breaches (hr.symm.trans hr') hs hs' he he']

end Verify

section Judge

variable {policy : GracePolicy} {batch : Batch}

/-- A batch of records of its own upload is verified, or its records do not fit. -/
theorem verify_of_upload
    (h : ∀ r ∈ batch.records, r.upload = batch.upload) :
    (∃ v, batch.verify = .ok v ∧ v.Holds batch.records) ∨
      (∃ fault, batch.verify = .error fault) ∧ ¬ Fits batch.records := by
  rcases verify_cases batch with
    ⟨v, hv, -, hholds, -⟩ | ⟨before, r, after, e, hr, -, he, hv⟩
  · exact .inl ⟨v, hv, hholds⟩
  · have unsound : ¬ Sound batch.upload batch.records :=
      hr ▸ not_sound_of_breach he
    exact .inr ⟨⟨_, hv⟩, fun fits => unsound ⟨h, fits⟩⟩

/-- The batch that is handed out, if any, does not depend on the counts. -/
theorem judge_counts (policy : GracePolicy) (n : Counts) (batch : Batch) :
    (Collector.judge policy n batch).2 =
      (Collector.judge policy {} batch).2 := by
  unfold Collector.judge
  cases batch.verify with
  | error fault => rfl
  | ok v =>
      simp only
      split
      · rfl
      · split
        · rfl
        · rfl

/-- What is cleaned up of a verified batch is told from its records. -/
theorem cleanupsOf_eq_of_holds
    {v : Verified} {records : List Record} (h : v.Holds records) :
    cleanupsOf policy records =
      if v.isEligible policy then v.cleanups else [] := by
  unfold cleanupsOf Verified.isEligible Verified.cleanups
  simp only [h.finalizing, h.directory, h.parts]
  cases v.finalizing with
  | none => simp
  | some f =>
      have hd : v.directory.toList.length ≤ 1 := Option.length_toList_le
      simp [hd, Record.date]

theorem cleanupsOf_of_not_fits
    {records : List Record} (h : ¬ Fits records) :
    cleanupsOf policy records = [] := by
  refine if_neg ?_
  rintro ⟨hf, hd, _⟩
  exact h ⟨Nat.le_of_eq hf, hd⟩

/-- What comes of a batch of records of its own upload. -/
theorem cleanups_judge_eq
    (h : ∀ r ∈ batch.records, r.upload = batch.upload) (n : Counts) :
    (Collector.judge policy n batch).2.toList.flatMap Verified.cleanups =
      cleanupsOf policy batch.records := by
  unfold Collector.judge
  rcases verify_of_upload h with ⟨v, hv, hholds⟩ | ⟨⟨fault, hv⟩, hn⟩
  · rw [cleanupsOf_eq_of_holds hholds, hv]
    cases hf : v.finalizing with
    | none => simp [Verified.isEligible, hf]
    | some f =>
        by_cases he : v.isEligible policy
        · simp [he, hf]
        · simp [he, hf]
  · rw [hv, cleanupsOf_of_not_fits hn]
    rfl

end Judge

end Upload
end Reclaim
