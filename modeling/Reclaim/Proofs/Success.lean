/-!
# Computations that succeed

A computation that may fail and gives a result has taken each of its steps with
success.  These lemmas take it apart step by step.
-/

namespace Reclaim
namespace Success

universe u v w

variable {ε ε' : Type u} {α β : Type v}

/-- Both steps of a computation that gives a result have given one. -/
theorem of_bind
    {x : Except ε α} {f : α → Except ε β} {b : β} (h : (x >>= f) = .ok b) :
    ∃ a, x = .ok a ∧ f a = .ok b := by
  cases x with
  | error e => cases h
  | ok a => exact ⟨a, rfl, h⟩

theorem of_map
    {γ : Type w} {x : Except ε α} {f : α → γ} {b : γ} (h : x.map f = .ok b) :
    ∃ a, x = .ok a ∧ f a = b := by
  cases x with
  | error e => cases h
  | ok a => exact ⟨a, rfl, Except.ok.inj h⟩

theorem of_mapError
    {x : Except ε α} {f : ε → ε'} {a : α} (h : x.mapError f = .ok a) :
    x = .ok a := by
  cases x with
  | error e => cases h
  | ok b => rw [Except.ok.inj h]

@[simp] theorem toOption_ok (a : α) : (Except.ok a : Except ε α).toOption = some a := rfl

@[simp] theorem toOption_error (e : ε) : (Except.error e : Except ε α).toOption = none := rfl

theorem toOption_bind (x : Except ε α) (f : α → Except ε β) :
    (x >>= f).toOption = x.toOption.bind fun a => (f a).toOption := by
  cases x <;> rfl

theorem toOption_map {γ : Type w} (x : Except ε α) (f : α → γ) :
    (x.map f).toOption = x.toOption.map f := by
  cases x <;> rfl

theorem toOption_mapError (x : Except ε α) (f : ε → ε') :
    (x.mapError f).toOption = x.toOption := by
  cases x <;> rfl

theorem toOption_mapM (f : α → Except ε β) (xs : List α) :
    (xs.mapM f).toOption = xs.mapM fun x => (f x).toOption := by
  induction xs with
  | nil => rfl
  | cons x xs ih =>
      rw [List.mapM_cons, List.mapM_cons, toOption_bind]
      simp only [toOption_bind, ih]
      rfl

/-- A state that goes through a list, without the fault that may end it. -/
theorem toOption_foldlM (f : β → α → Except ε β) (xs : List α) (b : β) :
    (xs.foldlM f b).toOption =
      xs.foldl (fun o x => o.bind fun b => (f b x).toOption) (some b) := by
  have hnone : ∀ xs : List α,
      xs.foldl (fun o x => o.bind fun b => (f b x).toOption) none = none := by
    intro xs
    induction xs with
    | nil => rfl
    | cons x xs ih => exact ih
  induction xs generalizing b with
  | nil => rfl
  | cons x xs ih =>
      rw [List.foldlM_cons, toOption_bind, List.foldl_cons, Option.bind_some]
      cases f b x with
      | error e => exact (hnone xs).symm
      | ok b' => exact ih b'

/-- What is computed for the elements of a list is computed for one of them. -/
theorem mem_of_mapM
    {f : α → Except ε β} {xs : List α} {ys : List β}
    (h : xs.mapM f = .ok ys) :
    ∀ y ∈ ys, ∃ x ∈ xs, f x = .ok y := by
  induction xs generalizing ys with
  | nil =>
      cases h
      nofun
  | cons x xs ih =>
      rw [List.mapM_cons] at h
      obtain ⟨y, hy, h⟩ := of_bind h
      obtain ⟨rest, hrest, h⟩ := of_bind h
      obtain rfl := Except.ok.inj h
      refine List.forall_mem_cons.2 ⟨⟨x, List.mem_cons_self, hy⟩, ?_⟩
      intro z hz
      obtain ⟨x', hx', hz⟩ := ih hrest z hz
      exact ⟨x', List.mem_cons_of_mem x hx', hz⟩

/-- Each element of a list has given an element of the result. -/
theorem exists_mem_of_mapM
    {f : α → Except ε β} {xs : List α} {ys : List β}
    (h : xs.mapM f = .ok ys) :
    ∀ x ∈ xs, ∃ y ∈ ys, f x = .ok y := by
  induction xs generalizing ys with
  | nil => nofun
  | cons x xs ih =>
      rw [List.mapM_cons] at h
      obtain ⟨y, hy, h⟩ := of_bind h
      obtain ⟨rest, hrest, h⟩ := of_bind h
      obtain rfl := Except.ok.inj h
      refine List.forall_mem_cons.2 ⟨⟨y, List.mem_cons_self, hy⟩, ?_⟩
      intro x' hx'
      obtain ⟨z, hz, hread⟩ := ih hrest x' hx'
      exact ⟨z, List.mem_cons_of_mem y hz, hread⟩

/-- What undoes the computation for the elements undoes it for the list. -/
theorem map_of_mapM
    {f : α → Except ε β} {g : β → α} {xs : List α} {ys : List β}
    (undo : ∀ x ∈ xs, ∀ y, f x = .ok y → g y = x) (h : xs.mapM f = .ok ys) :
    ys.map g = xs := by
  induction xs generalizing ys with
  | nil =>
      cases h
      rfl
  | cons x xs ih =>
      rw [List.mapM_cons] at h
      obtain ⟨y, hy, h⟩ := of_bind h
      obtain ⟨rest, hrest, h⟩ := of_bind h
      obtain rfl := Except.ok.inj h
      obtain ⟨first, others⟩ := List.forall_mem_cons.1 undo
      rw [List.map_cons, first y hy, ih others hrest]

end Success
end Reclaim
