import SortLast.Error

/-!
# Outcomes of computations

What the outcome of a computation in several parts says about the parts: about two in sequence, about
one for each element of a list, and about a fold over a list.

* `ok_of_bind`, `error_of_bind`: two parts in sequence.
* `getElem?_of_mapM`, `exists_mem_of_mapM_error`: a part for each element.
* `invariant_of_foldlM`: what every part keeps is kept by all of them.
* `Faults`: computations without a result, and what can make a sequence of them one.
-/

namespace SortLast

theorem ok_of_toOption {ε α : Type} {x : Except ε α} {a : α} (h : x.toOption = some a) : x = .ok a := by
  cases x with
  | error e => cases h
  | ok b => cases h; rfl

/-! ### Sequences -/

section Sequences

variable {ε α β : Type} {x : Except ε α} {g : α → Except ε β}

/-- A computation in two parts has a result only if both parts have. -/
theorem ok_of_bind {b : β} (h : x >>= g = .ok b) : ∃ a, x = .ok a ∧ g a = .ok b := by
  cases x with
  | error e => cases h
  | ok a => exact ⟨a, rfl, h⟩

theorem error_of_bind {e : ε} (h : x >>= g = .error e) :
    x = .error e ∨ ∃ a, x = .ok a ∧ g a = .error e := by
  cases x with
  | error d =>
    cases h
    exact .inl rfl
  | ok a => exact .inr ⟨a, rfl, h⟩

end Sequences

/-! ### Lists -/

section Lists

variable {ε α β : Type} {f : α → Except ε β} {xs : List α} {ys : List β}

/-- There are as many results as elements. -/
theorem length_of_mapM (h : xs.mapM f = .ok ys) : ys.length = xs.length := by
  induction xs generalizing ys with
  | nil =>
    cases h
    rfl
  | cons x xs ih =>
    rw [List.mapM_cons] at h
    obtain ⟨y, -, h⟩ := ok_of_bind h
    obtain ⟨others, hothers, h⟩ := ok_of_bind h
    cases h
    rw [List.length_cons, List.length_cons, ih hothers]

/-- Results belong to the elements at their places. -/
theorem getElem?_of_mapM (h : xs.mapM f = .ok ys) {i : Nat} {y : β} (hy : ys[i]? = some y) :
    ∃ x, xs[i]? = some x ∧ f x = .ok y := by
  induction xs generalizing ys i with
  | nil =>
    cases h
    cases hy
  | cons x xs ih =>
    rw [List.mapM_cons] at h
    obtain ⟨first, hfirst, h⟩ := ok_of_bind h
    obtain ⟨others, hothers, h⟩ := ok_of_bind h
    cases h
    cases i with
    | zero =>
      cases hy
      exact ⟨x, rfl, hfirst⟩
    | succ i => exact ih hothers hy

theorem exists_of_mapM_ok (h : xs.mapM f = .ok ys) {x : α} (hx : x ∈ xs) : ∃ y, f x = .ok y := by
  induction xs generalizing ys with
  | nil => cases hx
  | cons x' xs ih =>
    rw [List.mapM_cons] at h
    obtain ⟨first, hfirst, h⟩ := ok_of_bind h
    obtain ⟨others, hothers, -⟩ := ok_of_bind h
    rcases List.mem_cons.1 hx with rfl | hx
    · exact ⟨first, hfirst⟩
    · exact ih hothers hx

theorem exists_mem_of_mapM_error {e : ε} (h : xs.mapM f = .error e) : ∃ x ∈ xs, f x = .error e := by
  induction xs with
  | nil => cases h
  | cons x xs ih =>
    rw [List.mapM_cons] at h
    rcases error_of_bind h with hx | ⟨y, -, h⟩
    · exact ⟨x, List.mem_cons_self, hx⟩
    · rcases error_of_bind h with hxs | ⟨ys, -, h⟩
      · obtain ⟨x', hmem, hx'⟩ := ih hxs
        exact ⟨x', List.mem_cons_of_mem x hmem, hx'⟩
      · cases h

/-- What every element of a list keeps is kept by the fold over it. -/
theorem invariant_of_foldlM {σ : Type} {P : σ → Prop} {g : σ → α → Except ε σ} {s t : σ}
    (hstep : ∀ x ∈ xs, ∀ s t, g s x = .ok t → P s → P t) (h : xs.foldlM g s = .ok t) (hs : P s) :
    P t := by
  induction xs generalizing s with
  | nil =>
    cases h
    exact hs
  | cons x xs ih =>
    rw [List.foldlM_cons] at h
    obtain ⟨u, hx, hrest⟩ := ok_of_bind h
    have hu := hstep x List.mem_cons_self s u hx hs
    exact ih (fun y hy => hstep y (List.mem_cons_of_mem x hy)) hrest hu

end Lists

/-! ### Computations without a result -/

/-- A computation has no result. -/
def Faults {α : Type} (x : Except Fault α) : Prop := ∃ f, x = .error f

section Faults

variable {α β : Type}

theorem faults_error (f : Fault) : Faults (.error f : Except Fault α) := ⟨f, rfl⟩

theorem not_faults_ok (a : α) : ¬ Faults (.ok a) := by
  rintro ⟨f, ⟨⟩⟩

theorem not_faults_pure (a : α) : ¬ Faults (pure a) := not_faults_ok a

theorem faults_bind {x : Except Fault α} {g : α → Except Fault β} :
    Faults (x >>= g) ↔ Faults x ∨ ∃ a, x = .ok a ∧ Faults (g a) := by
  rcases x with f | a
  · exact iff_of_true (faults_error f) (.inl (faults_error f))
  · refine ⟨fun h => .inr ⟨a, rfl, h⟩, ?_⟩
    rintro (h | ⟨_, ⟨⟩, h⟩)
    · exact absurd h (not_faults_ok a)
    · exact h

/-- One of the elements is enough. -/
theorem faults_mapM {g : α → Except Fault β} {xs : List α} :
    Faults (xs.mapM g) ↔ ∃ x ∈ xs, Faults (g x) := by
  constructor
  · rintro ⟨f, hf⟩
    obtain ⟨x, hx, hfault⟩ := exists_mem_of_mapM_error hf
    exact ⟨x, hx, f, hfault⟩
  · rintro ⟨x, hx, hfault⟩
    rcases hmap : xs.mapM g with f | ys
    · exact faults_error f
    · obtain ⟨y, hy⟩ := exists_of_mapM_ok hmap hx
      rw [hy] at hfault
      exact absurd hfault (not_faults_ok y)

theorem faults_forM {g : α → Except Fault PUnit} {xs : List α} :
    Faults (xs.forM g) ↔ ∃ x ∈ xs, Faults (g x) := by
  induction xs with
  | nil => exact iff_of_false (not_faults_pure _) fun ⟨x, hx, _⟩ => List.not_mem_nil hx
  | cons x xs ih =>
    show Faults (g x >>= fun _ => xs.forM g) ↔ _
    rw [faults_bind, ih]
    simp only [List.mem_cons, exists_eq_or_imp]
    rcases hx : g x with f | u
    · exact iff_of_true (.inl (faults_error f)) (.inl (faults_error f))
    · exact or_congr_right ⟨fun ⟨_, _, h⟩ => h, fun h => ⟨u, rfl, h⟩⟩

end Faults

end SortLast
