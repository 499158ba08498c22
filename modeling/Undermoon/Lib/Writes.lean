import Mathlib

/-!
# Arrays written by loops

Two loops of the source fill an array that starts out blank: one raises a
flag at every position it visits, the other writes an owner at every position,
later writers over earlier ones. Both write through `get_mut`, which does
nothing out of bounds, and `List.set` does nothing there either, so one
definition, `writeAt`, is the body of both loops. `getElem?_foldl_writeAt`
reads the array back at one position after the whole loop.

`foldl_invariant` carries a property of the state over a left fold, with the
visited prefix as a parameter, and `foldlM_invariant` does the same for a fold
whose steps can fail (`foldlM_preserves` when only the result matters);
`getElem?_foldl_of_writes` reads back an array that
every step writes in place, and `mem_takeWhile_range'` is the range a loop
visits when it breaks at a bound. `countP_set_add` and `countP_eraseIdx_add`
count what a write or an erase at a position leaves.
-/

namespace List

variable {α β : Type*}

/-- A property of the state after each visited prefix, carried over a left
fold. -/
theorem foldl_invariant {σ : Type*} (step : σ → α → σ) (Inv : List α → σ → Prop) {init : σ}
    (h0 : Inv [] init) (hstep : ∀ P a st, Inv P st → Inv (P ++ [a]) (step st a)) (l : List α) :
    Inv l (l.foldl step init) := by
  have h : ∀ P st, Inv P st → Inv (P ++ l) (l.foldl step st) := by
    induction l with
    | nil =>
        intro P st h
        simpa using h
    | cons a l ih =>
        intro P st h
        simpa using ih (P ++ [a]) (step st a) (hstep P a st h)
  simpa using h [] init h0

/-- A fold that can fail (`foldlM` in `Option`) succeeds, with the property,
when each step taken after a visited prefix of `l` succeeds and keeps it. -/
theorem foldlM_invariant {σ : Type*} (step : σ → α → Option σ) (Inv : List α → σ → Prop)
    {init : σ} (l : List α) (h0 : Inv [] init)
    (hstep : ∀ P a st, P ++ [a] <+: l → Inv P st → ∃ st', step st a = some st' ∧ Inv (P ++ [a]) st') :
    ∃ st, l.foldlM step init = some st ∧ Inv l st := by
  have h : ∀ rest P st, P ++ rest = l → Inv P st → ∃ st', rest.foldlM step st = some st' ∧ Inv l st' := by
    intro rest
    induction rest with
    | nil =>
        intro P st hl h
        rw [List.append_nil] at hl
        exact ⟨st, rfl, hl ▸ h⟩
    | cons a rest ih =>
        intro P st hl h
        obtain ⟨st₁, hs, h₁⟩ := hstep P a st ⟨rest, by rw [← hl]; simp⟩ h
        rw [List.foldlM_cons, hs]
        exact ih (P ++ [a]) st₁ (by rw [← hl]; simp) h₁
  exact h l [] init rfl h0

/-- What every completed step keeps holds of the result of a fold that can
fail. -/
theorem foldlM_preserves {σ : Type*} {step : σ → α → Option σ} (Inv : σ → Prop)
    (hstep : ∀ st a st', step st a = some st' → Inv st → Inv st') :
    ∀ {l : List α} {init st : σ}, l.foldlM step init = some st → Inv init → Inv st
  | [], _, _, h, h0 => by
      cases h
      exact h0
  | a :: l, init, st, h, h0 => by
      rw [List.foldlM_cons] at h
      obtain ⟨st₁, hs, h⟩ := Option.bind_eq_some_iff.mp h
      exact foldlM_preserves Inv hstep h (hstep init a st₁ hs h0)

/-- A `flatMap` whose function gives nothing away from position `i` is its
value at `i`. -/
theorem flatMap_eq_of_getElem? {f : α → List β} :
    ∀ {l : List α} {i : Nat} {x : α}, l[i]? = some x →
      (∀ j y, l[j]? = some y → j ≠ i → f y = []) → l.flatMap f = f x
  | [], _, _, h, _ => by cases h
  | y :: l, 0, x, h, hf => by
      obtain rfl : y = x := Option.some.inj h
      have hrest : l.flatMap f = [] := List.flatMap_eq_nil_iff.mpr fun z hz => by
        obtain ⟨j, hj⟩ := List.mem_iff_getElem?.mp hz
        exact hf (j + 1) z hj (by omega)
      rw [List.flatMap_cons, hrest, List.append_nil]
  | y :: l, i + 1, x, h, hf => by
      rw [List.flatMap_cons, hf 0 y rfl (by omega), List.nil_append]
      exact flatMap_eq_of_getElem? h fun j z hz hj => hf (j + 1) z hz (by omega)

/-- `modify` at a position the list has is `set` to the new value. -/
theorem modify_eq_set_of_getElem? {l : List α} {i : Nat} {x : α} (h : l[i]? = some x)
    (g : α → α) : l.modify i g = l.set i (g x) := by
  obtain ⟨hi, rfl⟩ := List.getElem?_eq_some_iff.mp h
  apply List.ext_getElem?
  intro j
  rw [List.getElem?_modify, List.getElem?_set]
  by_cases hij : i = j
  · subst hij
    simp [hi]
  · simp [hij]

/-- A `modify` by a function that keeps the image keeps the list's image. -/
theorem map_modify_of_eq {f : α → β} {g : α → α} (hg : ∀ x, f (g x) = f x) (l : List α) (i : Nat) :
    (l.modify i g).map f = l.map f := by
  apply List.ext_getElem?
  intro j
  rw [List.getElem?_map, List.getElem?_map, List.getElem?_modify]
  cases l[j]? with
  | none => rfl
  | some x =>
      by_cases hij : i = j
      · simp [hij, hg]
      · simp [hij]

/-- Erasing the element at a position the list has takes it out of every
count. -/
theorem countP_eraseIdx_add {p : α → Bool} :
    ∀ {l : List α} {i : Nat} {x : α}, l[i]? = some x →
      (l.eraseIdx i).countP p + (if p x then 1 else 0) = l.countP p
  | [], _, _, h => by simp at h
  | y :: l, 0, x, h => by
      obtain rfl : y = x := by simpa using h
      simp [List.countP_cons]
  | y :: l, i + 1, x, h => by
      have ih := countP_eraseIdx_add (p := p) (l := l) (i := i) (by simpa using h)
      rw [List.eraseIdx_cons_succ, List.countP_cons, List.countP_cons]
      omega

/-- Writing `a` over the element at a position the list has trades one for
the other in every count. -/
theorem countP_set_add {p : α → Bool} {l : List α} {i : Nat} {x : α} (h : l[i]? = some x)
    (a : α) :
    (l.set i a).countP p + (if p x then 1 else 0) = l.countP p + (if p a then 1 else 0) := by
  obtain ⟨hi, rfl⟩ := List.getElem?_eq_some_iff.mp h
  have hle : (if p l[i] then 1 else 0) ≤ l.countP p := by
    split
    · next hp => exact List.countP_pos_iff.mpr ⟨l[i], List.getElem_mem hi, hp⟩
    · exact Nat.zero_le _
  rw [List.countP_set hi]
  omega

/-- Write `v` at position `pos x`, if `x` has one: `if let Some(e) =
arr.get_mut(p) { *e = v }`. -/
def writeAt (pos : α → Option Nat) (v : β) (arr : List β) (x : α) : List β :=
  match pos x with
  | some p => arr.set p v
  | none => arr

theorem getElem?_writeAt (pos : α → Option Nat) (v : β) (arr : List β) (x : α) (i : Nat) :
    (writeAt pos v arr x)[i]? = if pos x = some i then arr[i]?.map fun _ => v else arr[i]? := by
  unfold writeAt
  cases hx : pos x with
  | none => simp
  | some p =>
      rw [getElem?_set]
      by_cases hp : p = i
      · subst hp
        by_cases hlt : p < arr.length <;> simp [hlt]
      · simp [hp]

/-- A loop each of whose steps writes `v` at the positions its element picks
and leaves the others: after it, a position holds `v` exactly when some
visited element picked it, and is as it was otherwise. -/
theorem getElem?_foldl_of_writes (f : List β → α → List β) (p : α → Nat → Prop)
    [∀ x i, Decidable (p x i)] (v : β)
    (hf : ∀ arr x i, (f arr x)[i]? = if p x i then arr[i]?.map (fun _ => v) else arr[i]?) :
    ∀ (xs : List α) (arr : List β) (i : Nat), (xs.foldl f arr)[i]? =
      if ∃ x ∈ xs, p x i then arr[i]?.map (fun _ => v) else arr[i]?
  | [], arr, i => by simp
  | x :: xs, arr, i => by
      rw [foldl_cons, getElem?_foldl_of_writes f p v hf xs, hf]
      by_cases hx : p x i
      · simp [hx, Option.map_map, Function.comp_def]
      · simp [hx]

theorem getElem?_foldl_writeAt (pos : α → Option Nat) (v : β) (xs : List α) (arr : List β)
    (i : Nat) : (xs.foldl (writeAt pos v) arr)[i]? =
      if ∃ x ∈ xs, pos x = some i then arr[i]?.map (fun _ => v) else arr[i]? :=
  getElem?_foldl_of_writes _ (fun x i => pos x = some i) v (getElem?_writeAt pos v) xs arr i

/-- The slots of `s..=s + n - 1` that a loop breaking at the first slot past
`N` visits. -/
theorem mem_takeWhile_range' {N i : Nat} :
    ∀ {s n : Nat}, i ∈ (range' s n).takeWhile (fun x => decide (x < N)) ↔
      s ≤ i ∧ i < s + n ∧ i < N
  | s, 0 => by
      simp only [range'_zero, takeWhile_nil, not_mem_nil, false_iff]
      omega
  | s, n + 1 => by
      rw [range'_succ, takeWhile_cons]
      by_cases hs : s < N
      · simp only [hs, decide_true, if_true, mem_cons]
        rw [mem_takeWhile_range']
        omega
      · simp only [hs, decide_false, Bool.false_eq_true, if_false, not_mem_nil, false_iff]
        omega

end List
