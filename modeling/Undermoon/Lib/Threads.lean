import Mathlib

/-!
# Threads as a list of local states

An unbounded number of calls in progress is a list of local states, and a
step of call `i` rewrites its entry (`set`) or, when the call returns,
removes it (`eraseIdx`). These are the frame facts such a step needs: every
other entry stays, and what the entries hold (a `filterMap` over them) changes
by what entry `i` held before and after.
-/

namespace List

variable {α β : Type*}

/-- The entry written is there afterwards. -/
theorem mem_set_of_getElem? {l : List α} {i : Nat} {a : α} (h : l[i]? = some a) (b : α) :
    b ∈ l.set i b :=
  List.mem_of_getElem? (List.getElem?_set_self (List.getElem?_eq_some_iff.mp h).1)

/-- Rewriting entry `i` keeps every other entry. -/
theorem mem_set_of_ne {l : List α} {i : Nat} {a x : α} (h : l[i]? = some a) (hx : x ∈ l) (hne : x ≠ a)
    (b : α) : x ∈ l.set i b := by
  obtain ⟨j, hj⟩ := List.mem_iff_getElem?.mp hx
  have hij : i ≠ j := by
    rintro rfl
    rw [h] at hj
    exact hne (Option.some.inj hj).symm
  exact List.mem_iff_getElem?.mpr ⟨j, by rw [List.getElem?_set_ne hij, hj]⟩

/-- Removing entry `i` keeps every other entry. -/
theorem mem_eraseIdx_of_ne {l : List α} {i : Nat} {a x : α} (h : l[i]? = some a) (hx : x ∈ l)
    (hne : x ≠ a) : x ∈ l.eraseIdx i := by
  obtain ⟨j, hj⟩ := List.mem_iff_getElem?.mp hx
  have hij : j ≠ i := by
    rintro rfl
    rw [h] at hj
    exact hne (Option.some.inj hj).symm
  rw [List.mem_iff_getElem?]
  rcases Nat.lt_or_gt_of_ne hij with hlt | hgt
  · exact ⟨j, by rw [List.getElem?_eraseIdx_of_lt hlt, hj]⟩
  · obtain ⟨j', rfl⟩ : ∃ j', j = j' + 1 := ⟨j - 1, by omega⟩
    exact ⟨j', by rw [List.getElem?_eraseIdx_of_ge (by omega), hj]⟩

/-- What the entries hold after entry `i` changes from `a` to `b`. -/
theorem filterMap_set_perm (f : α → Option β) {l : List α} {i : Nat} {a : α} (h : l[i]? = some a)
    (b : α) : ((l.set i b).filterMap f ++ (f a).toList).Perm (l.filterMap f ++ (f b).toList) := by
  induction l generalizing i with
  | nil => cases h
  | cons x l ih =>
      cases i with
      | zero =>
          cases h
          cases ha : f a <;> cases hb : f b
          case none.none => simp [ha, hb]
          case none.some vb => simpa [ha, hb] using (List.perm_append_singleton vb _).symm
          case some.none va => simp [ha, hb]
          case some.some va vb =>
            -- both ends swap places across the entries that stay
            simp only [List.set_cons_zero, List.filterMap_cons, ha, hb, Option.toList_some,
              List.cons_append]
            exact ((List.perm_append_singleton va _).cons vb).trans
              ((List.Perm.swap va vb _).trans ((List.perm_append_singleton vb _).symm.cons va))
      | succ i =>
          have := ih h
          cases hx : f x <;> simp [hx, this]

/-- What the entries hold after entry `i`, holding `a`, is removed. -/
theorem filterMap_eraseIdx_perm (f : α → Option β) {l : List α} {i : Nat} {a : α} (h : l[i]? = some a) :
    ((l.eraseIdx i).filterMap f ++ (f a).toList).Perm (l.filterMap f) := by
  induction l generalizing i with
  | nil => cases h
  | cons x l ih =>
      cases i with
      | zero =>
          cases h
          cases ha : f a <;> simp [ha]
      | succ i =>
          have := ih h
          cases hx : f x <;> simp [hx, this]

end List
