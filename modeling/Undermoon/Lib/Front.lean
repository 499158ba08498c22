import Mathlib

/-!
# Lists whose chosen elements come first

A list is front-loaded for a test `p` when every element that passes stands
before every element that fails: `l.Pairwise (fun a b => p b → p a)`. Such a
list is its passing prefix followed by failures only, so filtering it by `p`
keeps a prefix and every kept element keeps its position, and an element
passes exactly when its position is below the number of elements that pass.

Whether a list is front-loaded depends only on the list of answers, so it
carries over to any list with the same answers (`FrontLoaded.of_map_eq`),
such as a list with one position rewritten to an element with the same
answer (`map_set_of_getElem?`).
-/

namespace List

variable {α β : Type*}

/-- The elements passing `p` come first. -/
def FrontLoaded (p : α → Bool) (l : List α) : Prop :=
  l.Pairwise fun a b => p b = true → p a = true

variable {p : α → Bool} {l : List α}

theorem frontLoaded_nil : FrontLoaded p [] := Pairwise.nil

theorem frontLoaded_iff_map :
    FrontLoaded p l ↔ (l.map p).Pairwise fun a b => b = true → a = true := by
  rw [FrontLoaded, pairwise_map]

/-- Only the answers matter. -/
theorem FrontLoaded.of_map_eq {q : β → Bool} {l' : List β} (h : FrontLoaded p l)
    (he : l'.map q = l.map p) : FrontLoaded q l' := by
  rw [frontLoaded_iff_map, he]
  exact frontLoaded_iff_map.mp h

theorem FrontLoaded.sublist {l' : List α} (h : FrontLoaded p l) (hs : l' <+ l) :
    FrontLoaded p l' :=
  Pairwise.sublist hs h

/-- Failures appended at the end keep the order. -/
theorem FrontLoaded.append_of_not {l' : List α} (h : FrontLoaded p l)
    (h' : ∀ b ∈ l', p b = false) : FrontLoaded p (l ++ l') := by
  refine pairwise_append.mpr ⟨h, ?_, fun _ _ b hb hpb => ?_⟩
  · exact pairwise_of_forall_mem_list fun _ _ b hb hpb => absurd hpb (by rw [h' b hb]; simp)
  · exact absurd hpb (by rw [h' b hb]; simp)

/-- By positions: a passing element has passing elements only before it. -/
theorem frontLoaded_of_getElem
    (h : ∀ (i j : Nat) (hi : i < l.length) (hj : j < l.length), i < j → p l[j] = true →
      p l[i] = true) : FrontLoaded p l :=
  pairwise_iff_getElem.mpr h

/-- Behind a failure there are failures only. -/
theorem FrontLoaded.forall_not_of_cons {a : α} (h : FrontLoaded p (a :: l)) (ha : p a = false) :
    ∀ b ∈ l, p b = false := by
  intro b hb
  cases hpb : p b with
  | false => rfl
  | true =>
      have := (pairwise_cons.mp h).1 b hb hpb
      rw [ha] at this
      cases this

/-- The passing elements are a prefix. -/
theorem FrontLoaded.filter_eq_takeWhile (h : FrontLoaded p l) : l.filter p = l.takeWhile p := by
  induction l with
  | nil => rfl
  | cons a l ih =>
      cases ha : p a with
      | true =>
          rw [filter_cons_of_pos ha, takeWhile_cons_of_pos ha, ih (pairwise_cons.mp h).2]
      | false =>
          rw [filter_cons_of_neg (by simp [ha]), takeWhile_cons_of_neg (by simp [ha]),
            filter_eq_nil_iff]
          intro b hb
          simp [h.forall_not_of_cons ha b hb]

theorem FrontLoaded.filter_isPrefix (h : FrontLoaded p l) : l.filter p <+: l := by
  rw [h.filter_eq_takeWhile]
  exact takeWhile_prefix p

/-- An element passes exactly when its position is below the number of
passing elements: the length less the failures. -/
theorem FrontLoaded.getElem_iff (h : FrontLoaded p l) {j : Nat} (hj : j < l.length) :
    p l[j] = true ↔ j < l.length - (l.filter fun a => !p a).length := by
  induction l generalizing j with
  | nil => cases hj
  | cons a l ih =>
      have hle : (l.filter fun a => !p a).length ≤ l.length := length_filter_le _ _
      cases ha : p a with
      | true =>
          rw [filter_cons_of_neg (by simp [ha]), length_cons]
          cases j with
          | zero => simp only [getElem_cons_zero, ha, true_iff]; omega
          | succ j =>
              rw [getElem_cons_succ, ih (pairwise_cons.mp h).2 (by simpa using hj)]
              omega
      | false =>
          -- everything fails: the bound is zero
          have hall : ∀ b ∈ a :: l, p b = false := by
            intro b hb
            rcases mem_cons.mp hb with rfl | hb
            · exact ha
            · exact h.forall_not_of_cons ha b hb
          have hf : ((a :: l).filter fun a => !p a) = a :: l :=
            filter_eq_self.mpr fun b hb => by simp [hall b hb]
          rw [hf, Nat.sub_self, hall _ (getElem_mem hj)]
          simp

/-- A position rewritten to an element of the same image leaves the image of
the list alone. -/
theorem map_set_of_getElem? {f : α → β} {i : Nat} {a a' : α} (h : l[i]? = some a)
    (hf : f a' = f a) : (l.set i a').map f = l.map f := by
  obtain ⟨hi, hget⟩ := getElem?_eq_some_iff.mp h
  have hi' : i < (l.map f).length := by rw [length_map]; exact hi
  have hl : (l.map f)[i] = f a := by rw [getElem_map, hget]
  rw [map_set, hf, ← hl, set_getElem_self]

end List
