import Mathlib

/-!
# Extremum selection as iterators do it

`Iterator::max_by_key` returns the *last* element of greatest key and
`Iterator::min_by` the *first* element that no later one beats; the two tie
rules differ, and code that picks by them inherits the order of the
collection it iterates. These are the two definitions, and what every caller
needs of them: the choice is an element of the list, and it is extremal.
Then what a collected `Option` list keeps of its input, and what the stable
insertion sort of `sort_by_key` makes of a list that arrives backwards.
-/

namespace List

variable {α : Type*}

/-- `max_by_key`: the last element of greatest key, `none` on an empty list. -/
def lastMaxByKey (key : α → Nat) : List α → Option α
  | [] => none
  | x :: xs => some (xs.foldl (fun best y => if key best ≤ key y then y else best) x)

/-- `min_by` with a comparison: the running minimum is replaced only by an
element it compares greater than, so of equal elements the first stays. -/
def firstMinBy (cmp : α → α → Ordering) : List α → Option α
  | [] => none
  | x :: xs => some (xs.foldl (fun best y => if cmp best y = .gt then y else best) x)

theorem foldl_lastMax_mem (key : α → Nat) :
    ∀ (xs : List α) (x : α),
      xs.foldl (fun best y => if key best ≤ key y then y else best) x ∈ x :: xs
  | [], x => mem_cons_self
  | y :: ys, x => by
      rw [foldl_cons]
      split
      · exact mem_cons_of_mem _ (foldl_lastMax_mem key ys y)
      · have h := foldl_lastMax_mem key ys x
        rcases mem_cons.mp h with h | h
        · rw [h]; exact mem_cons_self
        · exact mem_cons_of_mem _ (mem_cons_of_mem _ h)

theorem foldl_lastMax_ge (key : α → Nat) :
    ∀ (xs : List α) (x : α), ∀ z ∈ x :: xs,
      key z ≤ key (xs.foldl (fun best y => if key best ≤ key y then y else best) x)
  | [], x, z, hz => by rw [mem_singleton.mp hz]; exact Nat.le_refl _
  | y :: ys, x, z, hz => by
      rw [foldl_cons]
      split
      · next hle =>
          rcases mem_cons.mp hz with rfl | hz
          · exact Nat.le_trans hle (foldl_lastMax_ge key ys y y mem_cons_self)
          · exact foldl_lastMax_ge key ys y z hz
      · next hlt =>
          rcases mem_cons.mp hz with rfl | hz
          · exact foldl_lastMax_ge key ys z z mem_cons_self
          · rcases mem_cons.mp hz with rfl | hz
            · exact Nat.le_trans (Nat.le_of_lt (Nat.lt_of_not_le hlt))
                (foldl_lastMax_ge key ys x x mem_cons_self)
            · exact foldl_lastMax_ge key ys x z (mem_cons_of_mem _ hz)

theorem lastMaxByKey_mem {key : α → Nat} {l : List α} {x : α} (h : l.lastMaxByKey key = some x) :
    x ∈ l := by
  cases l with
  | nil => cases h
  | cons y ys =>
      cases h
      exact foldl_lastMax_mem key ys y

theorem lastMaxByKey_ge {key : α → Nat} {l : List α} {x : α} (h : l.lastMaxByKey key = some x) :
    ∀ z ∈ l, key z ≤ key x := by
  cases l with
  | nil => cases h
  | cons y ys =>
      cases h
      exact foldl_lastMax_ge key ys y

theorem lastMaxByKey_isSome {key : α → Nat} {l : List α} (h : l ≠ []) :
    (l.lastMaxByKey key).isSome := by
  cases l with
  | nil => exact absurd rfl h
  | cons y ys => rfl

theorem foldl_firstMin_mem (cmp : α → α → Ordering) :
    ∀ (xs : List α) (x : α),
      xs.foldl (fun best y => if cmp best y = .gt then y else best) x ∈ x :: xs
  | [], x => mem_cons_self
  | y :: ys, x => by
      rw [foldl_cons]
      split
      · exact mem_cons_of_mem _ (foldl_firstMin_mem cmp ys y)
      · have h := foldl_firstMin_mem cmp ys x
        rcases mem_cons.mp h with h | h
        · rw [h]; exact mem_cons_self
        · exact mem_cons_of_mem _ (mem_cons_of_mem _ h)

theorem firstMinBy_mem {cmp : α → α → Ordering} {l : List α} {x : α}
    (h : l.firstMinBy cmp = some x) : x ∈ l := by
  cases l with
  | nil => cases h
  | cons y ys =>
      cases h
      exact foldl_firstMin_mem cmp ys y

theorem firstMinBy_eq_none {cmp : α → α → Ordering} {l : List α} :
    l.firstMinBy cmp = none ↔ l = [] := by
  cases l with
  | nil => exact ⟨fun _ => rfl, fun _ => rfl⟩
  | cons y ys =>
      constructor
      · intro h; cases h
      · intro h; cases h

/-- `max().unwrap_or(0)` is below every bound of the elements. -/
theorem max?_getD_le {l : List Nat} {b : Nat} (h : ∀ x ∈ l, x ≤ b) : l.max?.getD 0 ≤ b := by
  cases hm : l.max? with
  | none => exact Nat.zero_le b
  | some m => exact (List.max?_le_iff hm).mpr h

/-- A fact that every step of a fold keeps holds at the end once the step
at one element of the list makes it hold. -/
theorem foldl_of_mem {β : Type*} {P : β → Prop} {op : β → α → β} (hkeep : ∀ b a, P b → P (op b a))
    {x : α} (hmk : ∀ b, P (op b x)) : ∀ {l : List α}, x ∈ l → ∀ b, P (l.foldl op b)
  | [], hx, _ => absurd hx (List.not_mem_nil)
  | y :: l, hx, b => by
      rw [List.foldl_cons]
      rcases List.mem_cons.mp hx with rfl | hx
      · exact List.foldlRecOn l op (hmk b) fun b hb a _ => hkeep b a hb
      · exact foldl_of_mem hkeep hmk hx (op b y)

/-! ## Collecting into an `Option`

`collect::<Option<Vec<_>>>()` is `mapM` in `Option`: when every element maps,
whatever the results have of the inputs, the collected list has of the list. -/

theorem map_of_mapM_eq_some {β γ : Type*} {f : α → Option β} {g : β → γ} {h : α → γ}
    (hf : ∀ x y, f x = some y → g y = h x) :
    ∀ {l : List α} {ys : List β}, l.mapM f = some ys → ys.map g = l.map h
  | [], ys, hl => by
      cases hl
      rfl
  | x :: l, ys, hl => by
      simp only [List.mapM_cons, Option.bind_eq_bind, Option.bind_eq_some_iff, Option.pure_def,
        Option.some.injEq] at hl
      obtain ⟨y, hy, ys', hys', rfl⟩ := hl
      rw [List.map_cons, List.map_cons, hf x y hy, map_of_mapM_eq_some hf hys']

/-- An element that goes after every element of the list is inserted last. -/
theorem orderedInsert_of_forall_not {r : α → α → Prop} [DecidableRel r] {a : α} :
    ∀ {l : List α}, (∀ b ∈ l, ¬ r a b) → l.orderedInsert r a = l ++ [a]
  | [], _ => rfl
  | b :: l, h => by
      rw [orderedInsert_of_not_le r l (h b mem_cons_self),
        orderedInsert_of_forall_not fun c hc => h c (mem_cons_of_mem _ hc)]
      rfl

/-- A list in strictly increasing order of a key, reversed, is sorted back by
key. -/
theorem insertionSort_reverse_of_pairwise {key : α → Nat} {l : List α}
    (h : l.Pairwise fun a b => key a < key b) :
    l.reverse.insertionSort (fun a b => key a ≤ key b) = l := by
  induction l using List.reverseRec with
  | nil => rfl
  | append_singleton xs x ih =>
      rw [pairwise_append] at h
      rw [reverse_append, reverse_singleton, singleton_append, insertionSort_cons, ih h.1]
      exact orderedInsert_of_forall_not fun b hb => Nat.not_le_of_lt (h.2.2 b hb x mem_cons_self)

end List

namespace Option

/-- A value that is there, with what holds of any value it could be. -/
theorem exists_eq_some_of_isSome {α : Type*} {o : Option α} {p : α → Prop} (h : o.isSome)
    (hp : ∀ a, o = some a → p a) : ∃ a, o = some a ∧ p a := by
  obtain ⟨a, ha⟩ := Option.isSome_iff_exists.mp h
  exact ⟨a, ha, hp a ha⟩

end Option
