import Mathlib

/-!
# Finite maps with an iteration order

A hash map of a program has no order the program chooses, but every loop over
it still visits its entries in some order, and a program that breaks ties by
the first or the last entry it meets depends on that order. `OrdMap κ ν` is an
`AList` with a non-dependent value type: a map whose entry list *is* the
iteration order. A model that stores its maps this way fixes one order per
state; a step that permutes the entries stands for the freedom the program
does not control.

Mathlib has `lookup`, `insert`, `erase` and `replace` for `AList`; what is
added here is the in-place update a `get_mut` performs (`modify`, keeping the
entry where it was), a map over all values, a filter, and their lookup
lemmas.
-/

universe u v w

/-- A map from `κ` to `ν` whose entries iterate in the order of the list. -/
abbrev OrdMap (κ : Type u) (ν : Type v) := AList (fun _ : κ => ν)

namespace OrdMap

variable {κ : Type u} {ν : Type v} {ν' : Type w} [DecidableEq κ]

/-- The value at a key. -/
def get? (m : OrdMap κ ν) (k : κ) : Option ν := m.lookup k

/-- The values, in iteration order. -/
def values (m : OrdMap κ ν) : List ν := m.entries.map Sigma.snd

/-- Update the value at `k` in place; nothing happens when `k` is absent. -/
def modify (m : OrdMap κ ν) (k : κ) (f : ν → ν) : OrdMap κ ν :=
  match m.lookup k with
  | some x => m.replace k (f x)
  | none => m

/-- Rewrite every value, keeping keys and order. -/
def mapValues (m : OrdMap κ ν) (f : κ → ν → ν') : OrdMap κ ν' :=
  ⟨m.entries.map (fun e => ⟨e.1, f e.1 e.2⟩), by
    have h : (m.entries.map (fun e => (⟨e.1, f e.1 e.2⟩ : Sigma (fun _ : κ => ν')))).keys =
        m.entries.keys := by
      simp only [List.keys, List.map_map]
      rfl
    show List.Nodup _
    rw [h]
    exact m.nodupKeys⟩

/-- Keep the entries that satisfy `p`, in order. -/
def filter (m : OrdMap κ ν) (p : κ → ν → Bool) : OrdMap κ ν :=
  ⟨m.entries.filter (fun e => p e.1 e.2), m.nodupKeys.sublist List.filter_sublist⟩

/-- `*entry(k).or_insert(d) = f(..)`: update the value at `k`, starting from
`d` when `k` is absent (a new key goes first). -/
def upsert (m : OrdMap κ ν) (k : κ) (d : ν) (f : ν → ν) : OrdMap κ ν :=
  match m.lookup k with
  | some x => m.replace k (f x)
  | none => m.insert k (f d)

/-- `entry(k).or_insert_with(f)`: insert only when `k` is absent. -/
def insertIfAbsent (m : OrdMap κ ν) (k : κ) (x : ν) : OrdMap κ ν :=
  if k ∈ m then m else m.insert k x

theorem dlookup_kreplace_ne {k k' : κ} {x : ν} (h : k ≠ k') :
    ∀ l : List (Sigma (fun _ : κ => ν)),
      (l.kreplace k' x).dlookup k = l.dlookup k
  | [] => rfl
  | e :: l => by
      by_cases he : k' = e.1
      · rw [List.kreplace, List.lookmap_cons_some (fun s => if k' = s.1 then some ⟨k', x⟩ else none) l (if_pos he)]
        rw [List.dlookup_cons_ne _ _ h, List.dlookup_cons_ne _ _ (he ▸ h)]
      · rw [List.kreplace, List.lookmap_cons_none (fun s => if k' = s.1 then some ⟨k', x⟩ else none) l (if_neg he)]
        by_cases hk : k = e.1
        · obtain ⟨a, b⟩ := e
          dsimp only at hk
          subst hk
          rw [List.dlookup_cons_eq, List.dlookup_cons_eq]
        · rw [List.dlookup_cons_ne _ _ hk, List.dlookup_cons_ne _ _ hk]
          exact dlookup_kreplace_ne h l

theorem dlookup_kreplace_self {k : κ} {x : ν} :
    ∀ l : List (Sigma (fun _ : κ => ν)), k ∈ l.keys → (l.kreplace k x).dlookup k = some x
  | [], hk => absurd hk List.not_mem_nil
  | e :: l, hk => by
      by_cases he : k = e.1
      · rw [List.kreplace, List.lookmap_cons_some (fun s => if k = s.1 then some ⟨k, x⟩ else none) l (if_pos he),
          List.dlookup_cons_eq]
      · rw [List.kreplace, List.lookmap_cons_none (fun s => if k = s.1 then some ⟨k, x⟩ else none) l (if_neg he),
          List.dlookup_cons_ne _ _ he]
        have hl : k ∈ l.keys := by
          rcases List.mem_cons.mp hk with h | h
          · exact absurd h he
          · exact h
        exact dlookup_kreplace_self l hl

@[simp] theorem get?_modify_self (m : OrdMap κ ν) (k : κ) (f : ν → ν) :
    (m.modify k f).get? k = (m.get? k).map f := by
  unfold modify get?
  cases h : m.lookup k with
  | none => rw [h]; rfl
  | some x =>
      have hk : k ∈ m.entries.keys := (AList.lookup_isSome.mp (by rw [h]; rfl))
      exact dlookup_kreplace_self m.entries hk

@[simp] theorem get?_modify_ne (m : OrdMap κ ν) {k k' : κ} (f : ν → ν) (h : k ≠ k') :
    (m.modify k' f).get? k = m.get? k := by
  unfold modify get?
  cases m.lookup k' with
  | none => rfl
  | some x => exact dlookup_kreplace_ne h m.entries

@[simp] theorem mem_modify (m : OrdMap κ ν) (k k' : κ) (f : ν → ν) :
    k ∈ m.modify k' f ↔ k ∈ m := by
  unfold modify
  cases m.lookup k' with
  | none => rfl
  | some x => exact AList.mem_replace

@[simp] theorem keys_modify (m : OrdMap κ ν) (k : κ) (f : ν → ν) :
    (m.modify k f).keys = m.keys := by
  unfold modify
  cases m.lookup k with
  | none => rfl
  | some x => exact AList.keys_replace _ _ _

theorem get?_replace (m : OrdMap κ ν) (k k' : κ) (x : ν) (h : k' ∈ m) :
    get? (m.replace k' x) k = if k = k' then some x else m.get? k := by
  by_cases hk : k = k'
  · subst hk
    rw [if_pos rfl]
    exact dlookup_kreplace_self m.entries h
  · rw [if_neg hk]
    exact dlookup_kreplace_ne hk m.entries

theorem get?_insert (m : OrdMap κ ν) (k k' : κ) (x : ν) :
    get? (m.insert k' x) k = if k = k' then some x else m.get? k := by
  by_cases hk : k = k'
  · subst hk
    rw [if_pos rfl]
    exact AList.lookup_insert m
  · rw [if_neg hk]
    exact AList.lookup_insert_ne hk

theorem get?_erase (m : OrdMap κ ν) (k k' : κ) :
    get? (m.erase k') k = if k = k' then none else m.get? k := by
  by_cases hk : k = k'
  · subst hk
    rw [if_pos rfl]
    exact AList.lookup_erase k m
  · rw [if_neg hk]
    exact AList.lookup_erase_ne hk

/-- Erasing an absent key changes nothing. -/
theorem erase_of_notMem {m : OrdMap κ ν} {k : κ} (h : k ∉ m) : m.erase k = m :=
  AList.ext (List.kerase_of_notMem_keys h)

theorem dlookup_map_values (f : κ → ν → ν') (k : κ) :
    ∀ l : List (Sigma (fun _ : κ => ν)),
      (l.map (fun e => (⟨e.1, f e.1 e.2⟩ : Sigma (fun _ : κ => ν')))).dlookup k =
        (l.dlookup k).map (f k)
  | [] => rfl
  | ⟨k', x⟩ :: l => by
      by_cases hk : k = k'
      · subst hk
        rw [List.map_cons, List.dlookup_cons_eq, List.dlookup_cons_eq]
        rfl
      · rw [List.map_cons, List.dlookup_cons_ne _ _ hk, List.dlookup_cons_ne _ _ hk]
        exact dlookup_map_values f k l

@[simp] theorem get?_mapValues (m : OrdMap κ ν) (f : κ → ν → ν') (k : κ) :
    (m.mapValues f).get? k = (m.get? k).map (f k) :=
  dlookup_map_values f k m.entries

theorem get?_upsert_self (m : OrdMap κ ν) (k : κ) (d : ν) (f : ν → ν) :
    get? (m.upsert k d f) k = some (f ((m.get? k).getD d)) := by
  unfold upsert
  cases h : m.lookup k with
  | none =>
      rw [get?_insert, if_pos rfl]
      simp [get?, h]
  | some x =>
      rw [get?_replace _ _ _ _ (AList.lookup_isSome.mp (by rw [h]; rfl)), if_pos rfl]
      simp [get?, h]

theorem get?_upsert_ne (m : OrdMap κ ν) {k k' : κ} (d : ν) (f : ν → ν) (h : k' ≠ k) :
    get? (m.upsert k d f) k' = m.get? k' := by
  unfold upsert
  cases hk : m.lookup k with
  | none => rw [get?_insert, if_neg h]
  | some x => rw [get?_replace _ _ _ _ (AList.lookup_isSome.mp (by rw [hk]; rfl)), if_neg h]

theorem get?_eq_none {m : OrdMap κ ν} {k : κ} : m.get? k = none ↔ k ∉ m :=
  AList.lookup_eq_none

theorem mem_of_get?_eq_some {m : OrdMap κ ν} {k : κ} {x : ν} (h : m.get? k = some x) :
    k ∈ m :=
  AList.lookup_isSome.mp (by rw [get?, ] at h; rw [h]; rfl)

/-- `insertIfAbsent` keeps every value already there. -/
theorem get?_insertIfAbsent_of_get? {m : OrdMap κ ν} {k k' : κ} {x y : ν} (h : m.get? k = some y) :
    get? (m.insertIfAbsent k' x) k = some y := by
  unfold insertIfAbsent
  split
  · exact h
  · next hk' =>
      have hne : k ≠ k' := fun hkk => hk' (hkk ▸ mem_of_get?_eq_some h)
      rw [get?_insert, if_neg hne]
      exact h

theorem mem_values {m : OrdMap κ ν} {x : ν} : x ∈ m.values ↔ ∃ k, m.get? k = some x := by
  unfold values get?
  constructor
  · intro hx
    obtain ⟨⟨k, x'⟩, he, rfl⟩ := List.mem_map.mp hx
    exact ⟨k, AList.mem_lookup_iff.mpr he⟩
  · rintro ⟨k, hk⟩
    exact List.mem_map.mpr ⟨⟨k, x⟩, AList.mem_lookup_iff.mp hk, rfl⟩

theorem mem_of_mem_entries {m : OrdMap κ ν} {e : Sigma (fun _ : κ => ν)} (he : e ∈ m.entries) :
    m.get? e.1 = some e.2 :=
  AList.mem_lookup_iff.mpr he

/-! ## Maps that agree through a view

Two maps agree through `V` when they have the same keys and the values at
each key have the same image under `V`: no invariant that reads only `V` of
the values tells them apart. -/

section View

variable {β : Type w}

/-- `m'` has the keys of `m`, with values of the same image under `V`. -/
def SameView (V : ν → β) (m m' : OrdMap κ ν) : Prop :=
  ∀ k, (m'.get? k).map V = (m.get? k).map V

namespace SameView

variable {V : ν → β} {m m' m'' : OrdMap κ ν}

theorem refl (V : ν → β) (m : OrdMap κ ν) : SameView V m m := fun _ => rfl

theorem trans (h : SameView V m m') (h' : SameView V m' m'') : SameView V m m'' :=
  fun k => (h' k).trans (h k)

/-- The value at a key replaced by one of the same image. -/
theorem replace {k : κ} {x x' : ν} (hk : m.get? k = some x) (hx : V x' = V x) :
    SameView V m (m.replace k x') := by
  intro k'
  rw [get?_replace _ _ _ _ (mem_of_get?_eq_some hk)]
  by_cases hk' : k' = k
  · rw [if_pos hk', hk', hk]
    exact congrArg some hx
  · rw [if_neg hk']

theorem exists_before (h : SameView V m m') {k : κ} {x' : ν} (hk : m'.get? k = some x') :
    ∃ x, m.get? k = some x ∧ V x' = V x := by
  have hm := h k
  rw [hk] at hm
  cases hx : m.get? k with
  | none => rw [hx] at hm; cases hm
  | some x => rw [hx] at hm; exact ⟨x, rfl, Option.some.inj hm⟩

theorem exists_after (h : SameView V m m') {k : κ} {x : ν} (hk : m.get? k = some x) :
    ∃ x', m'.get? k = some x' ∧ V x' = V x := by
  have hm := h k
  rw [hk] at hm
  cases hx : m'.get? k with
  | none => rw [hx] at hm; cases hm
  | some x' => rw [hx] at hm; exact ⟨x', rfl, Option.some.inj hm⟩

end SameView

end View

/-! ## Maps of lists as pools

A map whose values are lists holds a pool of elements: the flattened values.
Replacing one value by another trades the old list for the new one in the
pool, up to order. -/

section Pool

variable {α : Type w}

theorem flatten_kreplace_perm {k : κ} {v v' : List α} :
    ∀ l : List (Sigma (fun _ : κ => List α)), l.dlookup k = some v →
      List.Perm (((l.kreplace k v').map Sigma.snd).flatten ++ v) ((l.map Sigma.snd).flatten ++ v')
  | [], h => by cases h
  | e :: l, h => by
      by_cases he : k = e.1
      · rw [List.kreplace, List.lookmap_cons_some _ l (if_pos he)]
        obtain ⟨k', x⟩ := e
        dsimp only at he
        subst he
        rw [List.dlookup_cons_eq] at h
        cases h
        simp only [List.map_cons, List.flatten_cons, List.append_assoc]
        rw [← List.append_assoc]
        exact List.perm_append_comm.trans (List.perm_append_comm.append_left v)
      · rw [List.kreplace, List.lookmap_cons_none _ l (if_neg he)]
        rw [List.dlookup_cons_ne _ _ he] at h
        simp only [List.map_cons, List.flatten_cons, List.append_assoc]
        exact (flatten_kreplace_perm l h).append_left e.2

/-- The pool after replacing the list `v` at `k` by `v'`. -/
theorem values_flatten_replace_perm {m : OrdMap κ (List α)} {k : κ} {v : List α} (v' : List α)
    (h : m.get? k = some v) :
    List.Perm ((values (m.replace k v')).flatten ++ v) (m.values.flatten ++ v') :=
  flatten_kreplace_perm m.entries h

/-- Dropping the last element of the list at `k` takes exactly that element
out of the pool. -/
theorem values_flatten_dropLast_perm {m : OrdMap κ (List α)} {k : κ} {v : List α} {x : α}
    (h : m.get? k = some v) (hx : v.getLast? = some x) :
    List.Perm ((values (m.replace k v.dropLast)).flatten ++ [x]) m.values.flatten := by
  have hv : v.dropLast ++ [x] = v := List.dropLast_append_getLast? x hx
  have hp := values_flatten_replace_perm v.dropLast h
  apply (List.perm_append_right_iff v.dropLast).mp
  have hswap : List.Perm ((values (m.replace k v.dropLast)).flatten ++ [x] ++ v.dropLast)
      ((values (m.replace k v.dropLast)).flatten ++ (v.dropLast ++ [x])) := by
    rw [List.append_assoc]
    exact List.perm_append_comm.append_left _
  rw [hv] at hswap
  exact hswap.trans hp

/-- Cutting the list at `k` down to a prefix leaves a sub-pool. -/
theorem values_flatten_prefix_subperm {m : OrdMap κ (List α)} {k : κ} {v v' : List α}
    (h : m.get? k = some v) (hv : v' <+: v) :
    List.Subperm (values (m.replace k v')).flatten m.values.flatten := by
  obtain ⟨t, rfl⟩ := hv
  have hp := values_flatten_replace_perm v' h
  have hp' : List.Perm ((values (m.replace k v')).flatten ++ t) m.values.flatten := by
    apply (List.perm_append_right_iff v').mp
    rw [List.append_assoc]
    exact (List.perm_append_comm.append_left _).trans hp
  exact (List.sublist_append_left _ t).subperm.trans hp'.subperm

/-- `entry(k).or_insert(vec![]).push(x)` adds `x` to the pool. -/
theorem values_flatten_upsert_append (m : OrdMap κ (List α)) (k : κ) (x : α) :
    List.Perm (values (m.upsert k [] (· ++ [x]))).flatten (m.values.flatten ++ [x]) := by
  unfold upsert
  cases h : m.lookup k with
  | none =>
      have hk : k ∉ m := AList.lookup_eq_none.mp h
      show List.Perm ((AList.insert k ([] ++ [x]) m).entries.map Sigma.snd).flatten _
      rw [AList.entries_insert_of_notMem hk, List.map_cons, List.flatten_cons]
      exact List.perm_append_comm
  | some v =>
      have hp := values_flatten_replace_perm (v ++ [x]) h
      have hs : List.Perm (m.values.flatten ++ (v ++ [x])) (m.values.flatten ++ [x] ++ v) := by
        rw [List.append_assoc]
        exact List.perm_append_comm.append_left _
      exact (List.perm_append_right_iff v).mp (hp.trans hs)

/-- How many elements the lists of a map hold together. -/
def poolSize (m : OrdMap κ (List α)) : Nat := m.values.flatten.length

theorem length_le_poolSize {m : OrdMap κ (List α)} {k : κ} {v : List α} (h : m.get? k = some v) :
    v.length ≤ m.poolSize :=
  (List.sublist_flatten_of_mem (mem_values.mpr ⟨k, h⟩)).length_le

/-- The pool without the list at `k`. -/
theorem poolSize_replace {m : OrdMap κ (List α)} {k : κ} {v : List α} (v' : List α) (h : m.get? k = some v) :
    poolSize (m.replace k v') + v.length = m.poolSize + v'.length := by
  have := (values_flatten_replace_perm v' h).length_eq
  rwa [List.length_append, List.length_append] at this

/-- Two lists at different keys are both in the pool. -/
theorem length_add_length_le_poolSize {m : OrdMap κ (List α)} {k k' : κ} {v v' : List α}
    (h : m.get? k = some v) (h' : m.get? k' = some v') (hne : k ≠ k') :
    v.length + v'.length ≤ m.poolSize := by
  have hsize := poolSize_replace [] h
  have hv' : get? (m.replace k []) k' = some v' := by
    rw [get?_replace _ _ _ _ (mem_of_get?_eq_some h), if_neg (Ne.symm hne)]
    exact h'
  have := length_le_poolSize hv'
  rw [List.length_nil] at hsize
  omega

/-- A nonempty pool has a nonempty list. -/
theorem exists_ne_nil_of_poolSize_pos {m : OrdMap κ (List α)} (h : 0 < m.poolSize) :
    ∃ k v, m.get? k = some v ∧ v ≠ [] := by
  obtain ⟨v, hv, hvne⟩ := List.flatten_ne_nil_iff.mp (List.ne_nil_of_length_pos h)
  obtain ⟨k, hk⟩ := mem_values.mp hv
  exact ⟨k, v, hk, hvne⟩

end Pool

end OrdMap
