import Undermoon.Protocol.Resp

/-!
# The RESP parser against the encoder

What `encode_resp` writes, `parse_resp` reads back: off the front of any
buffer that starts with it, the parser takes exactly its bytes, and the
indices it returns resolve to the value (`parseRespFuel_encode`,
`traverse_indexOf`, and the same for what `parse_indexed_resp` returns).
And a buffer that holds only part of it is never misread: the parser asks
for more data (`parseRespFuel_of_cut`), which is what lets the streaming
decoder wait.
Both hold for the values a proxy can send: the payload of a simple string, an
error or an integer has no LF, which would end its line early, and every
length is below `2^63`, as the length of a `Vec` always is.

The parser does not check what it skips. `parse_line` takes the byte before
the LF to be the CR without reading it, and `parse_bulk_str` counts the two
bytes after the content without reading them, so it accepts frames that are
not RESP (`parseResp_accepts_unterminated`).

Both directions are proved by induction on the parser's fuel, which bounds
the nesting of the value; an array's elements then go by induction on the
list, each by the hypothesis one level down.
-/

namespace Undermoon

/-! ## Decimal lengths -/

theorem byte_digitChar : ∀ d, d < 10 → (byte (Nat.digitChar d)).toNat = 48 + d := by decide

theorem isDigit_digitChar : ∀ d, d < 10 → isDigit (byte (Nat.digitChar d)) = true := by decide

theorem isDigit_lf : isDigit lf = false := by decide

theorem decimal_of_lt {n : Nat} (h : n < 10) : decimal n = [byte (Nat.digitChar n)] := by
  rw [decimal, Nat.toDigits_of_lt_base h, List.map_singleton]

theorem decimal_of_ge {n : Nat} (h : 10 ≤ n) :
    decimal n = decimal (n / 10) ++ [byte (Nat.digitChar (n % 10))] := by
  have hsplit := @Nat.toDigits_append_toDigits 10 (n / 10) (n % 10) (by omega) (by omega)
    (Nat.mod_lt _ (by omega))
  rw [Nat.div_add_mod] at hsplit
  rw [decimal, ← hsplit, List.map_append, Nat.toDigits_of_lt_base (Nat.mod_lt _ (by omega)),
    List.map_singleton, decimal]

/-- `n.to_string()` is one or more digits, which read back as `n`. -/
theorem decimal_spec (n : Nat) :
    decimal n ≠ [] ∧ (decimal n).all isDigit = true ∧
      (decimal n).foldl (fun acc b => 10 * acc + (b.toNat - 48)) 0 = n := by
  induction n using Nat.strongRecOn with
  | ind n ih =>
      by_cases h : n < 10
      · rw [decimal_of_lt h]
        refine ⟨List.cons_ne_nil _ _, by simp [isDigit_digitChar n h], ?_⟩
        rw [List.foldl_cons, List.foldl_nil, byte_digitChar n h]
        omega
      · have hge : 10 ≤ n := Nat.le_of_not_lt h
        obtain ⟨-, hall, hval⟩ := ih (n / 10) (Nat.div_lt_self (by omega) (by omega))
        rw [decimal_of_ge hge]
        refine ⟨by simp, ?_, ?_⟩
        · rw [List.all_append, hall, List.all_cons, List.all_nil,
            isDigit_digitChar _ (Nat.mod_lt _ (by omega))]
          rfl
        · rw [List.foldl_append, hval, List.foldl_cons, List.foldl_nil,
            byte_digitChar _ (Nat.mod_lt _ (by omega))]
          omega

theorem lf_not_mem_decimal (n : Nat) : lf ∉ decimal n := by
  intro h
  have hall := List.all_eq_true.mp (decimal_spec n).2.1 lf h
  rw [isDigit_lf] at hall
  cases hall

theorem digitsValue_decimal (n : Nat) : digitsValue (decimal n) = some n := by
  obtain ⟨hne, hall, hval⟩ := decimal_spec n
  rw [digitsValue, if_pos ⟨hne, hall⟩, hval]

theorem btoi_decimal {n : Nat} (h : n < 2 ^ 63) : btoi (decimal n) = some n := by
  obtain ⟨hne, hall, -⟩ := decimal_spec n
  obtain ⟨b, rest, hbr⟩ := List.exists_cons_of_ne_nil hne
  -- the first byte is a digit, not a sign
  have hb : isDigit b = true := List.all_eq_true.mp hall b (by rw [hbr]; exact List.mem_cons_self)
  have hminus : b ≠ byte '-' := by rintro rfl; cases hb
  have hplus : b ≠ byte '+' := by rintro rfl; cases hb
  unfold btoi
  rw [hbr]
  simp only [if_neg hminus, if_neg hplus]
  rw [← hbr, digitsValue_decimal, Option.bind_some, if_pos h]
  rfl

theorem btoi_minus_one : btoi [byte '-', byte '1'] = some (-1) := by decide

/-! ## Lines -/

theorem parseLine_line {line rest : List UInt8} (h : lf ∉ line) :
    parseLine (line ++ cr :: lf :: rest) = .ok (⟨0, line.length⟩, line.length + 2) := by
  have hnone : line.findIdx? (· == lf) = none :=
    List.findIdx?_eq_none_iff.mpr fun x hx => by
      rw [beq_eq_false_iff_ne]
      rintro rfl
      exact h hx
  have hfind : (line ++ cr :: lf :: rest).findIdx? (· == lf) = some (line.length + 1) := by
    rw [List.findIdx?_append, hnone, List.findIdx?_cons, List.findIdx?_cons]
    simp only [Option.none_or]
    have hcr : (cr == lf) = false := by decide
    simp only [hcr, beq_self_eq_true, if_true, Bool.false_eq_true, if_false, Option.map_some]
    rw [Nat.add_comm]
  unfold parseLine
  rw [hfind]
  simp only [Nat.add_one_ne_zero, if_false]
  rfl

theorem parseLine_of_not_mem {buf : List UInt8} (h : lf ∉ buf) :
    parseLine buf = .error .notEnoughData := by
  have hnone : buf.findIdx? (· == lf) = none :=
    List.findIdx?_eq_none_iff.mpr fun x hx => by
      rw [beq_eq_false_iff_ne]
      rintro rfl
      exact h hx
  unfold parseLine
  rw [hnone]

theorem parseLen_line {line rest : List UInt8} (h : lf ∉ line) {len : Int}
    (hlen : btoi line = some len) : parseLen (line ++ cr :: lf :: rest) = .ok (len, line.length + 2) := by
  have hslice : sliceGet (line ++ cr :: lf :: rest) 0 line.length = some line := by
    rw [sliceGet, if_pos ⟨Nat.zero_le _, by simp⟩, List.take_left, List.drop_zero]
  simp only [parseLen, parseLine_line h, bind, Except.bind, hslice, hlen]

theorem parseLen_of_not_mem {buf : List UInt8} (h : lf ∉ buf) :
    parseLen buf = .error .notEnoughData := by
  simp only [parseLen, parseLine_of_not_mem h, bind, Except.bind]

theorem parseLen_decimal {n : Nat} (h : n < 2 ^ 63) (rest : List UInt8) :
    parseLen (decimal n ++ cr :: lf :: rest) = .ok (n, (decimal n).length + 2) :=
  parseLen_line (lf_not_mem_decimal n) (btoi_decimal h)

theorem parseLen_minus_one (rest : List UInt8) :
    parseLen ([byte '-', byte '1'] ++ cr :: lf :: rest) = .ok (-1, 4) :=
  parseLen_line (by decide) btoi_minus_one

/-! ## One step of the parser, by prefix byte -/

section Steps

variable (fuel : Nat) (buf : List UInt8)

theorem parseRespFuel_dollar :
    parseRespFuel (fuel + 1) (byte '$' :: buf) =
      some ((parseBulkStr buf).map fun p => (.bulk (p.1.advance 1), 1 + p.2)) := rfl

theorem parseRespFuel_plus :
    parseRespFuel (fuel + 1) (byte '+' :: buf) =
      some ((parseLine buf).map fun p => (.simple (p.1.advance 1), 1 + p.2)) := rfl

theorem parseRespFuel_colon :
    parseRespFuel (fuel + 1) (byte ':' :: buf) =
      some ((parseLine buf).map fun p => (.integer (p.1.advance 1), 1 + p.2)) := rfl

theorem parseRespFuel_minus :
    parseRespFuel (fuel + 1) (byte '-' :: buf) =
      some ((parseLine buf).map fun p => (.error (p.1.advance 1), 1 + p.2)) := rfl

theorem parseRespFuel_star :
    parseRespFuel (fuel + 1) (byte '*' :: buf) =
      (parseArray (parseRespFuel fuel) buf).map (Except.map fun p => (p.1.advance 1, 1 + p.2)) := rfl

/-- Only an array reads the budget. -/
theorem parseRespFuel_of_ne_star {pfx : UInt8} (h : pfx ≠ byte '*') :
    parseRespFuel (fuel + 1) (pfx :: buf) = parseRespFuel 1 (pfx :: buf) := by
  simp only [parseRespFuel, h, if_false]

end Steps

/-! ## The budget -/

section Fuel

variable {parse parse' : List UInt8 → Option (Except ParseError (RespIndex × Nat))}
  {buf : List UInt8}

theorem parseElems_mono (h : ∀ b r, parse b = some r → parse' b = some r) :
    ∀ n consumed array r, parseElems parse buf n consumed array = some r →
      parseElems parse' buf n consumed array = some r
  | 0, _, _, _, hr => hr
  | n + 1, consumed, array, r, hr => by
      unfold parseElems at hr ⊢
      split at hr
      · next hle =>
          rw [if_pos hle]
          cases hp : parse (buf.drop consumed) with
          | none =>
              rw [hp] at hr
              cases hr
          | some res =>
              rw [hp] at hr
              rw [h _ _ hp]
              cases res with
              | error e => exact hr
              | ok p => exact parseElems_mono h n _ _ r hr
      · next hle =>
          rw [if_neg hle]
          exact hr

theorem parseArray_mono (h : ∀ b r, parse b = some r → parse' b = some r) {r}
    (hr : parseArray parse buf = some r) : parseArray parse' buf = some r := by
  unfold parseArray at hr ⊢
  cases hl : parseLen buf with
  | error e =>
      rw [hl] at hr
      exact hr
  | ok p =>
      obtain ⟨len, consumed⟩ := p
      rw [hl] at hr
      dsimp only at hr ⊢
      by_cases hneg : len < 0
      · rw [if_pos hneg] at hr ⊢
        exact hr
      · rw [if_neg hneg] at hr ⊢
        cases he : parseElems parse buf len.toNat consumed [] with
        | none =>
            rw [he] at hr
            cases hr
        | some res =>
            rw [he] at hr
            rw [parseElems_mono h _ _ _ _ he]
            exact hr

/-- A budget that answered answers the same when raised. -/
theorem parseRespFuel_mono :
    ∀ {n m : Nat} {buf : List UInt8} {r}, n ≤ m → parseRespFuel n buf = some r →
      parseRespFuel m buf = some r
  | 0, _, _, _, _, hr => by cases hr
  | n + 1, m + 1, [], _, _, hr => hr
  | n + 1, m + 1, pfx :: next, r, hle, hr => by
      by_cases hstar : pfx = byte '*'
      · subst hstar
        rw [parseRespFuel_star] at hr ⊢
        obtain ⟨a, ha, rfl⟩ := Option.map_eq_some_iff.mp hr
        rw [parseArray_mono (fun b r hb => parseRespFuel_mono (by omega) hb) ha]
        rfl
      · rw [parseRespFuel_of_ne_star _ _ hstar] at hr ⊢
        exact hr
  | _ + 1, 0, _, _, hle, _ => absurd hle (by omega)

theorem parseElems_isSome (h : ∀ c, (parse (buf.drop c)).isSome) :
    ∀ n consumed array, (parseElems parse buf n consumed array).isSome
  | 0, _, _ => rfl
  | n + 1, consumed, array => by
      unfold parseElems
      split
      · obtain ⟨res, hres⟩ := Option.isSome_iff_exists.mp (h consumed)
        rw [hres]
        cases res with
        | error e => rfl
        | ok p => exact parseElems_isSome h n _ _
      · rfl

/-- One level more than the buffer has bytes never runs out: each level
takes its prefix byte. -/
theorem parseRespFuel_isSome : ∀ {n : Nat} {buf : List UInt8}, buf.length < n →
    (parseRespFuel n buf).isSome
  | 0, _, h => absurd h (Nat.not_lt_zero _)
  | n + 1, [], _ => rfl
  | n + 1, pfx :: next, h => by
      by_cases hstar : pfx = byte '*'
      · subst hstar
        have hshort : ∀ c, (parseRespFuel n (next.drop c)).isSome := fun c =>
          parseRespFuel_isSome (by
            rw [List.length_drop]
            simp only [List.length_cons] at h
            omega)
        rw [parseRespFuel_star, Option.isSome_map]
        unfold parseArray
        cases hl : parseLen next with
        | error e => rfl
        | ok p =>
            obtain ⟨len, consumed⟩ := p
            dsimp only
            by_cases hneg : len < 0
            · rw [if_pos hneg]
              rfl
            · rw [if_neg hneg]
              obtain ⟨res, hres⟩ := Option.isSome_iff_exists.mp
                (parseElems_isSome hshort len.toNat consumed [])
              rw [hres]
              cases res <;> rfl
      · rw [parseRespFuel_of_ne_star _ _ hstar]
        unfold parseRespFuel
        split_ifs <;> rfl

theorem parseResp_isSome (buf : List UInt8) : (parseResp buf).isSome :=
  parseRespFuel_isSome (Nat.lt_succ_self _)

/-- Any budget above the length of the buffer is `parse_resp`. -/
theorem parseRespFuel_eq_parseResp {n : Nat} {buf : List UInt8} (h : buf.length < n) :
    parseRespFuel n buf = parseResp buf := by
  obtain ⟨r, hr⟩ := Option.isSome_iff_exists.mp (parseResp_isSome buf)
  rw [hr]
  rcases Nat.le_total n (buf.length + 1) with hle | hle
  · obtain ⟨r', hr'⟩ := Option.isSome_iff_exists.mp (parseRespFuel_isSome h)
    rw [hr', ← hr, parseResp, ← parseRespFuel_mono hle hr']
  · exact parseRespFuel_mono hle hr

end Fuel

/-! ## What the encoder promises -/

namespace Resp

/-- The values a proxy can send: the payload of a simple string, an error
or an integer holds no LF, and every length is below `2^63`, as the length
of a `Vec` always is. -/
inductive Sendable : Resp (List UInt8) → Prop where
  | error {s : List UInt8} : lf ∉ s → Sendable (.error s)
  | simple {s : List UInt8} : lf ∉ s → Sendable (.simple s)
  | integer {s : List UInt8} : lf ∉ s → Sendable (.integer s)
  | bulkStr {s : List UInt8} : s.length < 2 ^ 63 → Sendable (.bulk (.str s))
  | bulkNil : Sendable (.bulk .nil)
  | arr {elems : List (Resp (List UInt8))} : elems.length < 2 ^ 63 → (∀ e ∈ elems, Sendable e) →
      Sendable (.arr elems)
  | nilArr : Sendable .nilArr

mutual

/-- Where each payload of `v` lies in its encoding. -/
def indexOf : Resp (List UInt8) → RespIndex
  | .error s => .error ⟨1, 1 + s.length⟩
  | .simple s => .simple ⟨1, 1 + s.length⟩
  | .integer s => .integer ⟨1, 1 + s.length⟩
  | .bulk (.str s) =>
      .bulk (.str ⟨(decimal s.length).length + 3, (decimal s.length).length + 3 + s.length⟩)
  | .bulk .nil => .bulk .nil
  | .arr elems => .arr (indexElems elems ((decimal elems.length).length + 3))
  | .nilArr => .nilArr

/-- Where the elements of an array lie, the first one at `offset`. -/
def indexElems : List (Resp (List UInt8)) → Nat → List RespIndex
  | [], _ => []
  | r :: rs, offset => (indexOf r).advance offset :: indexElems rs (offset + (encodeResp r).length)

end

/-- The length of an array. -/
def arrayLen {α : Type} : Resp α → Option Nat
  | .arr elems => some elems.length
  | _ => none

/-- The element `index` of an array, if it is a bulk string. -/
def bulkElement : Resp (List UInt8) → Nat → Option (List UInt8)
  | .arr elems, index =>
      match elems[index]? with
      | some (.bulk (.str s)) => some s
      | _ => none
  | _, _ => none

variable {α β γ : Type}

mutual

theorem map_map (f : α → β) (g : β → γ) : ∀ r : Resp α, (r.map f).map g = r.map (g ∘ f)
  | .error _ => rfl
  | .simple _ => rfl
  | .bulk (.str _) => rfl
  | .bulk .nil => rfl
  | .integer _ => rfl
  | .arr elems => by simp only [map, mapList_mapList f g elems]
  | .nilArr => rfl

theorem mapList_mapList (f : α → β) (g : β → γ) :
    ∀ l : List (Resp α), mapList g (mapList f l) = mapList (g ∘ f) l
  | [] => rfl
  | r :: rs => by simp only [mapList, map_map f g r, mapList_mapList f g rs]

end

mutual

theorem map_id : ∀ r : Resp α, r.map (fun x => x) = r
  | .error _ => rfl
  | .simple _ => rfl
  | .bulk (.str _) => rfl
  | .bulk .nil => rfl
  | .integer _ => rfl
  | .arr elems => by simp only [map, mapList_id elems]
  | .nilArr => rfl

theorem mapList_id : ∀ l : List (Resp α), mapList (fun x => x) l = l
  | [] => rfl
  | r :: rs => by simp only [mapList, map_id r, mapList_id rs]

end

mutual

theorem traverse_map (g : α → β) (f : β → Option γ) :
    ∀ r : Resp α, (r.map g).traverse f = r.traverse (f ∘ g)
  | .error _ => rfl
  | .simple _ => rfl
  | .bulk (.str _) => rfl
  | .bulk .nil => rfl
  | .integer _ => rfl
  | .arr elems => by simp only [map, traverse, traverseList_mapList g f elems]
  | .nilArr => rfl

theorem traverseList_mapList (g : α → β) (f : β → Option γ) :
    ∀ l : List (Resp α), traverseList f (mapList g l) = traverseList (f ∘ g) l
  | [] => rfl
  | r :: rs => by simp only [mapList, traverseList, traverse_map g f r, traverseList_mapList g f rs]

end

/-- A resolution that succeeds succeeds on every element, in place. -/
theorem getElem?_of_traverseList {f : α → Option β} :
    ∀ {l : List (Resp α)} {l' : List (Resp β)}, traverseList f l = some l' →
      l'.length = l.length ∧ ∀ (i : Nat) r, l[i]? = some r → ∃ r', traverse f r = some r' ∧ l'[i]? = some r'
  | [], l', h => by
      cases h
      exact ⟨rfl, fun i r hr => by cases hr⟩
  | r :: rs, l', h => by
      unfold traverseList at h
      split at h
      · next r' rs' hr hrs =>
          cases h
          obtain ⟨hlen, hel⟩ := getElem?_of_traverseList hrs
          refine ⟨by simp [hlen], fun i q hq => ?_⟩
          cases i with
          | zero =>
              cases hq
              exact ⟨r', hr, rfl⟩
          | succ i => exact hel i q hq
      · cases h

end Resp

theorem DataIndex.advance_advance (d : DataIndex) (a b : Nat) :
    (d.advance a).advance b = d.advance (a + b) := by
  simp only [DataIndex.advance, Nat.add_assoc]

theorem RespIndex.advance_zero (r : RespIndex) : r.advance 0 = r := by
  have h : (fun d : DataIndex => d.advance 0) = fun d => d := by
    funext d
    rfl
  unfold RespIndex.advance
  rw [h, Resp.map_id]

theorem RespIndex.advance_advance (r : RespIndex) (a b : Nat) :
    (r.advance a).advance b = r.advance (a + b) := by
  unfold RespIndex.advance
  rw [Resp.map_map]
  congr 1
  funext d
  exact DataIndex.advance_advance d a b

theorem indexElems_advance (k : Nat) : ∀ (es : List (Resp (List UInt8))) (offset : Nat),
    Resp.mapList (fun d => d.advance k) (Resp.indexElems es offset) = Resp.indexElems es (offset + k)
  | [], _ => rfl
  | e :: es, offset => by
      simp only [Resp.indexElems, Resp.mapList]
      have he : Resp.map (fun d => d.advance k) (e.indexOf.advance offset) =
          e.indexOf.advance (offset + k) := RespIndex.advance_advance _ _ _
      rw [he, indexElems_advance k es, Nat.add_right_comm]

theorem encodeSimpleElement_length (c : Char) (s : List UInt8) :
    (encodeSimpleElement c s).length = s.length + 3 := by
  simp [encodeSimpleElement]

theorem encodeResp_length (v : Resp (List UInt8)) : 3 ≤ (encodeResp v).length := by
  cases v with
  | bulk b =>
      cases b with
      | str s =>
          simp only [encodeResp, List.length_append, encodeSimpleElement_length]
          omega
      | nil => simp [encodeResp]
  | arr elems =>
      simp only [encodeResp, List.length_append, encodeSimpleElement_length]
      omega
  | nilArr => simp [encodeResp]
  | _ =>
      simp only [encodeResp, encodeSimpleElement_length]
      omega

theorem encodeElems_cons (e : Resp (List UInt8)) (es : List (Resp (List UInt8))) :
    encodeElems (e :: es) = encodeResp e ++ encodeElems es := by
  rw [encodeElems]

theorem length_le_encodeElems {e : Resp (List UInt8)} :
    ∀ {es : List (Resp (List UInt8))}, e ∈ es → (encodeResp e).length ≤ (encodeElems es).length
  | [], h => absurd h List.not_mem_nil
  | e' :: es, h => by
      rw [encodeElems_cons, List.length_append]
      rcases List.mem_cons.mp h with rfl | h
      · omega
      · have := length_le_encodeElems h
        omega

theorem encodeResp_arr (es : List (Resp (List UInt8))) (rest : List UInt8) :
    encodeResp (.arr es) ++ rest = byte '*' :: (decimal es.length ++ cr :: lf :: (encodeElems es ++ rest)) := by
  simp [encodeResp, encodeSimpleElement]

theorem encodeResp_bulk (s rest : List UInt8) :
    encodeResp (.bulk (.str s)) ++ rest =
      byte '$' :: (decimal s.length ++ cr :: lf :: (s ++ cr :: lf :: rest)) := by
  simp [encodeResp, encodeSimpleElement]

/-! ## Reading back what was written -/

section Encode

variable {fuel : Nat}

theorem parseRespFuel_line_encode {c : Char} {mk : DataIndex → RespIndex}
    (heq : ∀ buf, parseRespFuel (fuel + 1) (byte c :: buf) =
      some ((parseLine buf).map fun p => (mk (p.1.advance 1), 1 + p.2)))
    {s : List UInt8} (h : lf ∉ s) (rest : List UInt8) :
    parseRespFuel (fuel + 1) (encodeSimpleElement c s ++ rest) =
      some (.ok (mk ⟨1, 1 + s.length⟩, (encodeSimpleElement c s).length)) := by
  have hbuf : encodeSimpleElement c s ++ rest = byte c :: (s ++ cr :: lf :: rest) := by
    simp [encodeSimpleElement]
  have hidx : DataIndex.advance ⟨0, s.length⟩ 1 = ⟨1, 1 + s.length⟩ := by
    simp only [DataIndex.advance, Nat.zero_add, Nat.add_comm s.length 1]
  rw [hbuf, heq, parseLine_line h, encodeSimpleElement_length]
  simp only [Except.map, hidx, Option.some.injEq, Except.ok.injEq, Prod.mk.injEq, true_and]
  omega

theorem parseBulkStr_encode {s : List UInt8} (h : s.length < 2 ^ 63) (rest : List UInt8) :
    parseBulkStr (decimal s.length ++ cr :: lf :: (s ++ cr :: lf :: rest)) =
      .ok (.str ⟨(decimal s.length).length + 2, (decimal s.length).length + 2 + s.length⟩,
        (decimal s.length).length + 2 + s.length + 2) := by
  have hnot : ¬ (decimal s.length ++ cr :: lf :: (s ++ cr :: lf :: rest)).length <
      (decimal s.length).length + 2 + s.length + 2 := by
    simp only [List.length_append, List.length_cons]
    omega
  have hnn : ¬ ((s.length : Int) < 0) := by omega
  unfold parseBulkStr
  rw [parseLen_decimal h]
  simp only [bind, Except.bind, hnn, if_false, Int.toNat_natCast, hnot]

theorem parseElems_encode {parse : List UInt8 → Option (Except ParseError (RespIndex × Nat))}
    {buf rest : List UInt8} :
    ∀ {es : List (Resp (List UInt8))},
      (∀ e ∈ es, ∀ rest, parse (encodeResp e ++ rest) = some (.ok (e.indexOf, (encodeResp e).length))) →
      ∀ {consumed : Nat} {array : List RespIndex}, buf.drop consumed = encodeElems es ++ rest →
        consumed ≤ buf.length →
        parseElems parse buf es.length consumed array =
          some (.ok (array ++ Resp.indexElems es consumed, consumed + (encodeElems es).length))
  | [], _, consumed, array, _, _ => by simp [parseElems, Resp.indexElems, encodeElems]
  | e :: es, hparse, consumed, array, hdrop, hle => by
      have hstep := hparse e List.mem_cons_self (encodeElems es ++ rest)
      have hdrop' : buf.drop consumed = encodeResp e ++ (encodeElems es ++ rest) := by
        rw [hdrop, encodeElems_cons, List.append_assoc]
      have hlen := congrArg List.length hdrop'
      rw [List.length_drop, List.length_append] at hlen
      have hnext : buf.drop (consumed + (encodeResp e).length) = encodeElems es ++ rest := by
        rw [← List.drop_drop, hdrop', List.drop_left]
      rw [List.length_cons, parseElems, if_pos hle, hdrop', hstep]
      dsimp only
      rw [parseElems_encode (fun e he => hparse e (List.mem_cons_of_mem _ he)) hnext (by omega)]
      simp only [Resp.indexElems, List.append_assoc, List.singleton_append, encodeElems_cons,
        List.length_append, Nat.add_assoc]

theorem parseArray_encode {parse : List UInt8 → Option (Except ParseError (RespIndex × Nat))}
    {es : List (Resp (List UInt8))} (hlen : es.length < 2 ^ 63)
    (hparse : ∀ e ∈ es, ∀ rest, parse (encodeResp e ++ rest) = some (.ok (e.indexOf, (encodeResp e).length)))
    (rest : List UInt8) :
    parseArray parse (decimal es.length ++ cr :: lf :: (encodeElems es ++ rest)) =
      some (.ok (.arr (Resp.indexElems es ((decimal es.length).length + 2)),
        (decimal es.length).length + 2 + (encodeElems es).length)) := by
  have hdrop : (decimal es.length ++ cr :: lf :: (encodeElems es ++ rest)).drop
      ((decimal es.length).length + 2) = encodeElems es ++ rest := by
    rw [show (decimal es.length).length + 2 = (decimal es.length ++ [cr, lf]).length by simp,
      show decimal es.length ++ cr :: lf :: (encodeElems es ++ rest) =
        (decimal es.length ++ [cr, lf]) ++ (encodeElems es ++ rest) by simp, List.drop_left]
  have hle : (decimal es.length).length + 2 ≤
      (decimal es.length ++ cr :: lf :: (encodeElems es ++ rest)).length := by
    simp only [List.length_append, List.length_cons]
    omega
  unfold parseArray
  rw [parseLen_decimal hlen]
  dsimp only
  rw [if_neg (by omega), Int.toNat_natCast, parseElems_encode hparse hdrop hle]
  rfl

/-- Off the front of any buffer that starts with the encoding of a value,
the parser takes exactly the encoding, at every budget it fits in. -/
theorem parseRespFuel_encode : ∀ (fuel : Nat) {v : Resp (List UInt8)}, v.Sendable →
    (encodeResp v).length ≤ fuel → ∀ rest,
      parseRespFuel fuel (encodeResp v ++ rest) = some (.ok (v.indexOf, (encodeResp v).length))
  | 0, v, _, hlen, _ => absurd hlen (by have := encodeResp_length v; omega)
  | fuel + 1, _, hv, hlen, rest => by
      cases hv with
      | error h => exact parseRespFuel_line_encode (parseRespFuel_minus fuel) h rest
      | simple h => exact parseRespFuel_line_encode (parseRespFuel_plus fuel) h rest
      | integer h => exact parseRespFuel_line_encode (parseRespFuel_colon fuel) h rest
      | @bulkStr s h =>
          have hsize := congrArg List.length (encodeResp_bulk s [])
          simp only [List.append_nil, List.length_cons, List.length_append, List.length_nil] at hsize
          rw [encodeResp_bulk, parseRespFuel_dollar, parseBulkStr_encode h, hsize]
          simp only [Except.map, BulkStr.advance, BulkStr.map, DataIndex.advance, Resp.indexOf,
            Option.some.injEq, Except.ok.injEq, Prod.mk.injEq, Resp.bulk.injEq, BulkStr.str.injEq,
            DataIndex.mk.injEq, true_and]
          omega
      | bulkNil =>
          show parseRespFuel (fuel + 1) (byte '$' :: ([byte '-', byte '1'] ++ cr :: lf :: rest)) = _
          rw [parseRespFuel_dollar]
          simp only [parseBulkStr, parseLen_minus_one, bind, Except.bind]
          rfl
      | @arr es hlen' hes =>
          -- each element fits in the budget one level down
          have hparse : ∀ e ∈ es, ∀ rest, parseRespFuel fuel (encodeResp e ++ rest) =
              some (.ok (e.indexOf, (encodeResp e).length)) := fun e he rest' => by
            have hle := length_le_encodeElems he
            have harr := congrArg List.length (encodeResp_arr es [])
            simp only [List.append_nil, List.length_cons, List.length_append] at harr
            exact parseRespFuel_encode fuel (hes e he) (by omega) rest'
          rw [encodeResp_arr, parseRespFuel_star, parseArray_encode hlen' hparse]
          simp only [Option.map_some, Except.map, RespIndex.advance, Resp.map, indexElems_advance,
            Resp.indexOf]
          have harr := congrArg List.length (encodeResp_arr es [])
          simp only [List.append_nil, List.length_cons, List.length_append] at harr
          rw [harr]
          congr 3
          omega
      | nilArr =>
          show parseRespFuel (fuel + 1) (byte '*' :: ([byte '-', byte '1'] ++ cr :: lf :: rest)) = _
          rw [parseRespFuel_star]
          simp only [parseArray, parseLen_minus_one]
          rfl

end Encode

/-! ## A partial frame waits for more data -/

/-- A prefix of `a ++ b` stops inside `a`, or takes all of it and runs on
into `b`. -/
theorem List.prefix_append_cases {α : Type} {q a b : List α} (h : q <+: a ++ b) :
    (q <+: a ∧ q.length < a.length) ∨ ∃ t, q = a ++ t ∧ t <+: b := by
  by_cases hlt : q.length < a.length
  · exact .inl ⟨List.prefix_of_prefix_length_le h (List.prefix_append a b) (Nat.le_of_lt hlt), hlt⟩
  · obtain ⟨w, rfl⟩ : a <+: q :=
      List.prefix_of_prefix_length_le (List.prefix_append a b) h (by omega)
    exact .inr ⟨w, rfl, (List.prefix_append_right_inj a).mp h⟩

/-- A line cut short has no LF. -/
theorem lf_not_mem_of_isPrefix {q s : List UInt8} (h : lf ∉ s) (hq : q <+: s ++ [cr, lf])
    (hlt : q.length < s.length + 2) : lf ∉ q := by
  have hq' : q <+: (s ++ [cr]) ++ [lf] := by simpa using hq
  rcases List.prefix_concat_iff.mp hq' with rfl | hpre
  · simp at hlt
  · intro hmem
    rcases List.mem_append.mp (hpre.subset hmem) with hs | hcr
    · exact h hs
    · exact absurd (List.mem_singleton.mp hcr) (by decide)

section Partial

variable {fuel : Nat}

theorem parseRespFuel_line_of_isPrefix {c : Char} {mk : DataIndex → RespIndex}
    (heq : ∀ buf, parseRespFuel (fuel + 1) (byte c :: buf) =
      some ((parseLine buf).map fun p => (mk (p.1.advance 1), 1 + p.2)))
    {s q : List UInt8} (h : lf ∉ s) (hq : q <+: s ++ [cr, lf]) (hlt : q.length < s.length + 2) :
    parseRespFuel (fuel + 1) (byte c :: q) = some (.error .notEnoughData) := by
  rw [heq, parseLine_of_not_mem (lf_not_mem_of_isPrefix h hq hlt)]
  rfl

/-- A header line cut short, before the length it declares is read. -/
theorem parseLen_of_header_isPrefix {q : List UInt8} (n : Nat) (hq : q <+: decimal n ++ [cr, lf])
    (hlt : q.length < (decimal n).length + 2) : parseLen q = .error .notEnoughData :=
  parseLen_of_not_mem (lf_not_mem_of_isPrefix (lf_not_mem_decimal n) hq hlt)

theorem parseElems_of_cut
    {parse : List UInt8 → Option (Except ParseError (RespIndex × Nat))} {buf : List UInt8}
    {bound : Nat} :
    ∀ {es : List (Resp (List UInt8))},
      (∀ e ∈ es, (encodeResp e).length < bound → ∀ rest,
        parse (encodeResp e ++ rest) = some (.ok (e.indexOf, (encodeResp e).length))) →
      (∀ e ∈ es, ∀ q, q <+: encodeResp e → q.length < (encodeResp e).length → q.length < bound →
        parse q = some (.error .notEnoughData)) →
      ∀ {consumed : Nat} {array : List RespIndex}, buf.drop consumed <+: encodeElems es →
        (buf.drop consumed).length < (encodeElems es).length → (buf.drop consumed).length < bound →
        consumed ≤ buf.length →
        parseElems parse buf es.length consumed array = some (.error .notEnoughData)
  | [], _, _, _, _, _, hlt, _, _ => absurd hlt (by simp [encodeElems])
  | e :: es, hparse, hcut, consumed, array, hpre, hlt, hbound, hle => by
      rw [List.length_cons, parseElems, if_pos hle]
      rw [encodeElems_cons] at hpre hlt
      rcases List.prefix_append_cases hpre with ⟨hin, hshort⟩ | ⟨t, ht, htpre⟩
      · -- the buffer stops inside this element
        rw [hcut e List.mem_cons_self _ hin hshort hbound]
      · -- this element is whole, and the rest is cut short
        have hlen := congrArg List.length ht
        rw [List.length_drop, List.length_append] at hlen
        rw [ht] at hlt hbound
        simp only [List.length_append] at hlt hbound
        rw [ht, hparse e List.mem_cons_self (by omega) t]
        dsimp only
        have hnext : buf.drop (consumed + (encodeResp e).length) = t := by
          rw [← List.drop_drop, ht, List.drop_left]
        exact parseElems_of_cut (fun e he => hparse e (List.mem_cons_of_mem _ he))
          (fun e he => hcut e (List.mem_cons_of_mem _ he)) (by rw [hnext]; exact htpre)
          (by rw [hnext]; omega) (by rw [hnext]; omega) (by omega)

/-- A buffer that holds only part of an encoding makes the parser ask for
more, at every budget above its length. -/
theorem parseRespFuel_of_cut : ∀ (fuel : Nat) {v : Resp (List UInt8)}, v.Sendable →
    ∀ {p : List UInt8}, p <+: encodeResp v → p.length < (encodeResp v).length → p.length < fuel →
      parseRespFuel fuel p = some (.error .notEnoughData)
  | 0, _, _, _, _, _, hfuel => absurd hfuel (Nat.not_lt_zero _)
  | _ + 1, _, _, [], _, _, _ => rfl
  | fuel + 1, _, hv, b :: q, hpre, hlt, hfuel => by
      cases hv with
      | error h =>
          obtain ⟨rfl, hq⟩ := List.cons_prefix_cons.mp hpre
          simp only [List.length_cons, encodeResp, encodeSimpleElement_length] at hlt
          exact parseRespFuel_line_of_isPrefix (parseRespFuel_minus fuel) h hq (by omega)
      | simple h =>
          obtain ⟨rfl, hq⟩ := List.cons_prefix_cons.mp hpre
          simp only [List.length_cons, encodeResp, encodeSimpleElement_length] at hlt
          exact parseRespFuel_line_of_isPrefix (parseRespFuel_plus fuel) h hq (by omega)
      | integer h =>
          obtain ⟨rfl, hq⟩ := List.cons_prefix_cons.mp hpre
          simp only [List.length_cons, encodeResp, encodeSimpleElement_length] at hlt
          exact parseRespFuel_line_of_isPrefix (parseRespFuel_colon fuel) h hq (by omega)
      | @bulkStr s h =>
          rw [← List.append_nil (encodeResp _), encodeResp_bulk] at hpre hlt
          obtain ⟨rfl, hq⟩ := List.cons_prefix_cons.mp hpre
          have hsplit : decimal s.length ++ cr :: lf :: (s ++ cr :: lf :: []) =
              (decimal s.length ++ [cr, lf]) ++ (s ++ [cr, lf]) := by simp
          rw [hsplit] at hq hlt
          rw [parseRespFuel_dollar]
          rcases List.prefix_append_cases hq with ⟨hhead, hshort⟩ | ⟨t, rfl, ht⟩
          · -- cut inside the length line
            simp only [List.length_append, List.length_cons, List.length_nil] at hshort
            simp only [parseBulkStr, parseLen_of_header_isPrefix s.length hhead (by omega), bind,
              Except.bind]
            rfl
          · -- the length is read, and the content or its CRLF is short
            simp only [List.length_cons, List.length_append, List.length_nil] at hlt
            have hnn : ¬ ((s.length : Int) < 0) := by omega
            have hshort : (decimal s.length ++ cr :: lf :: t).length <
                (decimal s.length).length + 2 + s.length + 2 := by
              simp only [List.length_append, List.length_cons]
              omega
            rw [show (decimal s.length ++ [cr, lf]) ++ t = decimal s.length ++ cr :: lf :: t by simp]
            simp only [parseBulkStr, parseLen_decimal h, bind, Except.bind, hnn, if_false,
              Int.toNat_natCast, hshort, if_true]
            rfl
      | bulkNil =>
          obtain ⟨rfl, hq⟩ := List.cons_prefix_cons.mp hpre
          simp only [List.length_cons] at hlt
          have hq' : q <+: [byte '-', byte '1'] ++ [cr, lf] := hq
          rw [parseRespFuel_dollar]
          have hshort : q.length < [byte '-', byte '1'].length + 2 := by
            simp only [encodeResp, List.length_cons, List.length_nil] at hlt ⊢
            omega
          simp only [parseBulkStr, parseLen_of_not_mem (lf_not_mem_of_isPrefix (by decide) hq' hshort),
            bind, Except.bind]
          rfl
      | @arr es hlen' hes =>
          rw [← List.append_nil (encodeResp _), encodeResp_arr] at hpre hlt
          obtain ⟨rfl, hq⟩ := List.cons_prefix_cons.mp hpre
          have hsplit : decimal es.length ++ cr :: lf :: (encodeElems es ++ []) =
              (decimal es.length ++ [cr, lf]) ++ encodeElems es := by simp
          rw [hsplit] at hq hlt
          rw [parseRespFuel_star]
          rcases List.prefix_append_cases hq with ⟨hhead, hshort⟩ | ⟨t, rfl, ht⟩
          · -- cut inside the length line
            simp only [List.length_append, List.length_cons, List.length_nil] at hshort
            simp only [parseArray, parseLen_of_header_isPrefix es.length hhead (by omega)]
            rfl
          · -- the length is read, and some element is short
            simp only [List.length_cons, List.length_append, List.length_nil] at hlt hfuel
            have hbuf : (decimal es.length ++ [cr, lf]) ++ t = decimal es.length ++ cr :: lf :: t := by
              simp
            have hdrop : (decimal es.length ++ cr :: lf :: t).drop ((decimal es.length).length + 2) = t := by
              rw [← hbuf, show (decimal es.length).length + 2 = (decimal es.length ++ [cr, lf]).length by
                simp, List.drop_left]
            have hle : (decimal es.length).length + 2 ≤ (decimal es.length ++ cr :: lf :: t).length := by
              simp only [List.length_append, List.length_cons]
              omega
            rw [hbuf]
            unfold parseArray
            rw [parseLen_decimal hlen']
            dsimp only
            rw [if_neg (by omega), Int.toNat_natCast,
              @parseElems_of_cut (parseRespFuel fuel) _ fuel es
                (fun e he hsize rest => parseRespFuel_encode fuel (hes e he) (by omega) rest)
                (fun e he q' hq' hlt' hb => parseRespFuel_of_cut fuel (hes e he) hq' hlt' hb)
                ((decimal es.length).length + 2) [] (by rw [hdrop]; exact ht) (by rw [hdrop]; omega) (by rw [hdrop]; omega) hle]
            rfl
      | nilArr =>
          obtain ⟨rfl, hq⟩ := List.cons_prefix_cons.mp hpre
          simp only [List.length_cons] at hlt
          have hq' : q <+: [byte '-', byte '1'] ++ [cr, lf] := hq
          rw [parseRespFuel_star]
          have hshort : q.length < [byte '-', byte '1'].length + 2 := by
            simp only [encodeResp, List.length_cons, List.length_nil] at hlt ⊢
            omega
          simp only [parseArray, parseLen_of_not_mem (lf_not_mem_of_isPrefix (by decide) hq' hshort)]
          rfl

end Partial

/-! ## The indices resolve to the value -/

theorem sliceGet_drop {buf : List UInt8} {k : Nat} (hk : k ≤ buf.length) (start stop : Nat) :
    sliceGet (buf.drop k) start stop = sliceGet buf (start + k) (stop + k) := by
  unfold sliceGet
  rw [List.length_drop]
  by_cases h : start ≤ stop ∧ stop ≤ buf.length - k
  · rw [if_pos h, if_pos ⟨by omega, by omega⟩, List.take_drop, List.drop_drop, Nat.add_comm k stop,
      Nat.add_comm k start]
  · rw [if_neg h, if_neg (by omega)]

/-- A payload read where its bytes lie. -/
theorem sliceGet_of_drop {buf s rest : List UInt8} {k : Nat} (h : buf.drop k = s ++ rest)
    (hk : k ≤ buf.length) : sliceGet buf k (k + s.length) = some s := by
  have h0 := sliceGet_drop hk 0 s.length
  rw [h, Nat.zero_add, Nat.add_comm s.length k] at h0
  rw [← h0, sliceGet, if_pos ⟨Nat.zero_le _, by simp⟩, List.take_left, List.drop_zero]

/-- The payload of a line sits one byte past where the line starts. -/
theorem sliceGet_line {buf s rest : List UInt8} {k : Nat} {c : Char}
    (h : buf.drop k = encodeSimpleElement c s ++ rest) (hk : k ≤ buf.length) :
    sliceGet buf (1 + k) (1 + s.length + k) = some s := by
  have hlen := congrArg List.length h
  rw [List.length_drop, List.length_append, encodeSimpleElement_length] at hlen
  have hdrop : buf.drop (k + 1) = s ++ (cr :: lf :: rest) := by
    rw [← List.drop_drop, h]
    simp [encodeSimpleElement]
  have := sliceGet_of_drop hdrop (by omega)
  rw [show 1 + k = k + 1 by omega, show 1 + s.length + k = k + 1 + s.length by omega]
  exact this

section Resolve

variable {buf : List UInt8}

theorem traverseList_indexElems {es : List (Resp (List UInt8))}
    (h : ∀ e ∈ es, ∀ {k : Nat} {rest : List UInt8}, buf.drop k = encodeResp e ++ rest →
      k ≤ buf.length → (e.indexOf.advance k).traverse (fun d => sliceGet buf d.start d.stop) = some e) :
    ∀ {k : Nat} {rest : List UInt8}, buf.drop k = encodeElems es ++ rest → k ≤ buf.length →
      Resp.traverseList (fun d => sliceGet buf d.start d.stop) (Resp.indexElems es k) = some es := by
  induction es with
  | nil => intros; rfl
  | cons e es ih =>
      intro k rest hdrop hk
      rw [encodeElems_cons, List.append_assoc] at hdrop
      have hlen := congrArg List.length hdrop
      rw [List.length_drop, List.length_append] at hlen
      have hnext : buf.drop (k + (encodeResp e).length) = encodeElems es ++ rest := by
        rw [← List.drop_drop, hdrop, List.drop_left]
      simp only [Resp.indexElems, Resp.traverseList, h e List.mem_cons_self hdrop hk,
        ih (fun e he => h e (List.mem_cons_of_mem _ he)) hnext (by omega)]

/-- Every index of the parsed value, read against a buffer holding the
encoding from `k` on, gives back the value. -/
theorem traverse_indexOf : ∀ (n : Nat) {v : Resp (List UInt8)}, (encodeResp v).length ≤ n →
    ∀ {k : Nat} {rest : List UInt8}, buf.drop k = encodeResp v ++ rest → k ≤ buf.length →
      (v.indexOf.advance k).traverse (fun d => sliceGet buf d.start d.stop) = some v
  | 0, v, hlen, _, _, _, _ => absurd hlen (by have := encodeResp_length v; omega)
  | n + 1, v, hlen, k, rest, hdrop, hk => by
      cases v with
      | error s =>
          show (sliceGet buf (1 + k) (1 + s.length + k)).map Resp.error = _
          rw [sliceGet_line hdrop hk]
          rfl
      | simple s =>
          show (sliceGet buf (1 + k) (1 + s.length + k)).map Resp.simple = _
          rw [sliceGet_line hdrop hk]
          rfl
      | integer s =>
          show (sliceGet buf (1 + k) (1 + s.length + k)).map Resp.integer = _
          rw [sliceGet_line hdrop hk]
          rfl
      | bulk b =>
          cases b with
          | str s =>
              rw [encodeResp_bulk] at hdrop
              have hlen' := congrArg List.length hdrop
              simp only [List.length_drop, List.length_cons, List.length_append] at hlen'
              have hpay : buf.drop (k + ((decimal s.length).length + 3)) = s ++ (cr :: lf :: rest) := by
                rw [← List.drop_drop, hdrop]
                simp
              have := sliceGet_of_drop hpay (by omega)
              show ((sliceGet buf ((decimal s.length).length + 3 + k)
                ((decimal s.length).length + 3 + s.length + k)).map BulkStr.str).map Resp.bulk = _
              rw [show (decimal s.length).length + 3 + k = k + ((decimal s.length).length + 3) by omega,
                show (decimal s.length).length + 3 + s.length + k =
                  k + ((decimal s.length).length + 3) + s.length by omega, this]
              rfl
          | nil => rfl
      | arr es =>
          have hhead := congrArg List.length (encodeResp_arr es [])
          simp only [List.append_nil, List.length_cons, List.length_append] at hhead
          rw [encodeResp_arr] at hdrop
          have hlen' := congrArg List.length hdrop
          simp only [List.length_drop, List.length_cons, List.length_append] at hlen'
          have helems : buf.drop (k + ((decimal es.length).length + 3)) = encodeElems es ++ rest := by
            rw [← List.drop_drop, hdrop]
            simp
          have hfit : ∀ e ∈ es, (encodeResp e).length ≤ n := fun e he => by
            have := length_le_encodeElems he
            omega
          show (Resp.traverseList _ (Resp.mapList (fun d => d.advance k)
            (Resp.indexElems es ((decimal es.length).length + 3)))).map Resp.arr = _
          rw [indexElems_advance, Nat.add_comm _ k,
            traverseList_indexElems (fun e he => traverse_indexOf n (hfit e he))
              helems (by omega)]
          rfl
      | nilArr => rfl

end Resolve

namespace IndexedResp

variable {r : IndexedResp} {v : Resp (List UInt8)}

theorem getArrayLen_of_toRespVec (h : r.toRespVec = some v) : r.getArrayLen = v.arrayLen := by
  unfold toRespVec at h
  unfold getArrayLen
  cases hr : r.resp with
  | arr idxs =>
      rw [hr] at h
      obtain ⟨es, hes, rfl⟩ := Option.map_eq_some_iff.mp h
      rw [Resp.arrayLen, (Resp.getElem?_of_traverseList hes).1]
  | error _ =>
      rw [hr] at h
      obtain ⟨_, _, rfl⟩ := Option.map_eq_some_iff.mp h
      rfl
  | simple _ =>
      rw [hr] at h
      obtain ⟨_, _, rfl⟩ := Option.map_eq_some_iff.mp h
      rfl
  | integer _ =>
      rw [hr] at h
      obtain ⟨_, _, rfl⟩ := Option.map_eq_some_iff.mp h
      rfl
  | bulk _ =>
      rw [hr] at h
      obtain ⟨_, _, rfl⟩ := Option.map_eq_some_iff.mp h
      rfl
  | nilArr =>
      rw [hr] at h
      cases h
      rfl

/-- An element resolved: a bulk string to its bytes, anything else to
nothing. -/
theorem getArrayElement_of_traverse {f : DataIndex → Option (List UInt8)} {q : RespIndex}
    {e : Resp (List UInt8)} : q.traverse f = some e →
    (match some q with
      | some (.bulk (.str s)) => (f s).map some
      | _ => some none) =
    some (match some e with
      | some (.bulk (.str s)) => some s
      | _ => none) := by
  intro h
  cases q with
  | bulk b =>
      cases b with
      | str d =>
          simp only [Resp.traverse, BulkStr.traverse, Option.map_map] at h
          obtain ⟨s, hs, rfl⟩ := Option.map_eq_some_iff.mp h
          show (f d).map some = _
          rw [hs]
          rfl
      | nil =>
          cases h
          rfl
  | error _ =>
      obtain ⟨_, _, rfl⟩ := Option.map_eq_some_iff.mp h
      rfl
  | simple _ =>
      obtain ⟨_, _, rfl⟩ := Option.map_eq_some_iff.mp h
      rfl
  | integer _ =>
      obtain ⟨_, _, rfl⟩ := Option.map_eq_some_iff.mp h
      rfl
  | arr _ =>
      obtain ⟨_, _, rfl⟩ := Option.map_eq_some_iff.mp h
      rfl
  | nilArr =>
      cases h
      rfl

theorem getArrayElement_of_toRespVec (h : r.toRespVec = some v) (index : Nat) :
    r.getArrayElement index = some (v.bulkElement index) := by
  unfold toRespVec at h
  unfold getArrayElement
  cases hr : r.resp with
  | arr idxs =>
      rw [hr] at h
      obtain ⟨es, hes, rfl⟩ := Option.map_eq_some_iff.mp h
      obtain ⟨hlen, hel⟩ := Resp.getElem?_of_traverseList hes
      dsimp only
      rw [Resp.bulkElement]
      cases hq : idxs[index]? with
      | none =>
          have : es[index]? = none := by
            rw [List.getElem?_eq_none_iff, hlen]
            exact List.getElem?_eq_none_iff.mp hq
          rw [this]
      | some q =>
          obtain ⟨e, he, hes'⟩ := hel index q hq
          rw [hes']
          exact getArrayElement_of_traverse he
  | error _ =>
      rw [hr] at h
      obtain ⟨_, _, rfl⟩ := Option.map_eq_some_iff.mp h
      rfl
  | simple _ =>
      rw [hr] at h
      obtain ⟨_, _, rfl⟩ := Option.map_eq_some_iff.mp h
      rfl
  | integer _ =>
      rw [hr] at h
      obtain ⟨_, _, rfl⟩ := Option.map_eq_some_iff.mp h
      rfl
  | bulk _ =>
      rw [hr] at h
      obtain ⟨_, _, rfl⟩ := Option.map_eq_some_iff.mp h
      rfl
  | nilArr =>
      rw [hr] at h
      cases h
      rfl

end IndexedResp

/-! ## The round trip -/

theorem parseResp_encode {v : Resp (List UInt8)} (hv : v.Sendable) (rest : List UInt8) :
    parseResp (encodeResp v ++ rest) = some (.ok (v.indexOf, (encodeResp v).length)) := by
  rw [← parseRespFuel_eq_parseResp (Nat.lt_succ_self _)]
  exact parseRespFuel_encode _ hv (by simp; omega) rest

theorem toRespVec_encode (v : Resp (List UInt8)) :
    (IndexedResp.mk v.indexOf (encodeResp v)).toRespVec = some v := by
  have h := traverse_indexOf (encodeResp v).length (Nat.le_refl _) (List.append_nil _).symm
    (Nat.zero_le (encodeResp v).length)
  rw [RespIndex.advance_zero] at h
  exact h

theorem parseIndexedResp_encode {v : Resp (List UInt8)} (hv : v.Sendable) (rest : List UInt8) :
    parseIndexedResp (encodeResp v ++ rest) = some (.ok (⟨v.indexOf, encodeResp v⟩, rest)) := by
  simp [parseIndexedResp, parseResp_encode hv, Except.map]

theorem parseResp_of_cut {v : Resp (List UInt8)} (hv : v.Sendable) {p : List UInt8}
    (hp : p <+: encodeResp v) (hlt : p.length < (encodeResp v).length) :
    parseResp p = some (.error .notEnoughData) := by
  rw [← parseRespFuel_eq_parseResp (Nat.lt_succ_self _)]
  exact parseRespFuel_of_cut _ hv hp hlt (Nat.lt_succ_self _)

/-- Encoding a sendable value and parsing it back: the parser takes exactly
the encoding off any buffer it starts, the indexed value it builds resolves to
the value, its array accessors agree with it, and a frame cut anywhere short
of its end makes the parser wait for more. -/
theorem parseResp_encodeResp {v : Resp (List UInt8)} (hv : v.Sendable) (rest : List UInt8) :
    parseResp (encodeResp v ++ rest) = some (.ok (v.indexOf, (encodeResp v).length)) ∧
    (∃ r : IndexedResp, parseIndexedResp (encodeResp v ++ rest) = some (.ok (r, rest)) ∧
      r.toRespVec = some v ∧ r.getArrayLen = v.arrayLen ∧
      ∀ index, r.getArrayElement index = some (v.bulkElement index)) ∧
    ∀ p, p <+: encodeResp v → p.length < (encodeResp v).length →
      parseResp p = some (.error .notEnoughData) := by
  have hvec := toRespVec_encode v
  exact ⟨parseResp_encode hv rest, ⟨⟨v.indexOf, encodeResp v⟩, parseIndexedResp_encode hv rest, hvec,
    IndexedResp.getArrayLen_of_toRespVec hvec, IndexedResp.getArrayElement_of_toRespVec hvec⟩,
    fun _ hp hlt => parseResp_of_cut hv hp hlt⟩

/-- The command GET k, sent as an array of two bulk strings. -/
theorem parseResp_encodeResp_get :
    parseResp (encodeResp (.arr [.bulk (.str [71, 69, 84]), .bulk (.str [107])])) =
      some (.ok (.arr [.bulk (.str ⟨8, 11⟩), .bulk (.str ⟨17, 18⟩)], 20)) := by
  have hv : (Resp.arr [.bulk (.str [71, 69, 84]), .bulk (.str [107])]).Sendable := by
    refine .arr (by decide) fun e he => ?_
    rcases List.mem_pair.mp he with rfl | rfl
    · exact .bulkStr (by decide)
    · exact .bulkStr (by decide)
  have h := (@parseResp_encodeResp _ hv []).1
  rw [List.append_nil] at h
  exact h

/-! ## What the parser does not check -/

/-- The two bytes after the content of a bulk string, and the byte before the
LF of a line, are skipped unread: a bulk string of length one followed by
"b\r" is taken as "a", and the simple string line "+OK\n" as "O". -/
theorem parseResp_unchecked_crlf :
    parseResp [byte '$', byte '1', cr, lf, byte 'a', byte 'b', cr, lf] =
      some (.ok (.bulk (.str ⟨4, 5⟩), 7)) ∧
    ([byte '$', byte '1', cr, lf, byte 'a', byte 'b', cr, lf].drop 5).take 2 ≠ [cr, lf] ∧
    parseResp [byte '+', byte 'O', byte 'K', lf] = some (.ok (.simple ⟨1, 2⟩, 4)) ∧
    ([byte '+', byte 'O', byte 'K', lf].drop 2).take 2 ≠ [cr, lf] :=
  ⟨rfl, by decide, rfl, by decide⟩

end Undermoon
