import Mathlib

/-!
# RESP values, their encoding and the stateless parser

`protocol/resp.rs`, `protocol/encoder.rs` and `protocol/stateless.rs`. A
value is `Resp<T>` over some payload type: bytes for a value the proxy builds
and writes out (`RespVec`), and index ranges into a buffer for a value parsed
out of one (`RespIndex`), which the proxy resolves only when it needs the
bytes (`IndexedResp`).

`Array<T>` is recursive through `Resp<T>`, so it is folded into `Resp` here:
`Resp::Arr(Array::Arr(v))` is `arr v` and `Resp::Arr(Array::Nil)` is
`nilArr`. The functor maps of the source are `Resp.map`, and the resolving
maps that may panic on a range outside the data are `Resp.traverse` into
`Option`.

`parse_resp` recurses into array elements, each on a shorter suffix of its
buffer. The model gives it a budget of nesting levels, `fuel`, and answers
`none` when the budget is spent; `parse_resp` itself runs with one level more
than the buffer has bytes, which never runs out (`Proofs.Resp`).

Two things of the libraries the parser calls are modelled by what they are
documented to do. `memchr` is the position of the first LF. `btoi` reads an
optional sign and one or more decimal digits into an `i64`, and fails on
anything else or out of range. `Vec::with_capacity(array_size)` in
`parse_array` is taken to succeed; it only reserves room.
-/

namespace Undermoon

/-- The ASCII byte of a character. -/
def byte (c : Char) : UInt8 := c.toNat.toUInt8

/-- `CR`. -/
def cr : UInt8 := 13

/-- `LF`. -/
def lf : UInt8 := 10

/-- `ParseError`. -/
inductive ParseError where
  | invalidProtocol
  | notEnoughData
  | unexpectedErr
deriving DecidableEq, Repr

/-- `BulkStr<T>`. -/
inductive BulkStr (α : Type) where
  | str (s : α)
  | nil
deriving DecidableEq, Repr

/-- `Resp<T>`, with `Array<T>` folded in as `arr` and `nilArr`. -/
inductive Resp (α : Type) where
  | error (s : α)
  | simple (s : α)
  | bulk (b : BulkStr α)
  | integer (s : α)
  | arr (elems : List (Resp α))
  | nilArr
deriving Repr

/-- `DataIndex(start, end)`: the bytes `start..end` of a buffer. -/
structure DataIndex where
  start : Nat
  stop : Nat
deriving DecidableEq, Repr

/-- `DataIndex::advance`. -/
def DataIndex.advance (d : DataIndex) (count : Nat) : DataIndex := ⟨d.start + count, d.stop + count⟩

/-- `RespIndex`. -/
abbrev RespIndex := Resp DataIndex

namespace BulkStr

/-- `VFunctor::map` of `BulkStr`. -/
def map {α β : Type} (f : α → β) : BulkStr α → BulkStr β
  | str s => str (f s)
  | nil => nil

/-- The map of `BulkStr` through a function that may fail. -/
def traverse {α β : Type} (f : α → Option β) : BulkStr α → Option (BulkStr β)
  | str s => (f s).map str
  | nil => some nil

end BulkStr

namespace Resp

variable {α β : Type}

mutual

/-- `VFunctor::map` of `Resp`. -/
def map (f : α → β) : Resp α → Resp β
  | error s => error (f s)
  | simple s => simple (f s)
  | bulk b => bulk (b.map f)
  | integer s => integer (f s)
  | arr elems => arr (mapList f elems)
  | nilArr => nilArr

/-- `map` over the elements of an array. -/
def mapList (f : α → β) : List (Resp α) → List (Resp β)
  | [] => []
  | r :: rs => map f r :: mapList f rs

end

mutual

/-- The map of `Resp` through a function that may fail, failing if it does
anywhere. -/
def traverse (f : α → Option β) : Resp α → Option (Resp β)
  | error s => (f s).map error
  | simple s => (f s).map simple
  | bulk b => (b.traverse f).map bulk
  | integer s => (f s).map integer
  | arr elems => (traverseList f elems).map arr
  | nilArr => some nilArr

/-- `traverse` over the elements of an array. -/
def traverseList (f : α → Option β) : List (Resp α) → Option (List (Resp β))
  | [] => some []
  | r :: rs =>
      match traverse f r, traverseList f rs with
      | some r', some rs' => some (r' :: rs')
      | _, _ => none

end

end Resp

/-- `AdvanceIndex::advance`: every index of a parsed value moves by `count`. -/
def RespIndex.advance (r : RespIndex) (count : Nat) : RespIndex := r.map fun d => d.advance count

/-- `BulkStrIndex`'s `advance`. -/
def BulkStr.advance (b : BulkStr DataIndex) (count : Nat) : BulkStr DataIndex :=
  b.map fun d => d.advance count

/-! ## Encoding -/

/-- `n.to_string().into_bytes()`. -/
def decimal (n : Nat) : List UInt8 := (Nat.toDigits 10 n).map byte

/-- `encode_simple_element`. -/
def encodeSimpleElement (pfx : Char) (b : List UInt8) : List UInt8 := byte pfx :: b ++ [cr, lf]

mutual

/-- `encode_resp`, as the bytes it writes. -/
def encodeResp : Resp (List UInt8) → List UInt8
  | .error s => encodeSimpleElement '-' s
  | .simple s => encodeSimpleElement '+' s
  | .integer s => encodeSimpleElement ':' s
  | .bulk (.str s) => encodeSimpleElement '$' (decimal s.length) ++ s ++ [cr, lf]
  | .bulk .nil => [byte '$', byte '-', byte '1', cr, lf]
  | .arr elems => encodeSimpleElement '*' (decimal elems.length) ++ encodeElems elems
  | .nilArr => [byte '*', byte '-', byte '1', cr, lf]

/-- The elements of an array, one after another. -/
def encodeElems : List (Resp (List UInt8)) → List UInt8
  | [] => []
  | r :: rs => encodeResp r ++ encodeElems rs

end

/-! ## Parsing -/

/-- `buf.get(start..end)`. -/
def sliceGet (buf : List UInt8) (start stop : Nat) : Option (List UInt8) :=
  if start ≤ stop ∧ stop ≤ buf.length then some ((buf.take stop).drop start) else none

/-- An ASCII digit. -/
def isDigit (b : UInt8) : Bool := decide (byte '0' ≤ b ∧ b ≤ byte '9')

/-- The number that one or more decimal digits spell. -/
def digitsValue (bytes : List UInt8) : Option Nat :=
  if bytes ≠ [] ∧ bytes.all isDigit = true then
    some (bytes.foldl (fun acc b => 10 * acc + (b.toNat - 48)) 0)
  else none

/-- `btoi::<i64>`: an optional sign and decimal digits, in range. -/
def btoi (bytes : List UInt8) : Option Int :=
  match bytes with
  | [] => none
  | b :: rest =>
      if b = byte '-' then
        (digitsValue rest).bind fun v => if v ≤ 2 ^ 63 then some (-(v : Int)) else none
      else
        let digits := if b = byte '+' then rest else bytes
        (digitsValue digits).bind fun v => if v < 2 ^ 63 then some (v : Int) else none

/-- `parse_line`: up to the first LF, which must not be the first byte; the
byte before it is taken to be the CR and dropped unread. -/
def parseLine (buf : List UInt8) : Except ParseError (DataIndex × Nat) :=
  match buf.findIdx? (· == lf) with
  | none => .error .notEnoughData
  | some lfIndex =>
      if lfIndex = 0 then .error .invalidProtocol
      else .ok (⟨0, lfIndex + 1 - 2⟩, lfIndex + 1)

/-- `parse_len`. -/
def parseLen (buf : List UInt8) : Except ParseError (Int × Nat) := do
  let (dataIndex, consumed) ← parseLine buf
  let some nextBuf := sliceGet buf dataIndex.start dataIndex.stop
    | .error .unexpectedErr
  let some len := btoi nextBuf
    | .error .invalidProtocol
  .ok (len, consumed)

/-- `parse_bulk_str`: a negative length is `Nil`; the two bytes after the
content are counted but not read. -/
def parseBulkStr (buf : List UInt8) : Except ParseError (BulkStr DataIndex × Nat) := do
  let (len, consumed) ← parseLen buf
  if len < 0 then return (.nil, consumed)
  let contentSize := len.toNat
  if buf.length < consumed + contentSize + 2 then .error .notEnoughData
  else .ok (.str ⟨consumed, consumed + contentSize⟩, consumed + contentSize + 2)

/-- The loop of `parse_array`: `n` more elements from `consumed` on, each
parsed by `parse` off the rest of the buffer and advanced to where it
starts. -/
def parseElems (parse : List UInt8 → Option (Except ParseError (RespIndex × Nat)))
    (buf : List UInt8) : Nat → Nat → List RespIndex →
      Option (Except ParseError (List RespIndex × Nat))
  | 0, consumed, array => some (.ok (array, consumed))
  | n + 1, consumed, array =>
      if consumed ≤ buf.length then
        match parse (buf.drop consumed) with
        | none => none
        | some (.error e) => some (.error e)
        | some (.ok (v, elementConsumed)) =>
            parseElems parse buf n (consumed + elementConsumed) (array ++ [v.advance consumed])
      else some (.error .invalidProtocol)

/-- `parse_array`: a negative length is `Nil`. -/
def parseArray (parse : List UInt8 → Option (Except ParseError (RespIndex × Nat)))
    (buf : List UInt8) : Option (Except ParseError (RespIndex × Nat)) :=
  match parseLen buf with
  | .error e => some (.error e)
  | .ok (len, consumed) =>
      if len < 0 then some (.ok (.nilArr, consumed))
      else
        match parseElems parse buf len.toNat consumed [] with
        | none => none
        | some (.error e) => some (.error e)
        | some (.ok (array, consumed)) => some (.ok (.arr array, consumed))

/-- `parse_resp` with `fuel` levels of nesting; `none` when they run out. -/
def parseRespFuel : Nat → List UInt8 → Option (Except ParseError (RespIndex × Nat))
  | 0, _ => none
  | _ + 1, [] => some (.error .notEnoughData)
  | fuel + 1, pfx :: nextBuf =>
      let line (mk : DataIndex → RespIndex) : Except ParseError (RespIndex × Nat) :=
        (parseLine nextBuf).map fun (v, consumed) => (mk (v.advance 1), 1 + consumed)
      if pfx = byte '$' then
        some ((parseBulkStr nextBuf).map fun (v, consumed) => (.bulk (v.advance 1), 1 + consumed))
      else if pfx = byte '+' then some (line .simple)
      else if pfx = byte ':' then some (line .integer)
      else if pfx = byte '-' then some (line .error)
      else if pfx = byte '*' then
        (parseArray (parseRespFuel fuel) nextBuf).map
          (Except.map fun (v, consumed) => (v.advance 1, 1 + consumed))
      else some (.error .invalidProtocol)

/-- `parse_resp`. -/
def parseResp (buf : List UInt8) : Option (Except ParseError (RespIndex × Nat)) :=
  parseRespFuel (buf.length + 1) buf

/-- `IndexedResp`: a parsed value and the bytes it was parsed from. -/
structure IndexedResp where
  resp : RespIndex
  data : List UInt8

/-- `parse_indexed_resp`: the value parsed off the front of the buffer, with
the bytes it took split off, and the rest of the buffer. -/
def parseIndexedResp (buf : List UInt8) : Option (Except ParseError (IndexedResp × List UInt8)) :=
  (parseResp buf).map <| Except.map fun (resp, consumed) =>
    (⟨resp, buf.take consumed⟩, buf.drop consumed)

namespace IndexedResp

/-- `get_array_element`: the bytes of a bulk string element; the outer
`none` is the panic of its `expect`. -/
def getArrayElement (r : IndexedResp) (index : Nat) : Option (Option (List UInt8)) :=
  match r.resp with
  | .arr resps =>
      match resps[index]? with
      | some (.bulk (.str s)) => (sliceGet r.data s.start s.stop).map some
      | _ => some none
  | _ => some none

/-- `get_array_len`. -/
def getArrayLen (r : IndexedResp) : Option Nat :=
  match r.resp with
  | .arr resps => some resps.length
  | _ => none

/-- `to_resp_vec`: every index resolved against the data; `none` is the
panic of its `expect`. -/
def toRespVec (r : IndexedResp) : Option (Resp (List UInt8)) :=
  r.resp.traverse fun d => sliceGet r.data d.start d.stop

end IndexedResp

end Undermoon
