import Undermoon.Protocol.Resp

/-!
# The optional-multi codec

A client that writes one command or a batch of them at once (`OptionalMulti`,
`protocol/packet.rs`) reads back one reply per command and hands them over
grouped as it wrote them. Its encoder and decoder share one `AtomicUsize`:
`produce`, in the encoder, records what to expect (`1` for a single command,
`k + 2` for a batch of `k`, `0` for nothing), and `consume`, in the decoder,
takes it back and resets it. The replies arrive in chunks of any size, so the
decoder keeps the hint it works on (`curr_hint`) and the replies of a batch
decoded so far (`buf`) from one call of `decode` to the next.

A packet decoder (`DecodedPacket` with hint `()`) is a function from the
bytes received to the packet taken off their front and the bytes left; the
structure carries the fact that a packet takes at least one byte, which is
what ends the loop of `decode`. The client decodes its replies as `RespVec`:
`parse_indexed_resp`, then `to_resp_vec`. The IO errors are one constructor,
and so are the encoders' own, which writing to memory never raises.
-/

namespace Undermoon

/-- `OptionalMulti<T>`: one packet, or several written together. -/
inductive OptionalMulti (T : Type) where
  | single (t : T)
  | multi (v : List T)
deriving DecidableEq, Repr

namespace OptionalMulti

variable {α β : Type}

/-- `OptionalMulti::map`. -/
def map (f : α → β) : OptionalMulti α → OptionalMulti β
  | single t => single (f t)
  | multi v => multi (v.map f)

/-- `get_hint`, for packets whose own hint is `()`. -/
def getHint (p : OptionalMulti α) : OptionalMulti Unit := p.map fun _ => ()

/-- The packets in the order they are written. -/
def packets : OptionalMulti α → List α
  | single t => [t]
  | multi v => v

end OptionalMulti

/-- `DecodeError`; the IO errors are one constructor. -/
inductive DecodeError where
  | invalidProtocol
  | io
deriving DecidableEq, Repr

/-- `EncodeError<P>`. -/
inductive EncodeError (P : Type) where
  | notReady (packet : P)
  | io
deriving DecidableEq, Repr

namespace OptionalMultiHintState

/-- `consume`: the shared value, swapped for `0`, read as a hint. -/
def consume (state : Nat) : Option (OptionalMulti Unit) × Nat :=
  let hint := match state with
    | 0 => none
    | 1 => some (.single ())
    | n => some (.multi (List.replicate (n - 2) ()))
  (hint, 0)

/-- `produce`: the hint written as a number, by `compare_exchange(0, n)`,
which fails while a hint is pending. -/
def produce (hint : OptionalMulti Unit) (state : Nat) : Bool × Nat :=
  let n := match hint with
    | .single () => 1
    | .multi v => v.length + 2
  if state = 0 then (true, n) else (false, state)

end OptionalMultiHintState

/-- `OptionalMultiPacketEncoder::encode`: the bytes written and the shared
state after; the packets of a batch are written one after another. -/
def OptionalMultiPacketEncoder.encode {E : Type} (encodePacket : E → List UInt8)
    (packet : OptionalMulti E) (state : Nat) : Except (EncodeError (OptionalMulti E)) (List UInt8 × Nat) :=
  match OptionalMultiHintState.produce packet.getHint state with
  | (true, state) => .ok (packet.packets.flatMap encodePacket, state)
  | (false, _) => .error (.notReady packet)

/-- `DecodedPacket` with hint `()`: the packet taken off the front of the
bytes and the bytes left, or `none` inside while they hold no whole packet;
the outer `none` is a panic. A packet takes at least one byte. -/
structure DecodedPacket (D : Type) where
  decode : List UInt8 → Option (Except DecodeError (Option (D × List UInt8)))
  shrinks : ∀ {bytes : List UInt8} {packet : D} {rest : List UInt8},
    decode bytes = some (.ok (some (packet, rest))) → rest.length < bytes.length

/-- `OptionalMultiPacketDecoder`, without the shared state: the replies of
a batch decoded so far and the hint being worked on. -/
structure OptionalMultiPacketDecoder (D : Type) where
  buf : List D
  currHint : Option (OptionalMulti Unit)
deriving DecidableEq, Repr

namespace OptionalMultiPacketDecoder

variable {D : Type}

/-- The decoder between two exchanges. -/
def new : OptionalMultiPacketDecoder D := ⟨[], none⟩

/-- The loop of `decode`, under a hint that asks for at least one packet:
what the call returns, the decoder after, and the bytes left. -/
def decodeLoop (dp : DecodedPacket D) (hint : OptionalMulti Unit) (d : OptionalMultiPacketDecoder D)
    (bytes : List UInt8) :
    Option (Except DecodeError (Option (OptionalMulti D)) × OptionalMultiPacketDecoder D × List UInt8) :=
  match h : dp.decode bytes with
  | none => none
  | some (.error e) => some (.error e, d, bytes)
  | some (.ok none) => some (.ok none, d, bytes)
  | some (.ok (some (packet, rest))) =>
      match hint with
      | .single () => some (.ok (some (.single packet)), { d with currHint := none }, rest)
      | .multi hints =>
          let buf := d.buf ++ [packet]
          if hints.length = buf.length then
            -- `self.buf.drain(..)`
            some (.ok (some (.multi buf)), ⟨[], none⟩, rest)
          else decodeLoop dp hint { d with buf := buf } rest
termination_by bytes.length
decreasing_by exact dp.shrinks h

/-- `OptionalMultiPacketDecoder::decode` on the bytes received: what it
returns, the decoder and the shared state after, and the bytes left. -/
def decode (dp : DecodedPacket D) (d : OptionalMultiPacketDecoder D) (state : Nat) (bytes : List UInt8) :
    Option (Except DecodeError (Option (OptionalMulti D)) × OptionalMultiPacketDecoder D × Nat ×
      List UInt8) :=
  let (hint, d, state) : Option (OptionalMulti Unit) × OptionalMultiPacketDecoder D × Nat :=
    match d.currHint with
    | some h => (some h, d, state)
    | none =>
        let (h, state) := OptionalMultiHintState.consume state
        (h, { d with currHint := h }, state)
  match hint with
  | none => some (.ok none, d, state, bytes)
  -- an empty batch asks for no reply
  | some (.multi []) => some (.ok (some (.multi [])), { d with currHint := none }, state, bytes)
  | some hint => (decodeLoop dp hint d bytes).map fun (r, d, bytes) => (r, d, state, bytes)

/-- The decoder called once for each chunk of bytes that arrives, on what
the last call left followed by the chunk: what every call returns, and the
decoder, the shared state and the bytes left at the end. -/
def decodeChunks (dp : DecodedPacket D) :
    List (List UInt8) → OptionalMultiPacketDecoder D → Nat → List UInt8 →
      Option (List (Except DecodeError (Option (OptionalMulti D))) × OptionalMultiPacketDecoder D ×
        Nat × List UInt8)
  | [], d, state, bytes => some ([], d, state, bytes)
  | chunk :: chunks, d, state, bytes =>
      match decode dp d state (bytes ++ chunk) with
      | none => none
      | some (r, d, state, bytes) =>
          (decodeChunks dp chunks d state bytes).map fun (rs, d, state, bytes) => (r :: rs, d, state, bytes)

end OptionalMultiPacketDecoder

/-! ## Replies as `RespVec` -/

/-- `DecodedPacket for IndexedResp`: an incomplete frame is `Ok(None)`, any
other parse error `InvalidProtocol`. -/
def IndexedResp.decode (buf : List UInt8) : Option (Except DecodeError (Option (IndexedResp × List UInt8))) :=
  (parseIndexedResp buf).map fun
    | .ok r => .ok (some r)
    | .error .notEnoughData => .ok none
    | .error _ => .error .invalidProtocol

/-- `DecodedPacket for RespVec`: the indexed value resolved; the `none` of
`to_resp_vec` is the panic of its `expect`. -/
def decodeRespVec (buf : List UInt8) : Option (Except DecodeError (Option (Resp (List UInt8) × List UInt8))) :=
  match IndexedResp.decode buf with
  | none => none
  | some (.error e) => some (.error e)
  | some (.ok none) => some (.ok none)
  | some (.ok (some (r, rest))) => r.toRespVec.map fun v => .ok (some (v, rest))

/-- A value parsed takes at least its prefix byte. -/
theorem parseRespFuel_consumed_pos {fuel : Nat} {buf : List UInt8} {v : RespIndex} {consumed : Nat}
    (h : parseRespFuel fuel buf = some (.ok (v, consumed))) : buf ≠ [] ∧ 0 < consumed := by
  match fuel, buf with
  | 0, _ => cases h
  | _ + 1, [] => cases h
  | fuel + 1, pfx :: nextBuf =>
      refine ⟨List.cons_ne_nil _ _, ?_⟩
      -- every branch counts the prefix byte in front of what it parsed
      have hline : ∀ mk : DataIndex → RespIndex,
          (parseLine nextBuf).map (fun x => (mk (x.fst.advance 1), 1 + x.snd)) = .ok (v, consumed) →
            0 < consumed := by
        intro mk hm
        cases hl : parseLine nextBuf <;> simp [hl, Except.map] at hm
        omega
      simp only [parseRespFuel] at h
      split_ifs at h
      · cases hb : parseBulkStr nextBuf <;> simp [hb, Except.map] at h
        omega
      · exact hline _ (Option.some.inj h)
      · exact hline _ (Option.some.inj h)
      · exact hline _ (Option.some.inj h)
      · cases ha : parseArray (parseRespFuel fuel) nextBuf with
        | none => simp [ha] at h
        | some r =>
            cases r <;> simp [ha, Except.map] at h
            omega
      · cases h

theorem parseIndexedResp_ok {buf rest : List UInt8} {r : IndexedResp}
    (h : parseIndexedResp buf = some (.ok (r, rest))) :
    ∃ consumed, parseResp buf = some (.ok (r.resp, consumed)) ∧ r.data = buf.take consumed ∧
      rest = buf.drop consumed := by
  unfold parseIndexedResp at h
  cases hp : parseResp buf with
  | none => simp [hp] at h
  | some e =>
      cases e with
      | error err => simp [hp, Except.map] at h
      | ok p =>
          simp only [hp, Option.map_some, Except.map, Option.some.injEq, Except.ok.injEq,
            Prod.mk.injEq] at h
          obtain ⟨rfl, rfl⟩ := h
          exact ⟨p.2, rfl, rfl, rfl⟩

theorem decodeRespVec_ok {buf rest : List UInt8} {v : Resp (List UInt8)}
    (h : decodeRespVec buf = some (.ok (some (v, rest)))) :
    ∃ r : IndexedResp, parseIndexedResp buf = some (.ok (r, rest)) ∧ r.toRespVec = some v := by
  unfold decodeRespVec IndexedResp.decode at h
  cases hp : parseIndexedResp buf with
  | none => simp [hp] at h
  | some e =>
      cases e with
      | error err => cases err <;> simp [hp] at h
      | ok p =>
          obtain ⟨r, rest'⟩ := p
          simp only [hp, Option.map_some] at h
          cases hv : r.toRespVec with
          | none => simp [hv] at h
          | some v' =>
              simp only [hv, Option.map_some, Option.some.injEq, Except.ok.injEq, Prod.mk.injEq] at h
              obtain ⟨rfl, rfl⟩ := h
              exact ⟨r, rfl, hv⟩

/-- The client's reply decoder. -/
def respVecPacket : DecodedPacket (Resp (List UInt8)) where
  decode := decodeRespVec
  shrinks := by
    intro bytes v rest h
    obtain ⟨r, hr, -⟩ := decodeRespVec_ok h
    obtain ⟨consumed, hp, -, rfl⟩ := parseIndexedResp_ok hr
    obtain ⟨hne, hpos⟩ := parseRespFuel_consumed_pos hp
    have := List.length_pos_of_ne_nil hne
    rw [List.length_drop]
    omega

end Undermoon
