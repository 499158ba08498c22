import Undermoon.Protocol.Packet
import Undermoon.Proofs.Codec

/-!
# The optional-multi decoder regroups the replies, however they are cut

The encoder records the shape of what it wrote in the shared state, and the
first call of `decode` after it takes the shape back: `consume` inverts
`produce`. From then on every call works on the bytes left by the last one
and the chunk that arrived, and the loop of `decode` takes whole replies off
their front until the bytes run out inside one. That is the invariant carried
from call to call: the replies decoded so far are the first `j` of the batch,
held in `buf` (none for a single command), and what they took, followed by
the bytes left, is everything received.

The loop needs two facts of the packet decoder, stated once for any decoder
and encoding: it takes a whole encoded packet off the front of any bytes, and
it waits on a proper prefix of one. For `RespVec` and sendable replies they
are the parser's round trip (`Proofs.Codec`).
-/

namespace Undermoon

theorem OptionalMultiHintState.consume_produce (hint : OptionalMulti Unit) :
    consume (produce hint 0).2 = (some hint, 0) := by
  cases hint with
  | single u => rfl
  | multi v =>
      -- a batch is known by its length alone, as its hints are all `()`
      have hv : List.replicate v.length () = v := (List.eq_replicate_iff.mpr ⟨rfl, fun _ _ => rfl⟩).symm
      simp [consume, produce, hv]

namespace OptionalMultiPacketDecoder

variable {D : Type}

/-! ## One round of the loop -/

section Round

variable (dp : DecodedPacket D) {hint : OptionalMulti Unit} {d : OptionalMultiPacketDecoder D}
  {bytes : List UInt8}

theorem decodeLoop_of_none (h : dp.decode bytes = some (.ok none)) :
    decodeLoop dp hint d bytes = some (.ok none, d, bytes) := by
  rw [decodeLoop]
  split
  · next heq => rw [h] at heq; cases heq
  · next heq => rw [h] at heq; cases heq
  · rfl
  · next heq => rw [h] at heq; cases heq

theorem decodeLoop_single_of_packet {packet : D} {rest : List UInt8}
    (h : dp.decode bytes = some (.ok (some (packet, rest)))) :
    decodeLoop dp (.single ()) d bytes = some (.ok (some (.single packet)), { d with currHint := none }, rest) := by
  rw [decodeLoop]
  split
  · next heq => rw [h] at heq; cases heq
  · next heq => rw [h] at heq; cases heq
  · next heq => rw [h] at heq; cases heq
  · next heq =>
      rw [h] at heq
      cases heq
      rfl

theorem decodeLoop_multi_of_packet {hints : List Unit} {packet : D} {rest : List UInt8}
    (h : dp.decode bytes = some (.ok (some (packet, rest)))) :
    decodeLoop dp (.multi hints) d bytes =
      if hints.length = (d.buf ++ [packet]).length then some (.ok (some (.multi (d.buf ++ [packet]))), new, rest)
      else decodeLoop dp (.multi hints) { d with buf := d.buf ++ [packet] } rest := by
  rw [decodeLoop]
  split
  · next heq => rw [h] at heq; cases heq
  · next heq => rw [h] at heq; cases heq
  · next heq => rw [h] at heq; cases heq
  · next heq =>
      rw [h] at heq
      cases heq
      rfl

end Round

/-! ## Whole packets and cut ones

`enc` is any encoding the packet decoder reads back, for the packets that
satisfy `good`. -/

section Encoded

variable {dp : DecodedPacket D} {enc : D → List UInt8} {good : D → Prop}
  (hdec : ∀ v, good v → ∀ rest, dp.decode (enc v ++ rest) = some (.ok (some (v, rest))))
  (hwait : ∀ v, good v → ∀ p, p <+: enc v → p.length < (enc v).length → dp.decode p = some (.ok none))

include hdec in
/-- The rest of a batch, all there: the loop returns the whole batch. -/
theorem decodeLoop_multi_complete {hints : List Unit} (rest : List UInt8) :
    ∀ (todo : List D) (d : OptionalMultiPacketDecoder D), todo ≠ [] → (∀ v ∈ todo, good v) →
      hints.length = d.buf.length + todo.length →
      decodeLoop dp (.multi hints) d (todo.flatMap enc ++ rest) =
        some (.ok (some (.multi (d.buf ++ todo))), new, rest)
  | [], _, hne, _, _ => absurd rfl hne
  | v :: todo, d, _, hgood, hlen => by
      have hv := hdec v (hgood v List.mem_cons_self) (todo.flatMap enc ++ rest)
      rw [List.flatMap_cons, List.append_assoc, decodeLoop_multi_of_packet dp hv]
      by_cases htodo : todo = []
      · -- the last reply of the batch
        subst htodo
        rw [if_pos (by simp at hlen ⊢; omega)]
        rfl
      · have hlt : hints.length ≠ (d.buf ++ [v]).length := by
          have := List.length_pos_of_ne_nil htodo
          simp at hlen ⊢
          omega
        rw [if_neg hlt, decodeLoop_multi_complete rest todo _ htodo
          (fun w hw => hgood w (List.mem_cons_of_mem v hw)) (by simp at hlen ⊢; omega)]
        simp

include hdec hwait in
/-- The rest of a batch, cut short: the loop takes the whole replies there
are into `buf` and asks for more. -/
theorem decodeLoop_multi_cut {hints : List Unit} :
    ∀ (todo : List D) (d : OptionalMultiPacketDecoder D) (p : List UInt8), (∀ v ∈ todo, good v) →
      hints.length = d.buf.length + todo.length →
      p <+: todo.flatMap enc → p.length < (todo.flatMap enc).length →
      ∃ k < todo.length, ∃ p', decodeLoop dp (.multi hints) d p =
          some (.ok none, { d with buf := d.buf ++ todo.take k }, p') ∧
        p = (todo.take k).flatMap enc ++ p'
  | [], _, _, _, _, _, hlt => absurd hlt (Nat.not_lt_zero _)
  | v :: todo, d, p, hgood, hlen, hp, hlt => by
      rw [List.flatMap_cons] at hp hlt
      rcases List.prefix_append_cases hp with ⟨hpv, hltv⟩ | ⟨t, rfl, ht⟩
      · -- the bytes run out inside the next reply
        refine ⟨0, by simp, p, ?_, by simp⟩
        rw [decodeLoop_of_none dp (hwait v (hgood v List.mem_cons_self) p hpv hltv)]
        simp
      · -- the next reply is whole; the rest is cut inside the replies after it
        have htlt : t.length < (todo.flatMap enc).length := by
          rw [List.length_append, List.length_append] at hlt
          omega
        have htodo : todo ≠ [] := by
          rintro rfl
          simp at htlt
        have hv := hdec v (hgood v List.mem_cons_self) t
        have hne : hints.length ≠ (d.buf ++ [v]).length := by
          have := List.length_pos_of_ne_nil htodo
          simp at hlen ⊢
          omega
        have hlen' : hints.length = ({ d with buf := d.buf ++ [v] } : OptionalMultiPacketDecoder D).buf.length +
            todo.length := by
          simp at hlen ⊢
          omega
        obtain ⟨k, hk, p', hloop, hsplit⟩ := decodeLoop_multi_cut todo { d with buf := d.buf ++ [v] } t
          (fun w hw => hgood w (List.mem_cons_of_mem v hw)) hlen' ht htlt
        refine ⟨k + 1, by simp; omega, p', ?_, ?_⟩
        · rw [decodeLoop_multi_of_packet dp hv, if_neg hne, hloop]
          simp
        · rw [hsplit]
          simp

/-! ## A batch, or a single reply

The same two facts, for the replies of any request: `j` replies decoded,
the rest of the batch all there or cut short. -/

variable {replies : OptionalMulti D}

include hdec in
theorem decodeLoop_complete {j : Nat} (hj : j < replies.packets.length)
    (hgood : ∀ v ∈ replies.packets, good v) (rest : List UInt8) :
    decodeLoop dp replies.getHint ⟨replies.packets.take j, some replies.getHint⟩
        ((replies.packets.drop j).flatMap enc ++ rest) = some (.ok (some replies), new, rest) := by
  cases replies with
  | single v =>
      obtain rfl : j = 0 := by simp [OptionalMulti.packets] at hj; omega
      have hv := hdec v (hgood v (by simp [OptionalMulti.packets])) rest
      simp only [OptionalMulti.getHint, OptionalMulti.map, OptionalMulti.packets, List.take_zero,
        List.drop_zero, List.flatMap_singleton]
      rw [decodeLoop_single_of_packet dp hv]
      rfl
  | multi vs =>
      simp only [OptionalMulti.packets] at hj hgood ⊢
      have hlen : (vs.map fun _ => ()).length = (vs.take j).length + (vs.drop j).length := by
        simp
        omega
      simp only [OptionalMulti.getHint, OptionalMulti.map]
      rw [decodeLoop_multi_complete hdec rest (vs.drop j) ⟨vs.take j, some (.multi (vs.map fun _ => ()))⟩
        (by simp; omega) (fun v hv => hgood v (List.mem_of_mem_drop hv)) hlen]
      simp

include hdec hwait in
theorem decodeLoop_cut {j : Nat} (hj : j < replies.packets.length)
    (hgood : ∀ v ∈ replies.packets, good v) {p : List UInt8}
    (hp : p <+: (replies.packets.drop j).flatMap enc) (hlt : p.length < ((replies.packets.drop j).flatMap enc).length) :
    ∃ j', j ≤ j' ∧ j' < replies.packets.length ∧ ∃ p',
      decodeLoop dp replies.getHint ⟨replies.packets.take j, some replies.getHint⟩ p =
        some (.ok none, ⟨replies.packets.take j', some replies.getHint⟩, p') ∧
      (replies.packets.take j).flatMap enc ++ p = (replies.packets.take j').flatMap enc ++ p' := by
  cases replies with
  | single v =>
      obtain rfl : j = 0 := by simp [OptionalMulti.packets] at hj; omega
      simp only [OptionalMulti.packets, List.drop_zero, List.flatMap_singleton] at hp hlt
      refine ⟨0, Nat.le_refl 0, by simp [OptionalMulti.packets], p, ?_, rfl⟩
      exact decodeLoop_of_none dp (hwait v (hgood v (by simp [OptionalMulti.packets])) p hp hlt)
  | multi vs =>
      simp only [OptionalMulti.packets] at hj hgood hp hlt ⊢
      have hlen : (vs.map fun _ => ()).length = (vs.take j).length + (vs.drop j).length := by
        simp
        omega
      obtain ⟨k, hk, p', hloop, hsplit⟩ := decodeLoop_multi_cut hdec hwait (vs.drop j)
        ⟨vs.take j, some (.multi (vs.map fun _ => ()))⟩ p (fun v hv => hgood v (List.mem_of_mem_drop hv))
        hlen hp hlt
      -- the replies taken this call follow the ones taken before
      have htake : vs.take j ++ (vs.drop j).take k = vs.take (j + k) := (List.take_add ..).symm
      refine ⟨j + k, by omega, by simp at hk; omega, p', ?_, ?_⟩
      · simp only [OptionalMulti.getHint, OptionalMulti.map]
        rw [hloop, htake]
      · rw [hsplit, ← List.append_assoc, ← List.flatMap_append, htake]

end Encoded

/-! ## From call to call -/

/-- Where an exchange stands between two calls of `decode`: the first `j`
replies are decoded, and what they took followed by the bytes left is all
that was received. Before the first call the shape of the request is still
in the shared state. -/
def InFlight (enc : D → List UInt8) (replies : OptionalMulti D) (d : OptionalMultiPacketDecoder D)
    (state : Nat) (recv bytes : List UInt8) : Prop :=
  ∃ j < replies.packets.length,
    (j = 0 ∧ d = new ∧ state = (OptionalMultiHintState.produce replies.getHint 0).2 ∨
      d = ⟨replies.packets.take j, some replies.getHint⟩ ∧ state = 0) ∧
    recv = (replies.packets.take j).flatMap enc ++ bytes

theorem inFlight_start {enc : D → List UInt8} {replies : OptionalMulti D} (hne : replies.packets ≠ []) :
    InFlight enc replies new (OptionalMultiHintState.produce replies.getHint 0).2 [] [] :=
  ⟨0, List.length_pos_of_ne_nil hne, .inl ⟨rfl, rfl, rfl⟩, by simp⟩

theorem getHint_ne_empty {replies : OptionalMulti D} (hne : replies.packets ≠ []) :
    replies.getHint ≠ .multi [] := by
  cases replies with
  | single v => simp [OptionalMulti.getHint, OptionalMulti.map]
  | multi vs => simpa [OptionalMulti.getHint, OptionalMulti.map, OptionalMulti.packets] using hne

/-- With a hint at work, `decode` is its loop. -/
theorem decode_of_currHint (dp : DecodedPacket D) {hint : OptionalMulti Unit} (hh : hint ≠ .multi [])
    (buf : List D) (state : Nat) (bytes : List UInt8) :
    decode dp ⟨buf, some hint⟩ state bytes =
      (decodeLoop dp hint ⟨buf, some hint⟩ bytes).map fun (r, d, bytes) => (r, d, state, bytes) := by
  cases hint with
  | single u => rfl
  | multi v =>
      cases v with
      | nil => exact absurd rfl hh
      | cons u v => rfl

/-- The first call after the encoder takes the hint from the shared state. -/
theorem decode_new (dp : DecodedPacket D) (hint : OptionalMulti Unit) (bytes : List UInt8) :
    decode dp new (OptionalMultiHintState.produce hint 0).2 bytes = decode dp ⟨[], some hint⟩ 0 bytes := by
  have h := OptionalMultiHintState.consume_produce hint
  simp only [decode, new, h]

theorem InFlight.decode {dp : DecodedPacket D} {enc : D → List UInt8} {replies : OptionalMulti D}
    {d : OptionalMultiPacketDecoder D} {state : Nat} {recv bytes : List UInt8}
    (h : InFlight enc replies d state recv bytes) (input : List UInt8) :
    ∃ j < replies.packets.length, recv = (replies.packets.take j).flatMap enc ++ bytes ∧
      OptionalMultiPacketDecoder.decode dp d state input =
        (decodeLoop dp replies.getHint ⟨replies.packets.take j, some replies.getHint⟩ input).map
          fun (r, d, bytes) => (r, d, 0, bytes) := by
  obtain ⟨j, hj, hstart | ⟨rfl, rfl⟩, hrecv⟩ := h
  all_goals have hh := getHint_ne_empty (List.ne_nil_of_length_pos (Nat.lt_of_le_of_lt (Nat.zero_le j) hj))
  · obtain ⟨rfl, rfl, rfl⟩ := hstart
    refine ⟨0, hj, hrecv, ?_⟩
    rw [decode_new, List.take_zero, decode_of_currHint dp hh]
  · exact ⟨j, hj, hrecv, decode_of_currHint dp hh _ _ _⟩

section Calls

variable {dp : DecodedPacket D} {enc : D → List UInt8} {good : D → Prop}
  (hdec : ∀ v, good v → ∀ rest, dp.decode (enc v ++ rest) = some (.ok (some (v, rest))))
  (hwait : ∀ v, good v → ∀ p, p <+: enc v → p.length < (enc v).length → dp.decode p = some (.ok none))
  {replies : OptionalMulti D} (hgood : ∀ v ∈ replies.packets, good v)

include hdec hwait hgood in
/-- A call that still leaves the batch short returns `Ok(None)` and keeps
the exchange in flight. -/
theorem InFlight.decode_cut {d : OptionalMultiPacketDecoder D} {state : Nat} {recv bytes : List UInt8}
    (h : InFlight enc replies d state recv bytes) {chunk : List UInt8}
    (hp : recv ++ chunk <+: replies.packets.flatMap enc)
    (hlt : (recv ++ chunk).length < (replies.packets.flatMap enc).length) :
    ∃ d' bytes', OptionalMultiPacketDecoder.decode dp d state (bytes ++ chunk) = some (.ok none, d', 0, bytes') ∧
      InFlight enc replies d' 0 (recv ++ chunk) bytes' := by
  obtain ⟨j, hj, hrecv, hcall⟩ := h.decode (bytes ++ chunk)
  -- what is left to decode is a proper prefix of the replies after the first `j`
  have htotal : replies.packets.flatMap enc =
      (replies.packets.take j).flatMap enc ++ (replies.packets.drop j).flatMap enc := by
    rw [← List.flatMap_append, List.take_append_drop]
  rw [hrecv, htotal, List.append_assoc] at hp hlt
  have hp' := (List.prefix_append_right_inj _).mp hp
  have hlt' : (bytes ++ chunk).length < ((replies.packets.drop j).flatMap enc).length := by
    simp only [List.length_append] at hlt ⊢
    omega
  obtain ⟨j', -, hj', p', hloop, hsplit⟩ := decodeLoop_cut hdec hwait hj hgood hp' hlt'
  refine ⟨_, p', by rw [hcall, hloop]; rfl, j', hj', .inr ⟨rfl, rfl⟩, ?_⟩
  rw [hrecv, List.append_assoc, hsplit]

include hdec hgood in
/-- The call whose chunk completes the batch returns it, leaves the bytes
after it, and resets the decoder. -/
theorem InFlight.decode_complete {d : OptionalMultiPacketDecoder D} {state : Nat} {recv bytes : List UInt8}
    (h : InFlight enc replies d state recv bytes) {chunk rest : List UInt8}
    (hbytes : recv ++ chunk = replies.packets.flatMap enc ++ rest) :
    OptionalMultiPacketDecoder.decode dp d state (bytes ++ chunk) = some (.ok (some replies), new, 0, rest) := by
  obtain ⟨j, hj, hrecv, hcall⟩ := h.decode (bytes ++ chunk)
  have hleft : bytes ++ chunk = (replies.packets.drop j).flatMap enc ++ rest := by
    rw [hrecv, ← List.take_append_drop j replies.packets, List.flatMap_append, List.append_assoc,
      List.append_assoc, List.take_append_drop] at hbytes
    exact List.append_cancel_left hbytes
  rw [hcall, hleft, decodeLoop_complete hdec hj hgood rest]
  rfl

include hdec hwait hgood in
/-- Chunk after chunk: every call before the one that completes the batch
returns `Ok(None)`. -/
theorem InFlight.decodeChunks (last rest : List UInt8) :
    ∀ (pre : List (List UInt8)) (d : OptionalMultiPacketDecoder D) (state : Nat) (recv bytes : List UInt8),
      InFlight enc replies d state recv bytes →
      recv ++ pre.flatten ++ last = replies.packets.flatMap enc ++ rest →
      (recv ++ pre.flatten).length < (replies.packets.flatMap enc).length →
      OptionalMultiPacketDecoder.decodeChunks dp (pre ++ [last]) d state bytes =
        some (List.replicate pre.length (.ok none) ++ [.ok (some replies)], new, 0, rest)
  | [], d, state, recv, bytes, h, hbytes, _ => by
      simp only [List.flatten_nil, List.append_nil] at hbytes
      simp [OptionalMultiPacketDecoder.decodeChunks, h.decode_complete hdec hgood hbytes]
  | chunk :: pre, d, state, recv, bytes, h, hbytes, hlt => by
      simp only [List.flatten_cons, ← List.append_assoc] at hbytes hlt
      -- the bytes received so far are still short of the batch
      have hpre : recv ++ chunk <+: replies.packets.flatMap enc := by
        have hprefix : recv ++ chunk <+: replies.packets.flatMap enc ++ rest :=
          hbytes ▸ (List.prefix_append _ _).trans (List.prefix_append _ _)
        exact List.prefix_of_prefix_length_le hprefix (List.prefix_append _ _)
          (by simp only [List.length_append] at hlt ⊢; omega)
      obtain ⟨d', bytes', hcall, h'⟩ := h.decode_cut hdec hwait hgood hpre
        (by simp only [List.length_append] at hlt ⊢; omega)
      have hrest := InFlight.decodeChunks last rest pre d' 0 (recv ++ chunk) bytes' h'
        (by rw [← hbytes]) hlt
      simp [OptionalMultiPacketDecoder.decodeChunks, hcall, hrest, List.replicate_succ]

end Calls

end OptionalMultiPacketDecoder

/-- From an idle state the encoder always writes, and records the shape. -/
theorem OptionalMultiPacketEncoder.encode_idle {E : Type} (encodePacket : E → List UInt8)
    (packet : OptionalMulti E) :
    encode encodePacket packet 0 =
      .ok (packet.packets.flatMap encodePacket, (OptionalMultiHintState.produce packet.getHint 0).2) := by
  simp [encode, OptionalMultiHintState.produce]

/-! ## The client's replies -/

theorem respVecPacket_encode {v : Resp (List UInt8)} (hv : v.Sendable) (rest : List UInt8) :
    respVecPacket.decode (encodeResp v ++ rest) = some (.ok (some (v, rest))) := by
  simp [respVecPacket, decodeRespVec, IndexedResp.decode, parseIndexedResp_encode hv, toRespVec_encode]

theorem respVecPacket_of_cut {v : Resp (List UInt8)} (hv : v.Sendable) {p : List UInt8}
    (hp : p <+: encodeResp v) (hlt : p.length < (encodeResp v).length) :
    respVecPacket.decode p = some (.ok none) := by
  simp [respVecPacket, decodeRespVec, IndexedResp.decode, parseIndexedResp, parseResp_of_cut hv hp hlt,
    Except.map]

/-- A request of one command or of a batch of `k ≥ 1`, written from an
idle codec, and its replies, received in chunks cut anywhere: every call of
`decode` before the chunk that completes the replies returns `Ok(None)`, and
that call returns them grouped as the request, leaves exactly the bytes after
them, and resets the decoder and the shared state. The shared state holds `1`
for a single command and `k + 2` for a batch, which `consume` reads back. -/
theorem decodeChunks_regroups_replies {E : Type} (encodePacket : E → List UInt8) (req : OptionalMulti E)
    (replies : OptionalMulti (Resp (List UInt8))) (hshape : req.getHint = replies.getHint)
    (hne : replies.packets ≠ []) (hsend : ∀ r ∈ replies.packets, r.Sendable)
    (pre : List (List UInt8)) (last rest : List UInt8)
    (hshort : pre.flatten.length < (replies.packets.flatMap encodeResp).length)
    (hbytes : pre.flatten ++ last = replies.packets.flatMap encodeResp ++ rest) :
    OptionalMultiHintState.produce (.single ()) 0 = (true, 1) ∧
    (∀ v : List Unit, OptionalMultiHintState.produce (.multi v) 0 = (true, v.length + 2)) ∧
    (∀ hint, OptionalMultiHintState.consume (OptionalMultiHintState.produce hint 0).2 = (some hint, 0)) ∧
    ∃ state, OptionalMultiPacketEncoder.encode encodePacket req 0 = .ok (req.packets.flatMap encodePacket, state) ∧
      OptionalMultiPacketDecoder.decodeChunks respVecPacket (pre ++ [last]) .new state [] =
        some (List.replicate pre.length (.ok none) ++ [.ok (some replies)], .new, 0, rest) := by
  refine ⟨rfl, fun _ => rfl, OptionalMultiHintState.consume_produce, _,
    OptionalMultiPacketEncoder.encode_idle encodePacket req, ?_⟩
  rw [hshape]
  exact (OptionalMultiPacketDecoder.inFlight_start hne).decodeChunks
    (fun _ hv rest => respVecPacket_encode hv rest) (fun _ hv _ hp hlt => respVecPacket_of_cut hv hp hlt)
    hsend last rest pre _ _ [] [] (by rw [List.nil_append]; exact hbytes) (by rw [List.nil_append]; exact hshort)

/-- Two PINGs written as a batch. -/
def pingBatch : OptionalMulti (Resp (List UInt8)) :=
  .multi [.arr [.bulk (.str [80, 73, 78, 71])], .arr [.bulk (.str [80, 73, 78, 71])]]

/-- Their replies, OK and 1. -/
def pingReplies : OptionalMulti (Resp (List UInt8)) := .multi [.simple [79, 75], .integer [49]]

/-- The replies cut inside the first one and after the first byte of the
second, with one byte of what follows in the last chunk. -/
theorem decodeChunks_regroups_replies_pingBatch :
    ∃ state, OptionalMultiPacketEncoder.encode encodeResp pingBatch 0 =
        .ok (pingBatch.packets.flatMap encodeResp, state) ∧
      OptionalMultiPacketDecoder.decodeChunks respVecPacket ([[43, 79], [75, 13, 10, 58]] ++ [[49, 13, 10, 43]])
          .new state [] =
        some (List.replicate 2 (.ok none) ++ [.ok (some pingReplies)], .new, 0, [43]) := by
  have hsend : ∀ r ∈ pingReplies.packets, r.Sendable := by
    intro r hr
    simp only [pingReplies, OptionalMulti.packets, List.mem_cons, List.not_mem_nil, or_false] at hr
    rcases hr with rfl | rfl
    · exact .simple (by decide)
    · exact .integer (by decide)
  exact (decodeChunks_regroups_replies encodeResp pingBatch pingReplies (by decide)
    (by simp [pingReplies, OptionalMulti.packets]) hsend [[43, 79], [75, 13, 10, 58]] [49, 13, 10, 43] [43]
    (by decide) (by decide)).2.2.2

end Undermoon
