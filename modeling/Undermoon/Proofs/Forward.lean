import Undermoon.Proxy.Command

/-!
# Forwarding keeps the command

A proxy that passes a command on wraps it in `UMFORWARD <times>`, writes it
out with `encode_resp`, and the peer parses it back and strips the two
strings again. The command the peer ends up with has the client's elements,
and so everything `Command::new` read off the client's packet.

Two facts carry it. What a command reads off a packet depends only on the
value the packet holds (`RespPacket.getArrayElement_of_toRespVec`): an
indexed packet and the data it resolves to answer `get_array_len` and
`get_array_element` alike, so `CommandInfo::new` gives one answer for both
(`CommandInfo.new_congr`). And on an array, wrapping puts the strings in
front and trimming takes as many off the front again
(`RespPacket.wrapCmd_of_arr`, `RespPacket.leftTrimCmd_of_arr`); the wire in
between is the round trip of the RESP codec (`parseIndexedResp_encode`).
-/

namespace Undermoon

/-- A client's command: an array of bulk strings. -/
def commandResp (elems : List (List UInt8)) : Resp (List UInt8) := .arr (elems.map fun s => .bulk (.str s))

theorem commandResp_append (pre elems : List (List UInt8)) :
    commandResp (pre ++ elems) = .arr (pre.map (fun s => .bulk (.str s)) ++ elems.map fun s => .bulk (.str s)) := by
  rw [commandResp, List.map_append]

theorem bulkElement_commandResp (elems : List (List UInt8)) (i : Nat) :
    (commandResp elems).bulkElement i = elems[i]? := by
  rw [commandResp, Resp.bulkElement, List.getElem?_map]
  cases elems[i]? <;> rfl

theorem arrayLen_commandResp (elems : List (List UInt8)) : (commandResp elems).arrayLen = some elems.length := by
  rw [commandResp, Resp.arrayLen, List.length_map]

/-- A command the proxy holds can be sent: a `Vec` holds fewer than `2^63`
bytes. -/
theorem sendable_commandResp {elems : List (List UInt8)} (hsize : ∀ e ∈ elems, e.length < 2 ^ 63)
    (hlen : elems.length < 2 ^ 63) : (commandResp elems).Sendable := by
  refine .arr (by rw [List.length_map]; exact hlen) fun e he => ?_
  obtain ⟨s, hs, rfl⟩ := List.mem_map.mp he
  exact .bulkStr (hsize s hs)

/-! ## A packet is read by the value it holds -/

namespace RespPacket

variable {p : RespPacket} {v : Resp (List UInt8)}

theorem getArrayElement_of_toRespVec (h : p.toRespVec = some v) (i : Nat) :
    p.getArrayElement i = some (v.bulkElement i) := by
  cases p with
  | indexed r => exact IndexedResp.getArrayElement_of_toRespVec h i
  | data resp =>
      cases h
      rfl

/-- A packet and the data it holds are read alike. -/
theorem getArrayElement_eq_data (h : p.toRespVec = some v) (i : Nat) :
    p.getArrayElement i = (data v).getArrayElement i :=
  getArrayElement_of_toRespVec h i

theorem getArrayLen_of_toRespVec (h : p.toRespVec = some v) : p.getArrayLen = v.arrayLen := by
  cases p with
  | indexed r => exact IndexedResp.getArrayLen_of_toRespVec h
  | data resp =>
      cases h
      rfl

/-- On an array, wrapping puts the strings in front of its elements, and the
packet becomes data. -/
theorem wrapCmd_of_arr {resps : List (Resp (List UInt8))} (h : p.toRespVec = some (.arr resps))
    (pre : List (List UInt8)) :
    p.wrapCmd pre = some (data (.arr (pre.map (fun s => .bulk (.str s)) ++ resps)), true) := by
  cases p with
  | indexed r =>
      have hr : r.toRespVec = some (.arr resps) := h
      rw [wrapCmd, hr, Option.map_some]
      rfl
  | data resp =>
      cases h
      rfl

theorem leftTrimArray_arr {α : Type} (resps : List (Resp α)) (n : Nat) :
    leftTrimArray (.arr resps) n = (.arr (resps.drop n), some (resps.length - n)) := by
  have hdrop : resps.drop (min n resps.length) = resps.drop n := by
    rcases Nat.le_total n resps.length with hle | hge
    · rw [Nat.min_eq_left hle]
    · rw [Nat.min_eq_right hge, List.drop_length, List.drop_eq_nil_of_le hge]
  simp only [leftTrimArray, hdrop, List.length_drop]

/-- On an array, trimming takes elements off its front, and the packet
becomes data. -/
theorem leftTrimCmd_of_arr {resps : List (Resp (List UInt8))} (h : p.toRespVec = some (.arr resps)) (n : Nat) :
    p.leftTrimCmd n = some (data (.arr (resps.drop n)), some (resps.length - n)) := by
  cases p with
  | indexed r =>
      have hr : r.toRespVec = some (.arr resps) := h
      rw [leftTrimCmd, hr, Option.map_some, leftTrimArray_arr]
  | data resp =>
      cases h
      rw [leftTrimCmd, leftTrimArray_arr]

/-- The peer parses what a sendable value was written as into an indexed
packet that holds the value. -/
theorem decode_encodeResp (hv : v.Sendable) (rest : List UInt8) :
    decode (encodeResp v ++ rest) = some (.ok (some (indexed ⟨v.indexOf, encodeResp v⟩, rest))) := by
  simp [decode, IndexedResp.decode, parseIndexedResp_encode hv, Except.map]

end RespPacket

/-! ## What a command reads off its packet -/

namespace CommandInfo

variable {p q : RespPacket}

theorem getKey_congr (h : ∀ i, p.getArrayElement i = q.getArrayElement i) (dataCmdType : DataCmdType) :
    getKey dataCmdType p = getKey dataCmdType q := by
  unfold getKey
  split <;> exact h _

/-- Everything `CommandInfo::new` reads, it reads by `get_array_element`. -/
theorem new_congr (h : ∀ i, p.getArrayElement i = q.getArrayElement i) : new p = new q := by
  simp only [new, CmdType.fromPacket, DataCmdType.fromPacket, getKey_congr h, h]

/-- What `CommandInfo::new` found, when it did not panic. -/
theorem new_eq_some {info : CommandInfo} (h : new p = some info) :
    CmdType.fromPacket p = some info.cmdType ∧ DataCmdType.fromPacket p = some info.dataCmdType ∧
      ∃ key, getKey info.dataCmdType p = some key ∧ info.slot = key.map generateSlot := by
  simp only [new, Option.bind_eq_bind] at h
  obtain ⟨cmdType, hc, h⟩ := Option.bind_eq_some_iff.mp h
  obtain ⟨dataCmdType, hd, h⟩ := Option.bind_eq_some_iff.mp h
  obtain ⟨key, hk, h⟩ := Option.bind_eq_some_iff.mp h
  cases h
  exact ⟨hc, hd, key, hk, rfl⟩

theorem getKey_data (dataCmdType : DataCmdType) (v : Resp (List UInt8)) :
    ∃ key, getKey dataCmdType (.data v) = some key := by
  unfold getKey
  split <;> exact ⟨_, rfl⟩

/-- Data never panics. -/
theorem new_data_isSome (v : Resp (List UInt8)) : (new (.data v)).isSome := by
  obtain ⟨cmdType, hc⟩ : ∃ c, CmdType.fromPacket (.data v) = some c := ⟨_, rfl⟩
  obtain ⟨dataCmdType, hd⟩ : ∃ d, DataCmdType.fromPacket (.data v) = some d := ⟨_, rfl⟩
  obtain ⟨key, hk⟩ := getKey_data dataCmdType v
  simp only [new, hc, hd, hk, Option.bind_eq_bind, Option.bind_some, Option.isSome_some]

end CommandInfo

theorem CmdType.fromPacket_of_toRespVec {p : RespPacket} {name : List UInt8} {args : List (List UInt8)}
    (h : p.toRespVec = some (commandResp (name :: args))) : fromPacket p = some (fromCmdName name) := by
  rw [fromPacket, RespPacket.getArrayElement_of_toRespVec h, bulkElement_commandResp]
  rfl

namespace Command

variable {p : RespPacket} {v : Resp (List UInt8)} {c : Command}

theorem new_eq_some (h : new p = some c) : c.request = p ∧ CommandInfo.new p = some c.info := by
  obtain ⟨info, hinfo, rfl⟩ := Option.map_eq_some_iff.mp h
  exact ⟨rfl, hinfo⟩

/-- A packet that holds a value makes a command: its information is that of
the data it holds. -/
theorem new_of_toRespVec (h : p.toRespVec = some v) :
    ∃ c, new p = some c ∧ c.request = p ∧ CommandInfo.new (.data v) = some c.info := by
  have hsame := CommandInfo.new_congr (RespPacket.getArrayElement_eq_data h)
  obtain ⟨info, hinfo⟩ := Option.isSome_iff_exists.mp (CommandInfo.new_data_isSome v)
  refine ⟨⟨p, info⟩, ?_, rfl, hinfo⟩
  rw [new, hsame, hinfo, Option.map_some]

/-- On an array, `wrap_cmd` succeeds, and the command reads its information
off the wrapped array. -/
theorem wrapCmd_of_arr {resps : List (Resp (List UInt8))} (h : c.request.toRespVec = some (.arr resps))
    (pre : List (List UInt8)) :
    ∃ c', c.wrapCmd pre = some (c', true) ∧
      c'.request = .data (.arr (pre.map (fun s => .bulk (.str s)) ++ resps)) ∧
      CommandInfo.new c'.request = some c'.info := by
  obtain ⟨info, hinfo⟩ := Option.isSome_iff_exists.mp
    (CommandInfo.new_data_isSome (.arr (pre.map (fun s => .bulk (.str s)) ++ resps)))
  refine ⟨⟨_, info⟩, ?_, rfl, hinfo⟩
  simp only [wrapCmd, RespPacket.wrapCmd_of_arr h, hinfo, Option.bind_eq_bind, Option.bind_some,
    Bool.not_true, Bool.false_eq_true, if_false]

/-- On an array, `extract_inner_cmd` takes the elements off its front, and
the command reads its information off what is left. -/
theorem extractInnerCmd_of_arr {resps : List (Resp (List UInt8))} (h : c.request.toRespVec = some (.arr resps))
    (removedNum : Nat) :
    ∃ c', c.extractInnerCmd removedNum = some (c', some (resps.length - removedNum)) ∧
      c'.request = .data (.arr (resps.drop removedNum)) ∧ CommandInfo.new c'.request = some c'.info := by
  obtain ⟨info, hinfo⟩ := Option.isSome_iff_exists.mp (CommandInfo.new_data_isSome (.arr (resps.drop removedNum)))
  refine ⟨⟨_, info⟩, ?_, rfl, hinfo⟩
  simp only [extractInnerCmd, RespPacket.leftTrimCmd_of_arr h, hinfo, Option.bind_eq_bind, Option.bind_some]

/-- A command whose packet holds a client's command has its elements. -/
theorem elements_of_toRespVec {elems : List (List UInt8)} (h : c.request.toRespVec = some (commandResp elems)) :
    c.getCommandLen = some elems.length ∧ ∀ i, c.getCommandElement i = some elems[i]? := by
  refine ⟨?_, fun i => ?_⟩
  · rw [getCommandLen, RespPacket.getArrayLen_of_toRespVec h, arrayLen_commandResp]
  · rw [getCommandElement, RespPacket.getArrayElement_of_toRespVec h, bulkElement_commandResp]

end Command

/-! ## The forward -/

/-- `UMFORWARD` and a `usize` in decimal fit in a `Vec`. -/
theorem umforwardElements_length_lt {times : Nat} (h : times < 2 ^ 64) :
    ∀ e ∈ umforwardElements times, e.length < 2 ^ 63 := by
  have hl : (toString times).toList = Nat.toDigits 10 times := Nat.toList_repr
  have hd : (Nat.toDigits 10 times).length ≤ 20 :=
    Nat.toDigits_length 10 times 20 (by decide) (lt_trans h (by decide))
  intro e he
  simp only [umforwardElements, List.mem_cons, List.mem_nil_iff, or_false] at he
  rcases he with rfl | rfl
  · decide
  · rw [bytesOf, List.length_map, hl]
    omega

/-- A command wrapped in `UMFORWARD <times>`, written out and parsed back by
the peer is taken there for an `UMFORWARD`, and its `extract_inner_cmd(2)`
leaves the client's elements and everything `Command::new` read off them:
the command's type, the data command's type, the key and the slot. The
client's packet may be indexed or data, and the two forms of a packet are
read alike throughout. The elements and their number fit in a `Vec`, and
`times` in a `usize`. -/
theorem umforward_keeps_command (elems : List (List UInt8)) (p : RespPacket)
    (hp : p.toRespVec = some (commandResp elems))
    (hsize : ∀ e ∈ elems, e.length < 2 ^ 63) (hlen : elems.length + 2 < 2 ^ 63)
    (times : Nat) (htimes : times < 2 ^ 64) (rest : List UInt8) :
    (∀ (q : RespPacket) (v : Resp (List UInt8)), q.toRespVec = some v →
      q.getArrayLen = (RespPacket.data v).getArrayLen ∧
      ∀ i, q.getArrayElement i = (RespPacket.data v).getArrayElement i) ∧
    ∃ cmd wrapped r peer inner,
      Command.new p = some cmd ∧ cmd.getCommandLen = some elems.length ∧
      (∀ i, cmd.getCommandElement i = some elems[i]?) ∧
      cmd.wrapCmd (umforwardElements times) = some (wrapped, true) ∧
      wrapped.request = .data (commandResp (umforwardElements times ++ elems)) ∧
      RespPacket.decode (wrapped.request.encode ++ rest) = some (.ok (some (.indexed r, rest))) ∧
      Command.new (.indexed r) = some peer ∧ peer.getType = .umForward ∧
      peer.getCommandLen = some (elems.length + 2) ∧
      (∀ i, peer.getCommandElement i = some (umforwardElements times ++ elems)[i]?) ∧
      peer.extractInnerCmd 2 = some (inner, some elems.length) ∧
      inner.getCommandLen = some elems.length ∧ (∀ i, inner.getCommandElement i = some elems[i]?) ∧
      inner.getType = cmd.getType ∧ inner.getDataCmdType = cmd.getDataCmdType ∧
      inner.getKey = cmd.getKey ∧ inner.getSlot = cmd.getSlot := by
  set pre := umforwardElements times with hpre
  have hpre2 : pre.length = 2 := rfl
  -- the client's command
  obtain ⟨cmd, hcmd, hreq, hinfo⟩ := Command.new_of_toRespVec hp
  have hcmdHolds : cmd.request.toRespVec = some (commandResp elems) := by rw [hreq]; exact hp
  -- wrapped, and written out as data
  obtain ⟨wrapped, hwrap, hwreq, -⟩ := Command.wrapCmd_of_arr hcmdHolds pre
  rw [← commandResp_append] at hwreq
  have hsend : (commandResp (pre ++ elems)).Sendable := by
    refine sendable_commandResp (fun e he => ?_) (by rw [List.length_append, hpre2]; omega)
    rcases List.mem_append.mp he with hin | hin
    · exact umforwardElements_length_lt htimes e hin
    · exact hsize e hin
  -- parsed back on the peer into an indexed packet
  let r : IndexedResp := ⟨(commandResp (pre ++ elems)).indexOf, encodeResp (commandResp (pre ++ elems))⟩
  have hr : (RespPacket.indexed r).toRespVec = some (commandResp (pre ++ elems)) := toRespVec_encode _
  obtain ⟨peer, hpeer, hpreq, hpinfo⟩ := Command.new_of_toRespVec hr
  have hpeerHolds : peer.request.toRespVec = some (commandResp (pre ++ elems)) := by rw [hpreq]; exact hr
  have htype : peer.getType = .umForward := by
    have hname : CmdType.fromPacket (.data (commandResp (pre ++ elems))) =
        some (CmdType.fromCmdName (bytesOf "UMFORWARD")) := CmdType.fromPacket_of_toRespVec rfl
    rw [(CommandInfo.new_eq_some hpinfo).1] at hname
    rw [Command.getType, Option.some.inj hname]
    decide
  -- the two strings taken off again
  have hparr : peer.request.toRespVec =
      some (.arr (pre.map (fun s => .bulk (.str s)) ++ elems.map fun s => .bulk (.str s))) := by
    rw [hpeerHolds, commandResp_append]
  obtain ⟨inner, hinner, hireq, hiinfo⟩ := Command.extractInnerCmd_of_arr hparr 2
  have hdrop : (pre.map (fun s => Resp.bulk (.str s)) ++ elems.map fun s => Resp.bulk (.str s)).drop 2 =
      elems.map fun s => Resp.bulk (.str s) :=
    List.drop_left' (by rw [List.length_map, hpre2])
  have hremaining : (pre.map (fun s => Resp.bulk (.str s)) ++ elems.map fun s => Resp.bulk (.str s)).length - 2 =
      elems.length := by
    rw [List.length_append, List.length_map, List.length_map, hpre2]
    omega
  rw [hdrop] at hireq
  have hinnerHolds : inner.request.toRespVec = some (commandResp elems) := by rw [hireq]; rfl
  -- what the inner command reads is what the client's read
  have hsame : inner.info = cmd.info := by
    rw [hireq] at hiinfo
    exact Option.some.inj (hiinfo.symm.trans hinfo)
  have hkey : inner.getKey = cmd.getKey := by
    rw [Command.getKey, Command.getKey, Command.getDataCmdType, Command.getDataCmdType, hsame]
    exact CommandInfo.getKey_congr (fun i => by
      rw [RespPacket.getArrayElement_eq_data hinnerHolds, RespPacket.getArrayElement_eq_data hcmdHolds]) _
  obtain ⟨hcmdLen, hcmdElem⟩ := Command.elements_of_toRespVec hcmdHolds
  obtain ⟨hpeerLen, hpeerElem⟩ := Command.elements_of_toRespVec hpeerHolds
  obtain ⟨hinnerLen, hinnerElem⟩ := Command.elements_of_toRespVec hinnerHolds
  rw [List.length_append, hpre2, Nat.add_comm] at hpeerLen
  rw [hremaining] at hinner
  refine ⟨fun q v hq => ⟨RespPacket.getArrayLen_of_toRespVec hq, RespPacket.getArrayElement_eq_data hq⟩,
    cmd, wrapped, r, peer, inner, hcmd, hcmdLen, hcmdElem, hwrap, hwreq, ?_, hpeer, htype, hpeerLen,
    hpeerElem, hinner, hinnerLen, hinnerElem, ?_, ?_, hkey, ?_⟩
  · rw [hwreq]
    exact RespPacket.decode_encodeResp hsend rest
  · rw [Command.getType, Command.getType, hsame]
  · rw [Command.getDataCmdType, Command.getDataCmdType, hsame]
  · rw [Command.getSlot, Command.getSlot, hsame]

/-- The command of the source's own test. -/
def getSomekey : List (List UInt8) := [bytesOf "GET", bytesOf "somekey"]

/-- `GET somekey`, forwarded with `233` redirections left, is a `GET` of the
same slot on the peer. -/
theorem umforward_keeps_command_getSomekey :
    ∃ cmd wrapped r peer inner,
      Command.new (.data (commandResp getSomekey)) = some cmd ∧ cmd.getDataCmdType = .get ∧
      cmd.wrapCmd (umforwardElements 233) = some (wrapped, true) ∧
      RespPacket.decode (wrapped.request.encode ++ []) = some (.ok (some (.indexed r, []))) ∧
      Command.new (.indexed r) = some peer ∧ peer.getType = .umForward ∧
      peer.extractInnerCmd 2 = some (inner, some 2) ∧ inner.getDataCmdType = .get ∧
      inner.getSlot = cmd.getSlot := by
  have hsize : ∀ e ∈ getSomekey, e.length < 2 ^ 63 := by decide
  obtain ⟨-, cmd, wrapped, r, peer, inner, hcmd, -, -, hwrap, -, hdec, hpeer, htype, -, -, hinner, -, -, -,
    hdata, -, hslot⟩ := umforward_keeps_command getSomekey (.data (commandResp getSomekey)) rfl hsize
      (by decide) 233 (by decide) []
  have hget : (Command.new (.data (commandResp getSomekey))).map Command.getDataCmdType = some .get := by
    decide +kernel
  rw [hcmd, Option.map_some] at hget
  have hget := Option.some.inj hget
  exact ⟨cmd, wrapped, r, peer, inner, hcmd, hget, hwrap, hdec, hpeer, htype, hinner, hdata.trans hget, hslot⟩

end Undermoon
