import Undermoon.Common.Range
import Undermoon.Protocol.Packet
import Undermoon.Proofs.Codec

/-!
# Commands and their forwarding

`proxy/command.rs`, with the parts of `protocol/packet.rs` and
`common/utils.rs` it calls. A request is a `RespPacket`: the value as the
client's bytes were parsed (`Indexed`), or a value the proxy built or changed
(`Data`). A `Command` keeps the packet and what the proxy reads off it once
(`CommandInfo`): the type of the command from its name, the type of the data
command, and the slot of its key.

A proxy that does not own a slot may pass a command on to the peer that does
(`send_cmd_ctx_to_remote_directly`, `proxy/manager.rs`): it wraps the command
in `UMFORWARD <redirection times>` (`wrap_cmd`), and the peer takes the two
strings off again (`extract_inner_cmd(2)`). Both edit the packet as `Data`, so
an indexed packet is resolved first.

`get_command_len` and `get_command_element` of `common/utils.rs` are
`Resp.arrayLen` and `Resp.bulkElement`. The `expect`s of the indexed accessors
are the outer `none` of what they return, and so is every panic that reaches a
caller. The slot hash is CRC-16/XMODEM, what the `crc16` crate's
`State::<XMODEM>` computes, written here bit by bit rather than by its table.
-/

namespace Undermoon

/-- The ASCII bytes of a string. -/
def bytesOf (s : String) : List UInt8 := s.toList.map byte

/-! ## Packets -/

/-- `RespPacket`. -/
inductive RespPacket where
  | indexed (r : IndexedResp)
  | data (resp : Resp (List UInt8))

/-- `left_trim_array`: an array without its first `removedNum` elements, and
how many are left; anything else stays as it is. -/
def leftTrimArray {α : Type} (resp : Resp α) (removedNum : Nat) : Resp α × Option Nat :=
  match resp with
  | .arr resps =>
      let start := min removedNum resps.length
      let resps := resps.drop start
      (.arr resps, some resps.length)
  | _ => (resp, none)

/-- `array_append_front`: bulk strings in front of an array's elements, and
whether it was an array. -/
def arrayAppendFront (resp : Resp (List UInt8)) (precedingElements : List (List UInt8)) :
    Resp (List UInt8) × Bool :=
  match resp with
  | .arr resps => (.arr (precedingElements.map (fun s => .bulk (.str s)) ++ resps), true)
  | _ => (resp, false)

namespace RespPacket

/-- `to_resp_vec`. -/
def toRespVec : RespPacket → Option (Resp (List UInt8))
  | indexed r => r.toRespVec
  | data resp => some resp

/-- `get_array_element`. -/
def getArrayElement (p : RespPacket) (index : Nat) : Option (Option (List UInt8)) :=
  match p with
  | indexed r => r.getArrayElement index
  | data resp => some (resp.bulkElement index)

/-- `get_array_len`. -/
def getArrayLen : RespPacket → Option Nat
  | indexed r => r.getArrayLen
  | data resp => resp.arrayLen

/-- `left_trim_cmd`: the packet after, and what `left_trim_array` returned.
An indexed packet becomes data only when it was an array. -/
def leftTrimCmd (p : RespPacket) (removedNum : Nat) : Option (RespPacket × Option Nat) :=
  match p with
  | indexed r => r.toRespVec.map fun resp =>
      match leftTrimArray resp removedNum with
      | (resp, some remaining) => (data resp, some remaining)
      | (_, none) => (p, none)
  | data resp =>
      let (resp, remaining) := leftTrimArray resp removedNum
      some (data resp, remaining)

/-- `RespPacket::wrap_cmd`: the packet after, and whether it was an array.
An indexed packet becomes data only when it was one. -/
def wrapCmd (p : RespPacket) (precedingElements : List (List UInt8)) : Option (RespPacket × Bool) :=
  match p with
  | indexed r => r.toRespVec.map fun resp =>
      match arrayAppendFront resp precedingElements with
      | (resp, true) => (data resp, true)
      | (_, false) => (p, false)
  | data resp =>
      let (resp, success) := arrayAppendFront resp precedingElements
      some (data resp, success)

/-- `EncodedPacket for RespPacket`: an indexed packet is written as the bytes
it was parsed from, data by `encode_resp`. -/
def encode : RespPacket → List UInt8
  | indexed r => r.data
  | data resp => encodeResp resp

/-- `DecodedPacket for RespPacket`: an indexed packet off the front of the
bytes. -/
def decode (buf : List UInt8) : Option (Except DecodeError (Option (RespPacket × List UInt8))) :=
  (IndexedResp.decode buf).map (Except.map (Option.map fun (r, rest) => (indexed r, rest)))

end RespPacket

/-! ## Slots -/

/-- `get_hash_tag`: what lies between the first opening brace and the first
closing one after it, when that is not empty; the whole key otherwise. -/
def getHashTag (key : List UInt8) : List UInt8 :=
  -- the bytes of the two braces
  match key.findIdx? (· == 123) with
  | none => key
  | some start =>
      let tail := key.drop (start + 1)
      match tail.findIdx? (· == 125) with
      | none => key
      | some endOffset => if endOffset = 0 then key else tail.take endOffset

/-- One shift of the CRC register: the polynomial `0x1021` is fed back when
the top bit falls out. -/
def crc16Shift (crc : UInt16) : UInt16 :=
  if crc &&& 0x8000 = 0 then crc <<< 1 else (crc <<< 1) ^^^ 0x1021

/-- A byte into the register, high bit first. -/
def crc16Byte (crc : UInt16) (b : UInt8) : UInt16 :=
  Nat.repeat crc16Shift 8 (crc ^^^ (b.toUInt16 <<< 8))

/-- `State::<XMODEM>::calculate`: CRC-16/XMODEM, from zero, with no
reflection and no final xor. -/
def crc16Xmodem (data : List UInt8) : UInt16 := data.foldl crc16Byte 0

example : crc16Xmodem (bytesOf "123456789") = 0x31C3 := by decide +kernel

/-- `generate_slot`. -/
def generateSlot (key : List UInt8) : Nat := (crc16Xmodem (getHashTag key)).toNat % slotNum

example : generateSlot (bytesOf "foo") = 12182 := by decide +kernel

example : generateSlot (bytesOf "a{foo}b") = generateSlot (bytesOf "foo") := by decide +kernel

/-! ## Command types -/

/-- `MAX_COMMAND_NAME_LENGTH`. -/
def maxCommandNameLength : Nat := 64

/-- `byte_to_uppercase`. -/
def byteToUppercase (b : UInt8) : UInt8 :=
  if byte 'a' ≤ b ∧ b ≤ byte 'z' then b - (byte 'a' - byte 'A') else b

/-- What both `from_cmd_name`s do: the name is upper-cased into a stack
buffer of `MAX_COMMAND_NAME_LENGTH` bytes, which a longer name overflows into
`others`, and then matched against the names of a table. -/
def fromCmdNameWith {α : Type} (table : List (String × α)) (others : α) (cmdName : List UInt8) : α :=
  if maxCommandNameLength < cmdName.length then others
  else
    let upper := cmdName.map byteToUppercase
    match table.find? fun (name, _) => bytesOf name = upper with
    | some (_, t) => t
    | none => others

/-- `CmdType`. -/
inductive CmdType where
  | ping | info | auth | quit | echo | select | others | invalid | umCtl | umForward | umSync
  | cluster | config | command | asking | hello
deriving DecidableEq, Repr

/-- The names `CmdType::from_cmd_name` matches. -/
def cmdTypeNames : List (String × CmdType) :=
  [("PING", .ping), ("INFO", .info), ("AUTH", .auth), ("QUIT", .quit), ("ECHO", .echo),
    ("SELECT", .select), ("UMCTL", .umCtl), ("UMFORWARD", .umForward), ("UMSYNC", .umSync),
    ("CLUSTER", .cluster), ("CONFIG", .config), ("COMMAND", .command), ("ASKING", .asking),
    ("HELLO", .hello)]

/-- `CmdType::from_cmd_name`. -/
def CmdType.fromCmdName (cmdName : List UInt8) : CmdType := fromCmdNameWith cmdTypeNames .others cmdName

/-- `CmdType::from_packet`: a packet with no name is `Invalid`. -/
def CmdType.fromPacket (p : RespPacket) : Option CmdType :=
  (p.getArrayElement 0).map fun
    | none => .invalid
    | some cmdName => fromCmdName cmdName

example : CmdType.fromCmdName (bytesOf "pInG") = .ping ∧ CmdType.fromCmdName (bytesOf "get") = .others := by
  decide

/-- `DataCmdType`. -/
inductive DataCmdType where
  | append | bitcount | bitfield | bitop | bitpos | decr | decrby | get | getbit | getrange | getset
  | incr | incrby | incrbyfloat | mget | mset | msetnx | psetex | set | setbit | setex | setnx
  | setrange | strlen | eval | evalsha | del | «exists»
  | blpop | brpop | brpoplpush | lpop | rpop | rpoplpush | lrem | ltrim
  | hdel
  | smove | spop | srem
  | zpopmax | zpopmin | zrem | zremrangebylex | zremrangebyrank | zremrangebyscore | bzpopmin | bzpopmax
  | expire | expireat | pexpire | pexpireat | move | rename | renamenx | unlink
  | others
deriving DecidableEq, Repr

/-- The names `DataCmdType::from_cmd_name` matches. -/
def dataCmdTypeNames : List (String × DataCmdType) :=
  [("APPEND", .append), ("BITCOUNT", .bitcount), ("BITFIELD", .bitfield), ("BITOP", .bitop),
    ("BITPOS", .bitpos), ("DECR", .decr), ("DECRBY", .decrby), ("GET", .get), ("GETBIT", .getbit),
    ("GETRANGE", .getrange), ("GETSET", .getset), ("INCR", .incr), ("INCRBY", .incrby),
    ("INCRBYFLOAT", .incrbyfloat), ("MGET", .mget), ("MSET", .mset), ("MSETNX", .msetnx),
    ("PSETEX", .psetex), ("SET", .set), ("SETBIT", .setbit), ("SETEX", .setex), ("SETNX", .setnx),
    ("SETRANGE", .setrange), ("STRLEN", .strlen), ("EVAL", .eval), ("EVALSHA", .evalsha),
    ("DEL", .del), ("EXISTS", .exists), ("BLPOP", .blpop), ("BRPOP", .brpop),
    ("BRPOPLPUSH", .brpoplpush), ("EXPIRE", .expire), ("EXPIREAT", .expireat),
    ("PEXPIRE", .pexpire), ("PEXPIREAT", .pexpireat), ("HDEL", .hdel), ("LPOP", .lpop),
    ("RPOP", .rpop), ("RPOPLPUSH", .rpoplpush), ("LREM", .lrem), ("LTRIM", .ltrim), ("MOVE", .move),
    ("RENAME", .rename), ("RENAMENX", .renamenx), ("SMOVE", .smove), ("SPOP", .spop),
    ("SREM", .srem), ("UNLINK", .unlink), ("ZPOPMAX", .zpopmax), ("ZPOPMIN", .zpopmin),
    ("BZPOPMAX", .bzpopmax), ("BZPOPMIN", .bzpopmin), ("ZREM", .zrem),
    ("ZREMRANGEBYLEX", .zremrangebylex), ("ZREMRANGEBYRANK", .zremrangebyrank),
    ("ZREMRANGEBYSCORE", .zremrangebyscore)]

/-- `DataCmdType::from_cmd_name`. -/
def DataCmdType.fromCmdName (cmdName : List UInt8) : DataCmdType :=
  fromCmdNameWith dataCmdTypeNames .others cmdName

/-- `DataCmdType::from_packet`: a packet with no name is `Others`. -/
def DataCmdType.fromPacket (p : RespPacket) : Option DataCmdType :=
  (p.getArrayElement 0).map fun
    | none => .others
    | some cmdName => fromCmdName cmdName

example : DataCmdType.fromCmdName (bytesOf "aPPend") = .append ∧ DataCmdType.fromCmdName (bytesOf "eVaL") = .eval ∧
    DataCmdType.fromCmdName (bytesOf "HMGET") = .others := by
  decide

/-! ## Commands -/

/-- `CommandInfo`. -/
structure CommandInfo where
  cmdType : CmdType
  dataCmdType : DataCmdType
  slot : Option Nat
deriving DecidableEq, Repr

namespace CommandInfo

/-- `CommandInfo::get_key`: the fourth element of a script, the second of
anything else. -/
def getKey (dataCmdType : DataCmdType) (p : RespPacket) : Option (Option (List UInt8)) :=
  match dataCmdType with
  | .eval | .evalsha => p.getArrayElement 3
  | _ => p.getArrayElement 1

/-- `CommandInfo::new`. -/
def new (p : RespPacket) : Option CommandInfo := do
  let cmdType ← CmdType.fromPacket p
  let dataCmdType ← DataCmdType.fromPacket p
  let key ← getKey dataCmdType p
  some ⟨cmdType, dataCmdType, key.map generateSlot⟩

end CommandInfo

/-- `Command`. -/
structure Command where
  request : RespPacket
  info : CommandInfo

namespace Command

/-- `Command::new`. -/
def new (request : RespPacket) : Option Command :=
  (CommandInfo.new request).map fun info => ⟨request, info⟩

/-- `get_command_element`. -/
def getCommandElement (c : Command) (index : Nat) : Option (Option (List UInt8)) :=
  c.request.getArrayElement index

/-- `get_command_len`. -/
def getCommandLen (c : Command) : Option Nat := c.request.getArrayLen

/-- `get_type`. -/
def getType (c : Command) : CmdType := c.info.cmdType

/-- `get_data_cmd_type`. -/
def getDataCmdType (c : Command) : DataCmdType := c.info.dataCmdType

/-- `Command::get_key`: read off the packet again, by the data command type
the command keeps. -/
def getKey (c : Command) : Option (Option (List UInt8)) := CommandInfo.getKey c.getDataCmdType c.request

/-- `get_slot`. -/
def getSlot (c : Command) : Option Nat := c.info.slot

/-- `extract_inner_cmd`: the packet trimmed and, when it was an array, its
information read again. -/
def extractInnerCmd (c : Command) (removedNum : Nat) : Option (Command × Option Nat) := do
  let (request, remaining) ← c.request.leftTrimCmd removedNum
  match remaining with
  | none => some ({ c with request := request }, none)
  | some remaining =>
      let info ← CommandInfo.new request
      some (⟨request, info⟩, some remaining)

/-- `Command::wrap_cmd`: the packet wrapped and, when it was an array, its
information read again. -/
def wrapCmd (c : Command) (precedingElements : List (List UInt8)) : Option (Command × Bool) := do
  let (request, success) ← c.request.wrapCmd precedingElements
  if !success then some ({ c with request := request }, false)
  else
    let info ← CommandInfo.new request
    some (⟨request, info⟩, true)

end Command

/-! ## Forwarding -/

/-- The strings `send_cmd_ctx_to_remote_directly` wraps a command in:
`UMFORWARD` and the redirections left, in decimal. -/
def umforwardElements (times : Nat) : List (List UInt8) := [bytesOf "UMFORWARD", bytesOf (toString times)]

/-- What `send_cmd_ctx_to_remote_directly` does with a command before it
sends it. -/
inductive ForwardResult where
  | send (cmd : Command)
  | tooManyRedirections
  | wrapFailed

/-- `send_cmd_ctx_to_remote_directly`, up to the send: the redirections the
command has left, or one less than the most the proxy allows, decide whether
it may go on, and the command is wrapped with one redirection less. -/
def sendCmdToRemoteDirectly (redirectionTimes : Option Nat) (maxRedirections : Option ℕ+) (cmd : Command) :
    Option ForwardResult :=
  match redirectionTimes.or (maxRedirections.map PNat.natPred) with
  | none => some (.send cmd)
  | some 0 => some .tooManyRedirections
  | some (times + 1) =>
      (cmd.wrapCmd (umforwardElements times)).map fun (cmd, res) =>
        if res then .send cmd else .wrapFailed

end Undermoon
