import Mathlib.Logic.Function.Basic
import Freemyipod.Lib.Runs

/-!
# Usb.Monitor

The debug monitor (`emcore/usb/usbdebug.c`): commands that the host sends in control transfers,
executed in the USB interrupt or by the thread `dbgthread`.

A buffer of words is a function of the index. What the functions called by a command return, and
what they leave in memory, is the step's argument `x`: word 1 is the return value, other words are
what the callee writes to the same word of the buffer. Memory that a command reads or writes
is not the monitor's own, and the ring from which READ CONSOLE is served is an argument too.
-/

namespace Freemyipod
namespace Usb
namespace Monitor

abbrev U32 := UInt32

abbrev Block := Nat → U32

namespace Block

def set (b : Block) (i : Nat) (v : U32) : Block := Function.update b i v

/-- Word 0 is `v`, the others as in `b`. -/
def status (b : Block) (v : U32) : Block := b.set 0 v

end Block

/-! ## The platform -/

inductive Target
  | ipodclassic
  | ipodnano2g
  | other
deriving DecidableEq

/-- What `target.h` defines, and addresses and numbers that are known when the code runs. -/
structure Machine where
  target : Target
  haveI2c : Bool
  haveBootflash : Bool
  haveHwkeyaes : Bool
  haveHmacsha1 : Bool
  haveStorage : Bool
  haveHotswap : Bool
  haveRtc : Bool
  revision : U32
  version : U32
  platformId : U32
  poolstart : U32
  poolend : U32
  headThread : U32
  /-- `&buf[4]` of `dbgthread` -/
  bufAddr : U32
  nandPages : U32
  nandBlocks : U32

/-- `usb_target_handle_request` of the iPod classic: `buf` after it, and `len`. -/
def classicRequest (x buf : Block) : Block × U32 :=
  if buf 0 = 0xffff0001 then (fun i => if i = 0 then 1 else if i < 8 then x i else buf i, 16)
  else if buf 0 = 0xffff0002 then ((buf.status 1).set 1 (x 1), 0)
  else if buf 0 = 0xffff0003 ∨ buf 0 = 0xffff0004 then (buf.status 1, 0)
  else (buf.status 2, 0)

/-- `usb_target_handle_request` of the iPod nano 2G. -/
def nano2gRequest (m : Machine) (x buf : Block) : Block × U32 :=
  if buf 0 = 0xffff0001 then
    (fun i => if i = 0 then 1 else if i ≤ 3 then x i else buf i, 0)
  else if buf 0 = 0xffff0002 ∨ buf 0 = 0xffff0003 then
    if m.nandPages < buf 2 + buf 3 then (buf.status 0xffff0001, 0) else (buf.status 1, 0)
  else if buf 0 = 0xffff0004 then
    if m.nandBlocks < buf 2 + buf 3 then (buf.status 0xffff0001, 0) else (buf.status 1, 0)
  else (buf.status 2, 0)

def targetRequest (m : Machine) (x buf : Block) : Block × U32 :=
  match m.target with
  | .other => (buf.status 2, 0)
  | .ipodclassic => classicRequest x buf
  | .ipodnano2g => nano2gRequest m x buf

/-- The `default` branch of `dbgthread`. -/
def otherRequest (m : Machine) (x buf : Block) : Block × U32 :=
  if 0xffff0000 ≤ buf 0 then targetRequest m x buf else (buf.status 2, 0)

/-- A branch that is compiled if `provided`, else its command gets the `default` branch. -/
def compiled (m : Machine) (x buf : Block) (provided : Bool) (branch : Block × U32) : Block × U32 :=
  if provided then branch else otherRequest m x buf

/-- `buf[0] = 1; f(..);` -/
def calls (buf : Block) : Block × U32 := (buf.status 1, 0)

/-- `buf[0] = 1; buf[1] = f(..);` -/
def returns (x buf : Block) : Block × U32 := ((buf.status 1).set 1 (x 1), 0)

/-- The same where a path in the block itself is passed if `buf[3]` is null. -/
def takesPath (m : Machine) (x buf : Block) : Block × U32 :=
  returns x (if buf 3 = 0 then buf.set 3 m.bufAddr else buf)

/-- EXECIMAGE: arguments in the block itself are relocated if `buf[3]` is null. -/
def execimage (m : Machine) (x buf : Block) : Block × U32 :=
  let argc := (buf 2 >>> 24).toNat
  returns x (if buf 3 = 0 then
    fun i => if i = 3 then m.bufAddr else if 4 ≤ i ∧ i < 4 + argc then buf i + m.bufAddr else buf i
  else buf)

/-- The switch of `dbgthread`: `buf` after it, and `len`; `none` if the device resets. -/
def work (m : Machine) (x buf : Block) : Option (Block × U32) :=
  match (buf 0).toNat with
  | 2 => none
  | 3 => some (calls buf)
  | 8 => some (compiled m x buf m.haveI2c
      (fun i => if i = 0 then 1 else if i < 4 then buf i else x i, buf 1 >>> 24))
  | 9 => some (compiled m x buf m.haveI2c (calls buf))
  | 12 => some (calls buf)
  | 13 => some (fun i => if i = 0 then 1 else if i = 1 ∨ 4 ≤ i then x i else buf i, 0)
  | 14 => some (calls buf)
  | 21 => some (execimage m x buf)
  | 22 | 23 => some (compiled m x buf m.haveBootflash (calls buf))
  | 24 => some (calls buf)
  | 25 => some (compiled m x buf m.haveHwkeyaes (calls buf))
  | 26 => some (compiled m x buf m.haveHmacsha1 (calls buf))
  | 27 => some (compiled m x buf m.haveStorage
      (fun i => if i = 0 ∨ i = 1 then 1 else if i < 4 then buf i else x i, 24))
  | 28 | 29 => some (compiled m x buf m.haveStorage (returns x buf))
  | 30 => some (compiled m x buf m.haveStorage (takesPath m x buf))
  | 31 | 32 | 33 | 34 | 35 | 36 | 37 | 38 | 39 =>
    some (compiled m x buf m.haveStorage (returns x buf))
  | 40 => some (compiled m x buf m.haveStorage (takesPath m x buf))
  | 41 => some (compiled m x buf m.haveStorage (returns x buf))
  | 42 => some (compiled m x buf m.haveStorage (takesPath m x buf))
  | 43 => some (compiled m x buf m.haveStorage
      ((((buf.status 1).set 3 (x 3)).set 1 1).set 2 260, 0))
  | 44 | 45 | 46 => some (compiled m x buf m.haveStorage (returns x buf))
  | 47 | 48 => some (compiled m x buf m.haveStorage (takesPath m x buf))
  | 49 => some (compiled m x buf m.haveStorage (returns x buf))
  | 50 | 51 => some (compiled m x buf (m.haveStorage && m.haveHotswap) (returns x buf))
  | 52 | 53 | 54 => some (returns x buf)
  | 55 | 56 => some (calls buf)
  | 57 => some (returns x buf)
  | 58 => some (compiled m x buf m.haveStorage (calls buf))
  | 59 => some (compiled m x buf m.haveStorage (((buf.status 1).set 1 (x 1)).set 2 (x 2), 0))
  | 60 => some (compiled m x buf m.haveRtc (((buf.status 1).set 1 (x 1)).set 2 (x 2), 0))
  | 61 => some (compiled m x buf m.haveRtc (calls buf))
  | _ => some (otherRequest m x buf)

/-! ## The state -/

inductive DbgState
  | idle
  | setup
  | writeMem
  | writeConsole
  | async
  | respond
  | readConsole
deriving DecidableEq

/-- The variables of `usbdebug.c`. -/
structure Dbg where
  dbgstate : DbgState
  dbgbusy : Bool
  dbgbuf : Block
  dbgmemaddr : U32
  dbgmemlen : U32
  dbgconrecvreadidx : Nat
  dbgconrecvwriteidx : Nat
  /-- `ep0_rx_callback` is `usbdebug_handle_data` -/
  receiving : Bool
  /-- `buf` of `dbgthread` while it executes a command -/
  worker : Option Block

/-- The last lines of `usbdebug_handle_data`. -/
def Dbg.respond (s : Dbg) : Dbg := { s with dbgstate := .respond }

/-- `return true` with the next packet on its way. -/
def Dbg.receive (s : Dbg) (dbgstate : DbgState) : Dbg :=
  { s with dbgstate := dbgstate, receiving := true }

def consoleSize : Nat := 1024

/-- `dbgconrecvreadidx - dbgconrecvwriteidx - 1` -/
def Dbg.conFree (s : Dbg) : Int := s.dbgconrecvreadidx - s.dbgconrecvwriteidx - 1

/-- `bytes` more bytes in the ring of received characters. -/
def Dbg.conReceive (s : Dbg) (bytes : Nat) : Dbg :=
  { s with
    dbgconrecvwriteidx :=
      if consoleSize ≤ s.dbgconrecvwriteidx + bytes then
        bytes - (consoleSize - s.dbgconrecvwriteidx)
      else s.dbgconrecvwriteidx + bytes }

def alreadySuspended : U32 := -4

def alreadyResumed : U32 := -5

/-- GET INFO -/
def getInfo (m : Machine) (dbgbuf buf : Block) : Block :=
  match (buf 1).toNat with
  | 0 => (((dbgbuf.status 1).set 1 m.revision).set 2 m.version).set 3 m.platformId
  | 1 => ((dbgbuf.status 1).set 1 m.poolstart).set 2 m.poolend
  | _ => dbgbuf.status 2

/-- SUSPEND THREAD: `x 1` is the return value of `thread_suspend` or `thread_resume`. -/
def suspendThread (x dbgbuf buf : Block) : Block :=
  (dbgbuf.set 1 (if buf 1 ≠ 0 then if x 1 = alreadySuspended then 1 else 0
    else if x 1 = alreadyResumed then 0 else 1)).status 1

def writeMemory (s : Dbg) (buf : Block) : Dbg :=
  let len := min 48 (buf 2)
  let s := { s with dbgmemaddr := buf 1, dbgmemlen := buf 2 - len }
  if s.dbgmemlen ≠ 0 then { s with dbgmemaddr := s.dbgmemaddr + len }.receive .writeMem
  else { s with dbgbuf := s.dbgbuf.status 1 }.respond

/-- How many bytes WRITE CONSOLE accepts. -/
def consoleTotal (s : Dbg) (buf : Block) : Nat :=
  let bytes := if s.conFree < 0 then s.conFree + consoleSize else s.conFree
  min bytes.toNat (buf 1).toNat

def writeConsole (s : Dbg) (buf : Block) : Dbg :=
  let total := consoleTotal s buf
  let s := s.conReceive (min 48 total)
  let dbgbuf := ((s.dbgbuf.status 1).set 1 (UInt32.ofNat total)).set 2 (UInt32.ofNat consoleSize)
  if 48 < total then
    { s with dbgbuf := dbgbuf, dbgmemlen := UInt32.ofNat (total - 48) }.receive .writeConsole
  else { s with dbgbuf := dbgbuf.set 3 (UInt32.ofInt s.conFree) }.respond

/-- The `default` branch: the thread gets the command, unless it is busy. -/
def handToWorker (s : Dbg) (buf : Block) : Dbg :=
  if s.dbgbusy then s.respond -- the status goes to `buf[0]`, which nobody reads
  else { s with dbgbuf := buf, dbgstate := .async, dbgbusy := true }

/-- The commands in `usbdebug_handle_data`; `none` if the device resets. -/
def command (m : Machine) (s : Dbg) (x buf : Block) : Option Dbg :=
  match (buf 0).toNat with
  | 1 => some { s with dbgbuf := getInfo m s.dbgbuf buf }.respond
  | 4 =>
    some { s with
      dbgbuf := s.dbgbuf.status 1, dbgmemaddr := buf 1, dbgmemlen := buf 2 }.respond
  | 5 => some (writeMemory s buf)
  | 10 => some { s with dbgmemaddr := buf 1, dbgstate := .readConsole }
  | 11 => some (writeConsole s buf)
  | 15 =>
    some { s with dbgbuf := ((s.dbgbuf.status 1).set 1 3).set 2 m.headThread }.respond
  | 16 => some { s with dbgbuf := (s.dbgbuf.set 1 (x 1)).status 1 }.respond
  | 17 => some { s with dbgbuf := suspendThread x s.dbgbuf buf }.respond
  | 18 => some { s with dbgbuf := s.dbgbuf.status 1 }.respond
  | 19 => some { s with dbgbuf := (s.dbgbuf.status 1).set 1 (x 1) }.respond
  | 20 => some s.respond -- the status goes to `buf[0]`, which nobody reads
  | 2 => if buf 1 = 0 then none else some (handToWorker s buf)
  | _ => some (handToWorker s buf)

/-- More data of a WRITE MEMORY. -/
def continueMemory (s : Dbg) (bytesleft : U32) : Dbg :=
  let len := min (64 - bytesleft) s.dbgmemlen
  let s := { s with dbgmemlen := s.dbgmemlen - len }
  if s.dbgmemlen ≠ 0 ∧ bytesleft = 0 then
    { s with dbgmemaddr := s.dbgmemaddr + len }.receive .writeMem
  else { s with dbgbuf := s.dbgbuf.status 1 }.respond

/-- More data of a WRITE CONSOLE. The test for a negative number is one of an unsigned number. -/
def continueConsole (s : Dbg) (bytesleft : U32) : Dbg :=
  let bytes := min (64 - bytesleft) s.dbgmemlen
  let s : Dbg := { s.conReceive bytes.toNat with dbgmemlen := s.dbgmemlen - bytes }
  if bytes ≠ 0 ∧ s.dbgmemlen ≠ 0 ∧ bytesleft = 0 then s.receive .writeConsole
  else { s with dbgbuf := s.dbgbuf.set 3 (UInt32.ofInt s.conFree) }.respond

def usbdebugHandleData (m : Machine) (s : Dbg) (x buf : Block) (bytesleft : U32) : Option Dbg :=
  let s := { s with receiving := false }
  match s.dbgstate with
  | .setup => command m s x buf
  | .writeMem => some (continueMemory s bytesleft)
  | .writeConsole => some (continueConsole s bytesleft)
  | _ => some s.respond

/-- What the host gets for an IN request: the header and where the rest is. -/
structure Response where
  header : Block
  addr : U32
  len : U32

/-- `usbdebug_handle_setup` for an OUT request. -/
def setupOut (s : Dbg) : Dbg := { s with dbgstate := .setup, dbgmemlen := 0, receiving := true }

/-- `usbdebug_handle_setup` for an IN request. -/
def setupIn (s : Dbg) (x : Block) (wLength : U32) : Dbg × Option Response :=
  let s := { s with receiving := false }
  match s.dbgstate with
  | .respond =>
    let dbgmemlen := min s.dbgmemlen (wLength - 16)
    let left := dbgmemlen - min 48 dbgmemlen
    (if left ≠ 0 then { s with dbgmemlen := left }
      else { s with dbgmemlen := left, dbgstate := .idle },
      some ⟨s.dbgbuf, s.dbgmemaddr, dbgmemlen⟩)
  | .readConsole =>
    let dbgbuf := (Block.status x 1).set 2 4096
    (if x 16 ≠ 0 then { s with dbgbuf := dbgbuf, dbgmemaddr := x 16, dbgmemlen := x 17 }
      else { s with dbgbuf := dbgbuf, dbgmemaddr := 0, dbgmemlen := x 17, dbgstate := .idle },
      some ⟨dbgbuf, 0, 0⟩)
  | _ => (s, none)

/-- `dbgthread` after it was woken up: its first critical section. -/
def takeCommand (s : Dbg) : Dbg :=
  if s.dbgstate = .async then { s with worker := some s.dbgbuf } else { s with dbgbusy := false }

/-- `dbgthread` after a command: its second critical section. -/
def finishCommand (m : Machine) (s : Dbg) (buf : Block) (len : U32) : Dbg :=
  let s := { s with dbgbusy := false, worker := none }
  if s.dbgstate = .async then
    { s with
      dbgstate := .respond
      dbgmemaddr := m.bufAddr
      dbgmemlen := len
      dbgbuf := fun i => if i < 4 then buf i else s.dbgbuf i }
  else s

/-! ## Steps -/

inductive Action
  /-- The host starts to send a command. -/
  | setupOut
  /-- A packet of it arrives. -/
  | data (x buf : Block) (bytesleft : U32)
  | setupIn (x : Block) (wLength : U32)
  /-- `read_console_callback`: one more packet of a READ CONSOLE. -/
  | readConsole (x : Block)
  /-- Another SETUP packet or a bus reset. -/
  | other
  /-- `usbdebug_enable` or `usbdebug_disable`, called for such a packet or a reset. -/
  | enable
  /-- A thread reads received characters. -/
  | readCharacters (readidx : Nat)
  /-- The thread wakes up; this also happens when another thread overflows its stack. -/
  | wake
  | finish (x : Block)

@[grind =] def step (m : Machine) (s : Dbg) : Action → Option (Dbg × Option Response)
  | .setupOut => some (setupOut s, none)
  | .data x buf bytesleft =>
    if s.receiving then (usbdebugHandleData m s x buf bytesleft).map fun t => (t, none) else none
  | .setupIn x wLength => some (setupIn s x wLength)
  | .readConsole x =>
    if s.dbgstate = .readConsole then
      some ({ s with dbgbuf := x, dbgmemaddr := x 16, dbgmemlen := x 17 }, none)
    else none
  | .other => some ({ s with receiving := false }, none)
  | .enable => some ({ s with dbgstate := .idle, receiving := false }, none)
  | .readCharacters readidx =>
    if readidx < consoleSize then some ({ s with dbgconrecvreadidx := readidx }, none) else none
  | .wake =>
    match s.worker with
    | some _ => none
    | none => some (takeCommand s, none)
  | .finish x =>
    match s.worker with
    | none => none
    | some buf => (work m x buf).map fun r => (finishCommand m s r.1 r.2, none)

/-- After `usbdebug_init`. -/
def usbdebugInit (dbgbuf : Block) (dbgmemaddr dbgmemlen : U32) : Dbg :=
  ⟨.idle, false, dbgbuf, dbgmemaddr, dbgmemlen, 0, 0, false, none⟩

end Monitor
end Usb
end Freemyipod
