import HomeKeeper.Lib.CData
import Mathlib.Data.List.Nodup

/-!
# `include/threadPool.hpp` and `include/device.hpp` — devices and their workers

A device registers a worker function in a map keyed by the name of its type, together with a block
of bytes copied out of the object; `threadPool::start` runs one thread for each entry, and the
thread fetches the entry back by its name.

An object is seen as bytes in memory. `Surroundings` are the bytes the program does not control:
what `info` holds where nothing was written, and what lies behind `sock`. A copy that is longer
than its source takes them along.
-/

namespace HomeKeeper.Device

open CData

/-! ## Devices in memory -/

inductive DeviceType where
  | tcpServer
  | tcpClient
  | udpServer
  | udpServerBroadcast
  | udpClient
  | udpClientBroadcast
  deriving DecidableEq, Repr

/-- The values of the enumeration. -/
def DeviceType.value : DeviceType → Int32
  | .tcpServer => 0
  | .tcpClient => 1
  | .udpServer => 2
  | .udpServerBroadcast => 3
  | .udpClient => 4
  | .udpClientBroadcast => 5

/-- The arguments of the constructor. -/
structure DeviceArgs where
  type : DeviceType
  socket : Int32
  ip : Bytes
  deriving DecidableEq, Repr

structure Surroundings where
  infoRest : Nat → UInt8
  behindSock : Nat → UInt8

/-- `device_info_t`: two ints, `char ip[30]` and two bytes of padding, 40 bytes in all. -/
def infoBytes (a : DeviceArgs) (m : Surroundings) : Bytes :=
  le32 a.type.value ++ le32 a.socket ++ charBuf 30 a.ip m.infoRest
    ++ [m.infoRest 30, m.infoRest 31]

def sizeofInfo : Nat := 40
def sizeofSock : Nat := 4

/-- The members a registration copies from. -/
structure DeviceObj where
  type : DeviceType
  sock : Bytes
  info : Bytes
  behindSock : Nat → UInt8

/-- `device::device`. -/
def device (a : DeviceArgs) (m : Surroundings) : DeviceObj where
  type := a.type
  sock := le32 a.socket
  info := infoBytes a m
  behindSock := m.behindSock

/-- `n` bytes from the start of an object with `behind` after it. -/
def bytesAt (obj : Bytes) (behind : Nat → UInt8) (n : Nat) : Bytes :=
  obj.take n ++ (List.range (n - obj.length)).map behind

/-! ## The pool -/

inductive WorkerFunc where
  | tcpServer
  | tcpClient
  | udpServer
  | udpClient
  deriving DecidableEq, Repr

structure FuncAndPara where
  func : WorkerFunc
  data : Option Bytes
  deriving DecidableEq, Repr

abbrev Funcs := Std.TreeMap String FuncAndPara

/-- `threadPool::setFunction`; `para` is what `memcpy` reads, `none` for a null pointer. An entry
that exists keeps its block when there is no new one. -/
def setFunction (funcs : Funcs) (name : String) (func : WorkerFunc) (para : Option Bytes) : Funcs :=
  match para with
  | some block =>
    if block.length ≠ 0 then funcs.insert name ⟨func, some block⟩
    else funcs.insert name ⟨func, (funcs[name]?).bind (·.data)⟩
  | none => funcs.insert name ⟨func, (funcs[name]?).bind (·.data)⟩

/-- A running thread: its name and the entry it found. -/
structure Worker where
  name : String
  entry : Option FuncAndPara
  deriving DecidableEq, Repr

/-- `startFunc`, up to the call of the worker function. -/
def startFunc (funcs : Funcs) (name : String) : Worker := ⟨name, funcs[name]?⟩

/-- `threadPool::start`: the threads it creates. -/
def start (funcs : Funcs) : List Worker :=
  if funcs.size = 0 then [] else funcs.keys.map (startFunc funcs)

/-! ## `device::init` -/

/-- `(void*)&info, n`. -/
def DeviceObj.atInfo (d : DeviceObj) (n : Nat) : Option Bytes := some (d.info.take n)

/-- `(void*)&sock, n`. -/
def DeviceObj.atSock (d : DeviceObj) (n : Nat) : Option Bytes :=
  some (bytesAt d.sock d.behindSock n)

def init (funcs : Funcs) (d : DeviceObj) : Funcs :=
  match d.type with
  | .tcpServer => setFunction funcs "TCP_SERVER" .tcpServer (d.atInfo sizeofInfo)
  -- from `&sock`, as many bytes as `info` has
  | .tcpClient => setFunction funcs "TCP_CLIENT" .tcpClient (d.atSock sizeofInfo)
  | .udpServer => setFunction funcs "UDP_SERVER" .udpServer (d.atSock sizeofInfo)
  | .udpServerBroadcast =>
    setFunction funcs "UDP_SERVER_BROADCAST" .udpServer (d.atInfo sizeofInfo)
  | .udpClient => setFunction funcs "UDP_CLIENT" .udpClient (d.atSock sizeofSock)
  | .udpClientBroadcast =>
    setFunction funcs "UDP_CLIENT_BROADCAST" .udpClient (d.atSock sizeofSock)

/-- The devices are constructed, the `k`-th one in the surroundings `mem k`, and initialised. -/
def initAll (devices : List DeviceArgs) (mem : Nat → Surroundings) : Funcs :=
  (devices.zipIdx.map fun p => device p.1 (mem p.2)).foldl init ∅

/-! ## The block as a worker reads it -/

structure DeviceInfo where
  type : Int32
  sock : Int32
  ip : Bytes
  deriving DecidableEq, Repr

/-- The block read as a `device_info_t`; `none` when a member lies outside of it. -/
def readInfo (block : Bytes) : Option DeviceInfo := do
  let type ← field block 0 4
  let sock ← field block 4 4
  let ip ← field block 8 30
  return ⟨readLe32 type, readLe32 sock, cStr ip⟩

end HomeKeeper.Device
