import HomeKeeper.Device.ThreadPool
import Mathlib.Data.List.Forall2
import Mathlib.Data.List.Induction

/-!
# Which devices get the block their worker reads

Every worker function takes its block for a `device_info_t`. Two of the six branches of
`device::init` copy `info`; two copy `sizeof(info)` bytes from `sock` on, so the worker reads the
port as the type and the memory behind `sock` as the port and the address; two copy `sizeof(sock)`
bytes, so everything but the type lies outside the block. And two devices of one type share one
entry of the map, hence one worker.

`served_iff` says that this is all: a list of devices is served, whatever the memory around them
holds, exactly when the types are pairwise different and all among the two good ones.
-/

namespace HomeKeeper.Device

open CData

/-! ## One registration -/

/-- The key of the type. -/
def DeviceType.name : DeviceType → String
  | .tcpServer => "TCP_SERVER"
  | .tcpClient => "TCP_CLIENT"
  | .udpServer => "UDP_SERVER"
  | .udpServerBroadcast => "UDP_SERVER_BROADCAST"
  | .udpClient => "UDP_CLIENT"
  | .udpClientBroadcast => "UDP_CLIENT_BROADCAST"

/-- The worker function of the type. -/
def DeviceType.func : DeviceType → WorkerFunc
  | .tcpServer => .tcpServer
  | .tcpClient => .tcpClient
  | .udpServer | .udpServerBroadcast => .udpServer
  | .udpClient | .udpClientBroadcast => .udpClient

/-- The block a registration copies. -/
def DeviceObj.block (d : DeviceObj) : Bytes :=
  match d.type with
  | .tcpServer | .udpServerBroadcast => d.info.take sizeofInfo
  | .tcpClient | .udpServer => bytesAt d.sock d.behindSock sizeofInfo
  | .udpClient | .udpClientBroadcast => bytesAt d.sock d.behindSock sizeofSock

def DeviceObj.entry (d : DeviceObj) : FuncAndPara := ⟨d.type.func, some d.block⟩

theorem name_injective : Function.Injective DeviceType.name := by
  intro a b h
  cases a <;> cases b <;> first | rfl | exact absurd h (by decide)

theorem length_infoBytes (a : DeviceArgs) (m : Surroundings) : (infoBytes a m).length = 40 := by
  simp [infoBytes, length_charBuf]

theorem length_bytesAt (obj : Bytes) (behind : Nat → UInt8) (n : Nat) :
    (bytesAt obj behind n).length = n := by
  simp only [bytesAt, List.length_append, List.length_take, List.length_map, List.length_range]
  omega

theorem length_block (a : DeviceArgs) (m : Surroundings) : (device a m).block.length ≠ 0 := by
  unfold DeviceObj.block
  split <;> simp [device, length_infoBytes, length_bytesAt, sizeofInfo, sizeofSock]

/-- A registration puts the block under the name of the type, over whatever was there. -/
theorem init_device (funcs : Funcs) (a : DeviceArgs) (m : Surroundings) :
    init funcs (device a m) = funcs.insert a.type.name (device a m).entry := by
  have hlen := length_block a m
  have hset (name : String) (func : WorkerFunc) (block : Bytes) (h : block.length ≠ 0) :
      setFunction funcs name func (some block) = funcs.insert name ⟨func, some block⟩ := by
    simp only [setFunction]
    rw [if_pos h]
  unfold DeviceObj.entry
  cases htype : a.type with
  | _ =>
    simp only [DeviceObj.block, device, htype] at hlen
    simp only [init, device, htype, DeviceObj.atInfo, DeviceObj.atSock, DeviceObj.block,
      DeviceType.name, DeviceType.func]
    exact hset _ _ _ hlen

/-! ## The map after all registrations -/

theorem lookup_foldl (ps : List (DeviceArgs × Surroundings)) (name : String) :
    ((ps.map fun p => device p.1 p.2).foldl init ∅)[name]? = none
        ∧ (∀ p ∈ ps, p.1.type.name ≠ name)
      ∨ ∃ p ∈ ps, p.1.type.name = name
        ∧ ((ps.map fun p => device p.1 p.2).foldl init ∅)[name]? = some (device p.1 p.2).entry := by
  -- the last registration under a name is the one that stays
  induction ps using List.reverseRecOn with
  | nil => left; simp
  | append_singleton ps p ih =>
    rw [List.map_append, List.map_singleton, List.foldl_append, List.foldl_cons, List.foldl_nil,
      init_device, Std.TreeMap.getElem?_insert]
    by_cases hname : p.1.type.name = name
    · right
      refine ⟨p, by simp, hname, ?_⟩
      rw [hname, if_pos Std.ReflCmp.compare_self]
    · rw [if_neg (by rwa [Std.LawfulEqCmp.compare_eq_iff_eq])]
      rcases ih with ⟨hnone, hall⟩ | ⟨q, hq, hqname, hsome⟩
      · left
        refine ⟨hnone, ?_⟩
        intro q hq
        rcases List.mem_append.mp hq with hq | hq
        · exact hall q hq
        · rw [List.mem_singleton.mp hq]
          exact hname
      · exact .inr ⟨q, List.mem_append_left _ hq, hqname, hsome⟩

/-- The devices with their surroundings. -/
def placed (devices : List DeviceArgs) (mem : Nat → Surroundings) :
    List (DeviceArgs × Surroundings) :=
  devices.zipIdx.map fun p => (p.1, mem p.2)

theorem initAll_eq (devices : List DeviceArgs) (mem : Nat → Surroundings) :
    initAll devices mem = ((placed devices mem).map fun p => device p.1 p.2).foldl init ∅ := by
  unfold initAll placed
  rw [List.map_map]
  rfl

theorem map_fst_placed (devices : List DeviceArgs) (mem : Nat → Surroundings) :
    (placed devices mem).map (·.1) = devices := by
  unfold placed
  rw [List.map_map]
  exact List.zipIdx_map_fst 0 devices

/-- What is found under a name: the block of one of the devices with that name. -/
theorem lookup_initAll {devices : List DeviceArgs} {mem : Nat → Surroundings} {name : String}
    {e : FuncAndPara} (h : (initAll devices mem)[name]? = some e) :
    ∃ a ∈ devices, ∃ k, a.type.name = name ∧ e = (device a (mem k)).entry := by
  rw [initAll_eq] at h
  rcases lookup_foldl (placed devices mem) name with ⟨hnone, -⟩ | ⟨p, hp, hname, hsome⟩
  · rw [hnone] at h
    cases h
  · rw [hsome, Option.some.injEq] at h
    obtain ⟨q, hq, rfl⟩ := List.mem_map.mp hp
    exact ⟨q.1, List.fst_mem_of_mem_zipIdx hq, q.2, hname, h.symm⟩

/-- The names in the map are those of the devices. -/
theorem mem_keys_initAll (devices : List DeviceArgs) (mem : Nat → Surroundings) (name : String) :
    name ∈ (initAll devices mem).keys ↔ name ∈ devices.map (·.type.name) := by
  rw [Std.TreeMap.mem_keys, Std.TreeMap.mem_iff_isSome_getElem?]
  constructor
  · intro h
    obtain ⟨e, he⟩ := Option.isSome_iff_exists.mp h
    obtain ⟨a, ha, -, hname, -⟩ := lookup_initAll he
    exact List.mem_map.mpr ⟨a, ha, hname⟩
  · intro h
    rw [initAll_eq]
    rcases lookup_foldl (placed devices mem) name with ⟨-, hall⟩ | ⟨p, -, -, hsome⟩
    · rw [← map_fst_placed devices mem, List.map_map] at h
      obtain ⟨p, hp, hname⟩ := List.mem_map.mp h
      exact absurd hname (hall p hp)
    · rw [hsome]
      rfl

theorem start_eq (funcs : Funcs) : start funcs = funcs.keys.map (startFunc funcs) := by
  unfold start
  split
  · next h =>
    rw [← Std.TreeMap.length_keys, List.length_eq_zero_iff] at h
    rw [h]
    rfl
  · rfl

/-! ## The blocks -/

/-- The branches that copy `info`. -/
def DeviceType.copiesInfo : DeviceType → Bool
  | .tcpServer | .udpServerBroadcast => true
  | _ => false

theorem block_of_copiesInfo {a : DeviceArgs} (h : a.type.copiesInfo = true) (m : Surroundings) :
    (device a m).block = infoBytes a m := by
  have htake : (infoBytes a m).take sizeofInfo = infoBytes a m :=
    List.take_of_length_le (Nat.le_of_eq (length_infoBytes a m))
  have htype : a.type = .tcpServer ∨ a.type = .udpServerBroadcast := by
    cases ht : a.type with
    | tcpServer => exact .inl rfl
    | udpServerBroadcast => exact .inr rfl
    | _ => rw [ht] at h; cases h
  rcases htype with ht | ht <;> simp only [DeviceObj.block, device, ht] <;> exact htake

/-- The branches that copy `sizeof(info)` bytes from `sock` on. -/
theorem block_of_overrun {a : DeviceArgs} (h : a.type = .tcpClient ∨ a.type = .udpServer)
    (m : Surroundings) :
    (device a m).block = bytesAt (le32 a.socket) m.behindSock sizeofInfo := by
  rcases h with ht | ht <;> simp only [DeviceObj.block, device, ht]

/-- The branches that copy `sock` alone. -/
theorem block_of_short {a : DeviceArgs} (h : a.type = .udpClient ∨ a.type = .udpClientBroadcast)
    (m : Surroundings) :
    (device a m).block = bytesAt (le32 a.socket) m.behindSock sizeofSock := by
  rcases h with ht | ht <;> simp only [DeviceObj.block, device, ht]

/-- A copy of `info` reads back as the device. -/
theorem readInfo_infoBytes (a : DeviceArgs) (m : Surroundings) :
    readInfo (infoBytes a m) = some ⟨a.type.value, a.socket, snprintfS 30 a.ip⟩ := by
  set buf := charBuf 30 a.ip m.infoRest with hbuf
  set pad : Bytes := [m.infoRest 30, m.infoRest 31]
  have htype : field (infoBytes a m) 0 4 = some (le32 a.type.value) := by
    rw [show infoBytes a m = [] ++ le32 a.type.value ++ (le32 a.socket ++ buf ++ pad) by
      simp [infoBytes, buf, pad]]
    exact field_append rfl rfl
  have hsock : field (infoBytes a m) 4 4 = some (le32 a.socket) := by
    rw [show infoBytes a m = le32 a.type.value ++ le32 a.socket ++ (buf ++ pad) by
      simp [infoBytes, buf, pad]]
    exact field_append rfl rfl
  have hip : field (infoBytes a m) 8 30 = some buf := by
    rw [show infoBytes a m = (le32 a.type.value ++ le32 a.socket) ++ buf ++ pad from rfl]
    exact field_append rfl (length_charBuf (by decide) _ _)
  have hread (x : Int32) : readLe32 (le32 x) = x := by
    simpa using readLe32_le32_append x []
  simp only [readInfo, htype, hsock, hip, Option.bind_eq_bind, Option.bind_some, hread]
  rw [hbuf, cStr_charBuf]
  rfl

/-- Forty bytes from `sock` on: the port is read from the memory behind it. -/
theorem readInfo_atSock (x : Int32) (b : UInt8) :
    (readInfo (bytesAt (le32 x) (fun _ => b) sizeofInfo)).map (·.sock)
      = some (readLe32 [b, b, b, b]) := rfl

/-- Four bytes from `sock` on: the port lies outside. -/
theorem readInfo_sock (x : Int32) (behind : Nat → UInt8) :
    readInfo (bytesAt (le32 x) behind sizeofSock) = none := rfl

/-! ## Served devices -/

/-- The worker is the device's, and its block has the device's type, port and address. -/
structure Serves (a : DeviceArgs) (w : Worker) : Prop where
  name : w.name = a.type.name
  block : ∃ block, w.entry = some ⟨a.type.func, some block⟩
    ∧ readInfo block = some ⟨a.type.value, a.socket, snprintfS 30 a.ip⟩

/-- `start` runs one worker for each device. -/
def Served (devices : List DeviceArgs) (mem : Nat → Surroundings) : Prop :=
  ∃ ws, ws.Perm (start (initAll devices mem)) ∧ List.Forall₂ Serves devices ws

theorem serves_of_copiesInfo {devices : List DeviceArgs} {mem : Nat → Surroundings}
    {a : DeviceArgs} (hnodup : (devices.map (·.type)).Nodup) (ha : a ∈ devices)
    (hgood : a.type.copiesInfo = true) :
    Serves a (startFunc (initAll devices mem) a.type.name) := by
  have hkey : a.type.name ∈ (initAll devices mem).keys :=
    (mem_keys_initAll devices mem _).mpr (List.mem_map.mpr ⟨a, ha, rfl⟩)
  rw [Std.TreeMap.mem_keys, Std.TreeMap.mem_iff_isSome_getElem?] at hkey
  obtain ⟨e, he⟩ := Option.isSome_iff_exists.mp hkey
  -- the entry is from a device of the same type, and there is only one
  obtain ⟨b, hb, k, hname, rfl⟩ := lookup_initAll he
  have hab : b = a := List.inj_on_of_nodup_map hnodup hb ha (name_injective hname)
  subst hab
  refine ⟨rfl, (device b (mem k)).block, he, ?_⟩
  rw [block_of_copiesInfo hgood, readInfo_infoBytes]

theorem served_of_condition {devices : List DeviceArgs}
    (hnodup : (devices.map (·.type)).Nodup) (hgood : ∀ a ∈ devices, a.type.copiesInfo = true)
    (mem : Nat → Surroundings) : Served devices mem := by
  refine ⟨(devices.map (·.type.name)).map (startFunc (initAll devices mem)), ?_, ?_⟩
  · rw [start_eq]
    apply List.Perm.map
    rw [List.perm_ext_iff_of_nodup _ Std.TreeMap.nodup_keys]
    · exact fun name => (mem_keys_initAll devices mem name).symm
    · rw [show devices.map (·.type.name) = (devices.map (·.type)).map DeviceType.name by
        rw [List.map_map]; rfl]
      exact hnodup.map name_injective
  · rw [List.map_map, List.forall₂_map_right_iff, List.forall₂_same]
    exact fun a ha => serves_of_copiesInfo hnodup ha (hgood a ha)

/-- A served list has a worker, hence a key of the map, for each device. -/
theorem nodup_of_served {devices : List DeviceArgs} {mem : Nat → Surroundings}
    (h : Served devices mem) : (devices.map (·.type)).Nodup := by
  obtain ⟨ws, hperm, hserves⟩ := h
  have hnames : devices.map (·.type.name) = ws.map (·.name) := by
    clear hperm
    induction hserves with
    | nil => rfl
    | cons hw _ ih => rw [List.map_cons, List.map_cons, hw.name, ih]
  have hkeys : (ws.map (·.name)).Nodup := by
    rw [(hperm.map _).nodup_iff, start_eq, List.map_map]
    exact (List.map_id' _).symm ▸ Std.TreeMap.nodup_keys
  rw [← hnames, show devices.map (·.type.name) = (devices.map (·.type)).map DeviceType.name by
    rw [List.map_map]; rfl] at hkeys
  exact hkeys.of_map

/-- The block a served device of a bad type reads: it was copied from some `sock`. -/
theorem readInfo_of_served {devices : List DeviceArgs} {mem : Nat → Surroundings} {a : DeviceArgs}
    (h : Served devices mem) (ha : a ∈ devices) :
    ∃ b k, b.type = a.type
      ∧ readInfo (device b (mem k)).block = some ⟨a.type.value, a.socket, snprintfS 30 a.ip⟩ := by
  obtain ⟨ws, hperm, hserves⟩ := h
  obtain ⟨w, hw, hs⟩ : ∃ w ∈ ws, Serves a w := by
    clear hperm
    induction hserves with
    | nil => cases ha
    | cons hw _ ih =>
      rcases List.mem_cons.mp ha with rfl | ha
      · exact ⟨_, List.mem_cons_self, hw⟩
      · obtain ⟨w, hmem, hs⟩ := ih ha
        exact ⟨w, List.mem_cons_of_mem _ hmem, hs⟩
  have hstart := hperm.subset hw
  rw [start_eq] at hstart
  obtain ⟨name, -, rfl⟩ := List.mem_map.mp hstart
  obtain ⟨block, hentry, hread⟩ := hs.block
  obtain ⟨b, -, k, hname, he⟩ := lookup_initAll hentry
  refine ⟨b, k, name_injective (hname.trans hs.name), ?_⟩
  have hblock : block = (device b (mem k)).block := by
    simp only [DeviceObj.entry, FuncAndPara.mk.injEq, Option.some.injEq] at he
    exact he.2
  rw [← hblock]
  exact hread

/-- Memory that holds the byte `b` wherever the program left it alone. -/
def filledWith (b : UInt8) : Nat → Surroundings := fun _ => ⟨fun _ => b, fun _ => b⟩

theorem copiesInfo_of_served {devices : List DeviceArgs} (h : ∀ mem, Served devices mem) :
    ∀ a ∈ devices, a.type.copiesInfo = true := by
  intro a ha
  -- two memories that differ behind `sock` make the worker read two ports
  obtain ⟨d, i, hd, hzero⟩ := readInfo_of_served (h (filledWith 0)) ha
  obtain ⟨e, j, he, hone⟩ := readInfo_of_served (h (filledWith 1)) ha
  have hports (htype : a.type = .tcpClient ∨ a.type = .udpServer) : False := by
    have hs0 := readInfo_atSock d.socket 0
    have hs1 := readInfo_atSock e.socket 1
    rw [block_of_overrun (hd ▸ htype)] at hzero
    rw [block_of_overrun (he ▸ htype)] at hone
    rw [show readInfo (bytesAt (le32 d.socket) (fun _ => 0) sizeofInfo) = _ from hzero] at hs0
    rw [show readInfo (bytesAt (le32 e.socket) (fun _ => 1) sizeofInfo) = _ from hone] at hs1
    exact absurd (hs0.symm.trans hs1) (by decide)
  have hshort (htype : a.type = .udpClient ∨ a.type = .udpClientBroadcast) : False := by
    rw [block_of_short (hd ▸ htype), readInfo_sock] at hzero
    cases hzero
  cases htype : a.type with
  | tcpServer => rfl
  | udpServerBroadcast => rfl
  | tcpClient => exact (hports (.inl htype)).elim
  | udpServer => exact (hports (.inr htype)).elim
  | udpClient => exact (hshort (.inl htype)).elim
  | udpClientBroadcast => exact (hshort (.inr htype)).elim

/-- **Which lists of devices are served.** Whatever the memory around the objects holds, `start`
runs one worker for each device with that device's type, port and address in its block, if and
only if no two devices have the same type and each is a `TCP_SERVER` or a
`UDP_SERVER_BROADCAST`. -/
theorem served_iff (devices : List DeviceArgs) :
    (∀ mem, Served devices mem)
      ↔ (devices.map (·.type)).Nodup ∧ ∀ a ∈ devices, a.type.copiesInfo = true := by
  constructor
  · intro h
    exact ⟨nodup_of_served (h (filledWith 0)), copiesInfo_of_served h⟩
  · rintro ⟨hnodup, hgood⟩
    exact served_of_condition hnodup hgood

/-- A `UDP_SERVER` is not served: its worker reads the port 57950 as the type. -/
theorem udp_server_not_served :
    ¬ ∀ (devices : List DeviceArgs) (mem : Nat → Surroundings), Served devices mem := by
  intro h
  have hgood := copiesInfo_of_served (h [⟨.udpServer, 57950, ascii "192.168.1.7"⟩])
    ⟨.udpServer, 57950, ascii "192.168.1.7"⟩ (by simp)
  exact absurd hgood (by decide)

end HomeKeeper.Device
