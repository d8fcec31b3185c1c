import ContainerLb.BpfManager
import ContainerLb.InternetChecksum

/-!
# The two packet programs

`xdpLbIngress` runs on the bridge and sends an ICMP frame for the virtual
address to a randomly picked backend. `xdpVethSnat` runs on the veth of every
backend and gives the frames of registered backends the virtual address as
their source. Both read the maps that the manager writes and work on the
bytes of the frame; an access outside the frame would be an absent result.

Host order matters for all 16-bit and 32-bit loads and stores and for the
nibbles of the first header byte, which the header file declares in one
order for every host.
-/

namespace ContainerLb.PacketPath

open BoundedMaps HostBytes InternetChecksum BpfManager

/-- `enum xdp_action`. -/
inductive XdpAction where
  /-- Drop and report an error. -/
  | aborted
  /-- Drop. -/
  | drop
  /-- Hand to the network stack. -/
  | pass
  /-- Send back. -/
  | tx
  /-- Send to another interface. -/
  | redirect
  deriving DecidableEq,Repr

/-- `struct stats_counter`. -/
structure StatsCounter where
  /-- Rewritten frames. -/
  rxPackets : UInt64
  /-- Their bytes. -/
  rxBytes : UInt64
  deriving DecidableEq,Repr

/-- `counters_map`: one counter per index and processor. -/
abbrev Counters (cpus : ℕ) := ArrayMap maxBackends (Vector StatsCounter cpus)

/-- What a packet program leaves: its return value, the frame, the counters. -/
structure Verdict (cpus : ℕ) where
  /-- Return value. -/
  action : XdpAction
  /-- Bytes of the frame. -/
  frame : List UInt8
  /-- Counters of all processors. -/
  counters : Counters cpus
  deriving DecidableEq

/-- `bpf_htons`. -/
def htons (order : ByteOrder) (value : UInt16) : UInt16 :=
  match order with
  | .little => (value<<<8)|||(value>>>8)
  | .big => value

/-- `ETH_P_IP`. -/
def ethPIp : UInt16 := 0x0800

/-- `IPPROTO_ICMP`. -/
def ipprotoIcmp : UInt8 := 1

/-- `ihl` of `struct iphdr`, the first four bits declared in a byte: the low
ones on a little-endian host, the high ones on a big-endian host. -/
def ihl (order : ByteOrder) (byte : UInt8) : ℕ :=
  match order with
  | .little => byte.toNat%16
  | .big => byte.toNat/16

/-- Loop of `update_ip_csum`: add 16-bit words in host order from an offset. -/
def sumWords (order : ByteOrder) (frame : List UInt8) (offset : ℕ) :
    ℕ → UInt32 → Option UInt32
  | 0,csum => some csum
  | count+1,csum => do
    let word ← read16 order frame offset
    sumWords order frame (offset+2) count (csum+word.toUInt32)

/-- `update_ip_csum` on the header at an offset: zero the field, add the ten
words of the fixed header, fold and store the complement. -/
def updateIpCsum (order : ByteOrder) (frame : List UInt8) (ip : ℕ) : Option (List UInt8) := do
  let zeroed ← write frame (ip+10) (order.store16 0)
  let csum ← sumWords order zeroed ip 10 0
  write zeroed (ip+10) (order.store16 (complementFold csum))

/-- Checks at the start of both programs: Ethernet header, type, IPv4 header,
protocol and ICMP header behind the options lie inside the frame. -/
def isIcmp (order : ByteOrder) (frame : List UInt8) : Option Bool := do
  if frame.length<14 then return false
  let hProto ← read16 order frame 12
  if hProto≠htons order ethPIp then return false
  if frame.length<14+20 then return false
  let protocol ← readByte frame 23
  if protocol≠ipprotoIcmp then return false
  let first ← readByte frame 14
  if frame.length<14+ihl order first*4+8 then return false
  return true

/-- Rewrite of a frame for a backend: both hardware addresses, destination
address and header checksum. -/
def dnat (order : ByteOrder) (cfg : LbConfig) (backend : BackendInfo) (frame : List UInt8) :
    Option (List UInt8) := do
  let frame ← write frame 0 backend.mac.toList
  let frame ← write frame 6 cfg.srcMac.toList
  let frame ← write frame 30 (order.store32 backend.ipv4).toList
  updateIpCsum order frame 14

/-- Count a rewritten frame at its index on the current processor. -/
def countFrame {cpus : ℕ} (counters : Counters cpus) (cpu : Fin cpus) (idx : UInt32)
    (length : ℕ) : Counters cpus :=
  counters.modify idx fun stats =>
    let own := stats[cpu]
    stats.set cpu ⟨own.rxPackets+1,own.rxBytes+UInt64.ofNat length⟩

/-- `xdp_lb_ingress` on one processor with one random number. -/
def xdpLbIngress {cpus : ℕ} (order : ByteOrder) (world : World) (counters : Counters cpus)
    (cpu : Fin cpus) (prandom : UInt32) (frame : List UInt8) : Option (Verdict cpus) := do
  let unchanged : Verdict cpus := ⟨.pass,frame,counters⟩
  if !(← isIcmp order frame) then return unchanged
  match world.configMap.lookup 0 with
  | none => return unchanged
  | some cfg =>
    if cfg.backendCount=0 then return unchanged
    let daddr ← read32 order frame 30
    if cfg.vip≠0 ∧ daddr≠cfg.vip then return unchanged
    let idx := prandom%cfg.backendCount
    match world.backendMap.lookup idx with
    | none => return unchanged
    | some backend =>
      if backend.ipv4=0 then return unchanged
      let rewritten ← dnat order cfg backend frame
      return ⟨.pass,rewritten,countFrame counters cpu idx frame.length⟩

/-- Rewrite of a reply: source address and header checksum. -/
def snat (order : ByteOrder) (vip : UInt32) (frame : List UInt8) : Option (List UInt8) := do
  let frame ← write frame 26 (order.store32 vip).toList
  updateIpCsum order frame 14

/-- `xdp_veth_snat`. -/
def xdpVethSnat (order : ByteOrder) (world : World) (frame : List UInt8) :
    Option (XdpAction×List UInt8) := do
  if !(← isIcmp order frame) then return (.pass,frame)
  let saddr ← read32 order frame 26
  match world.backendIpsMap.lookup saddr with
  | none => return (.pass,frame)
  | some _ =>
    match world.configMap.lookup 0 with
    | none => return (.pass,frame)
    | some cfg =>
      if cfg.vip=0 then return (.pass,frame)
      let rewritten ← snat order cfg.vip frame
      return (.pass,rewritten)

end ContainerLb.PacketPath
