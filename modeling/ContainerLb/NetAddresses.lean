import ContainerLb.HostBytes

/-!
# Addresses and discovered backends

Addresses are the byte slices of the Go `net` package. An IPv4 address has
two forms there, four bytes or sixteen bytes behind the mapped prefix. The
equality test of the package identifies the two forms, and `to4` maps both
to the same four bytes in wire order.
-/

namespace ContainerLb.NetAddresses

open HostBytes

/-- `net.IP`: four or sixteen bytes for a valid address, any slice in general. -/
abbrev IP := List UInt8

/-- `net.HardwareAddr`: a byte slice, six bytes for an Ethernet address. -/
abbrev HardwareAddr := List UInt8

/-- Prefix of an IPv4 address in its sixteen-byte form. -/
def v4InV6Prefix : List UInt8 := [0,0,0,0,0,0,0,0,0,0,0xff,0xff]

/-- `IP.To4`: the four address bytes of either form, absent for anything else. -/
def IP.to4 (ip : IP) : Option Quad :=
  if ip.length=4 then readQuad ip 0
  else if ip.length=16 ∧ ip.take 12=v4InV6Prefix then readQuad ip 12
  else none

/-- `IP.Equal`: same bytes, or the two forms of one IPv4 address. -/
def IP.equal (ip x : IP) : Bool :=
  if ip.length=x.length then ip==x
  else if ip.length=4 ∧ x.length=16 then x.take 12==v4InV6Prefix && ip==x.drop 12
  else if ip.length=16 ∧ x.length=4 then ip.take 12==v4InV6Prefix && ip.drop 12==x
  else false

/-- A discovered, healthy container backend. -/
structure Backend where
  /-- Short container identifier. -/
  id : String
  /-- Container name without the leading slash. -/
  name : String
  /-- Container address. -/
  ip : IP
  /-- Container hardware address. -/
  mac : HardwareAddr
  /-- Port of the service. -/
  port : UInt16
  /-- Set for every discovered container. -/
  healthy : Bool
  /-- Host process id of the container's init process. -/
  containerPID : ℤ
  /-- Host-side veth interface name. -/
  vethName : String
  /-- Host-side veth interface index. -/
  vethIdx : ℤ
  deriving DecidableEq,Repr

/-- The two forms in which four address bytes can be written. -/
theorem IP.to4_eq_some {ip : IP} {quad : Quad} :
    ip.to4=some quad ↔ ip=quad.toList ∨ ip=v4InV6Prefix++quad.toList := by
  constructor
  · intro h
    unfold IP.to4 at h
    split at h
    · rename_i hl
      obtain ⟨found,hf,hs⟩ := @readQuad_of_le ip 0 (by omega)
      rw [hf] at h
      cases h
      left
      rw [←hs,slice,List.drop_zero,List.take_of_length_le (by omega)]
    · split at h
      · rename_i hl
        obtain ⟨found,hf,hs⟩ := @readQuad_of_le ip 12 (by omega)
        rw [hf] at h
        cases h
        right
        have ht : (ip.drop 12).take 4=ip.drop 12 :=
          List.take_of_length_le (by rw [List.length_drop]; omega)
        rw [←hs,slice,ht,←hl.2,List.take_append_drop]
      · contradiction
  · rintro (rfl|rfl)
    · rfl
    · rfl

/-- On IPv4 addresses of any form the equality test compares the four bytes. -/
theorem IP.equal_iff {ip x : IP} {first second : Quad} (hi : ip.to4=some first)
    (hx : x.to4=some second) : ip.equal x=true ↔ first=second := by
  rcases IP.to4_eq_some.mp hi with rfl|rfl <;> rcases IP.to4_eq_some.mp hx with rfl|rfl <;>
    simp [IP.equal,v4InV6Prefix,Quad.toList,Quad.ext_iff]

end ContainerLb.NetAddresses
