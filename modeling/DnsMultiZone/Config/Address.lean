import DnsMultiZone.Lib.BigEndian

/-! # Addresses

An IPv4 address is a `UInt32` in host order. An IPv6 address is 16 bytes in network order, as
`IPv6Addr` keeps it. A `sockaddr_storage` is one of the two families with port (and scope), or what
`memset` leaves: no family. The text functions of the C library are parameters (`Inet`). -/

namespace DnsMultiZone.Config.Address

open DnsMultiZone.Lib.BigEndian

/-- `IPv6Addr`: the 16 bytes of an address. -/
structure IPv6Addr where
  cAddr : Bytes
  length_cAddr : cAddr.length = 16
  deriving DecidableEq

/-- `memcpy` of the first 16 bytes (missing ones stay zero, as the constructor leaves them). -/
def IPv6Addr.ofBytes (l : Bytes) : IPv6Addr :=
  ⟨l.take 16 ++ List.replicate (16 - l.length) 0, by simp; omega⟩

theorem IPv6Addr.cAddr_ofBytes {l : Bytes} (h : l.length = 16) : (ofBytes l).cAddr = l := by
  simp [ofBytes, h, List.take_of_length_le]

/-- `ntohl` of four bytes. -/
def ntohl (l : Bytes) : UInt32 := UInt32.ofNat (beNat l)

/-- `sockaddr_storage`. Without a family only the port field may have been written. -/
inductive SockAddr
  | unspec (port : ℕ)
  | inet (addr : UInt32) (port : ℕ)
  | inet6 (addr : IPv6Addr) (port scopeId : ℕ)
  deriving DecidableEq

/-- `inet_pton` and `inet_ntop` for the two families. -/
structure Inet where
  pton4 : Bytes → Option UInt32
  pton6 : Bytes → Option IPv6Addr
  ntop4 : UInt32 → Bytes
  ntop6 : IPv6Addr → Bytes

end DnsMultiZone.Config.Address
