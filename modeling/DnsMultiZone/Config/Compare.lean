import DnsMultiZone.Config.Lookup

/-! # `MatchCompare` is a comparison with an interval

An entry made of an address and a prefix of `n` bits stands for the addresses that share these bits, an
interval of numbers. `MatchCompare` says on which side of it an address lies. IPv4 masks with a shifted
and complemented word, IPv6 byte by byte; both are `clearLow` on numbers.

* `compares_entry4`, `compares_entry6`: the entries of both families.
* `matchCompare_interval`: the entries `SetFromString` makes. -/

namespace DnsMultiZone.Config.Compare

open DnsMultiZone.Lib.BigEndian DnsMultiZone.Config.Address DnsMultiZone.Config.ConfigType
open DnsMultiZone.Config.LoadFile DnsMultiZone.Config.Ranges DnsMultiZone.Config.Lookup

/-- The sign says on which side of the `2 ^ k` numbers from `base` on `x` lies. -/
structure Compares (sign : ℤ) (base k x : ℕ) : Prop where
  zero : sign = 0 ↔ base ≤ x ∧ x ≤ base + 2 ^ k - 1
  neg : sign < 0 ↔ x < base
  pos : 0 < sign ↔ base + 2 ^ k - 1 < x

variable {n : ℕ}

/-- Above is where it is neither in the interval nor below. -/
theorem Compares.of_top {sign : ℤ} {base k x top : ℕ} (ht : top + 1 = base + 2 ^ k)
    (hz : sign = 0 ↔ base ≤ x ∧ x ≤ top) (hn : sign < 0 ↔ x < base) : Compares sign base k x := by
  have hb := Nat.two_pow_pos k
  have htop : base + 2 ^ k - 1 = top := by omega
  refine ⟨by rw [htop]; exact hz, hn, ?_⟩
  rw [htop]
  omega

theorem compares_entry4 {e : IPItemInfo} (a : UInt32) (hn : n ≤ 32)
    (he : e = ⟨a &&& prefixMask n, prefixMask n⟩) (x : UInt32) :
    Compares (e.matchCompare x) (clearLow (32 - n) a.toNat) (32 - n) x.toNat := by
  have hbase : base4 e = clearLow (32 - n) a.toNat := by
    rw [he]
    exact toNat_and_prefixMask hn a
  have halign : Aligned4 e := by
    refine ⟨n, hn, by rw [he], ?_⟩
    have hb : e.nIP.toNat = clearLow (32 - n) a.toNat := hbase
    rw [hb, clearLow_clearLow]
  have htop := top4_eq hn (e := e) (by rw [he])
  rw [← hbase]
  exact .of_top htop (matchCompare_zero halign x) (matchCompare_neg halign x)

theorem compares_entry6 {e : IPItemInfo6} (a : IPv6Addr) (hn : n ≤ 128)
    (he : e = ⟨IPv6Addr.ofBytes (applyMask a.cAddr n), n⟩) (x : IPv6Addr) :
    Compares (e.matchCompare x) (clearLow (128 - n) (num6 a)) (128 - n) (num6 x) := by
  have hlen : (applyMask a.cAddr n).length = 16 := by rw [length_applyMask, a.length_cAddr]
  have hbase : base6 e = clearLow (128 - n) (num6 a) := by
    rw [he, ← beNat_applyMask_addr a hn, base6, num6, IPv6Addr.cAddr_ofBytes hlen]
  have hlen : e.nPrefix = n := by rw [he]
  have halign : Aligned6 e := by
    refine ⟨hlen.trans_le hn, ?_⟩
    rw [hlen, hbase, clearLow_clearLow]
  have htop : top6 e + 1 = base6 e + 2 ^ (128 - n) := by
    have hpos := Nat.two_pow_pos (128 - n)
    unfold top6 base6
    rw [hlen]
    omega
  rw [← hbase]
  exact .of_top htop (matchCompare6_zero halign x) (matchCompare6_neg halign x)

/-- `ApplyMask` and `memcmp` against an address masked alike, as masking and comparison of numbers. -/
theorem memcmp_applyMask (x a : IPv6Addr) (hn : n ≤ 128) :
    (memcmp (applyMask x.cAddr n) (applyMask a.cAddr n) < 0 ↔
      clearLow (128 - n) (num6 x) < clearLow (128 - n) (num6 a)) ∧
    (memcmp (applyMask x.cAddr n) (applyMask a.cAddr n) = 0 ↔
      clearLow (128 - n) (num6 x) = clearLow (128 - n) (num6 a)) := by
  have hlen : (applyMask x.cAddr n).length = (applyMask a.cAddr n).length := by
    rw [length_applyMask, length_applyMask, x.length_cAddr, a.length_cAddr]
  rw [← beNat_applyMask_addr x hn, ← beNat_applyMask_addr a hn]
  exact memcmp_sign hlen

/-- **`MatchCompare` of an entry** that `SetFromString` makes of a text is zero exactly in the interval
of the text's address and prefix, negative below and positive above, in both families; and the bytes of
IPv6 are masked and compared as numbers. -/
theorem matchCompare_interval (inet : Inet) :
    (∀ s e, IPItemInfo.setFromString inet s = some e →
      ∃ t n a, splitPrefix s 32 = some (t, n) ∧ inet.pton4 t = some a ∧ n ≤ 32 ∧
        ∀ x : UInt32, Compares (e.matchCompare x) (clearLow (32 - n) a.toNat) (32 - n) x.toNat) ∧
    (∀ s e, IPItemInfo6.setFromString inet s = some e →
      ∃ t n a, splitPrefix s 128 = some (t, n) ∧ inet.pton6 t = some a ∧ n ≤ 128 ∧
        ∀ x : IPv6Addr,
          Compares (e.matchCompare x) (clearLow (128 - n) (num6 a)) (128 - n) (num6 x)) ∧
    ∀ (x a : IPv6Addr) (n : ℕ), n ≤ 128 →
      beNat (applyMask x.cAddr n) = clearLow (128 - n) (num6 x) ∧
      (memcmp (applyMask x.cAddr n) (applyMask a.cAddr n) < 0 ↔
        clearLow (128 - n) (num6 x) < clearLow (128 - n) (num6 a)) ∧
      (memcmp (applyMask x.cAddr n) (applyMask a.cAddr n) = 0 ↔
        clearLow (128 - n) (num6 x) = clearLow (128 - n) (num6 a)) := by
  refine ⟨fun s e h => ?_, fun s e h => ?_, fun x a n hn => ?_⟩
  · obtain ⟨⟨t, n⟩, hs, h⟩ := Option.bind_eq_some_iff.mp h
    obtain ⟨a, ha, h⟩ := Option.bind_eq_some_iff.mp h
    have hn := splitPrefix_le hs
    exact ⟨t, n, a, hs, ha, hn, compares_entry4 a hn (Option.some.inj h).symm⟩
  · obtain ⟨⟨t, n⟩, hs, h⟩ := Option.bind_eq_some_iff.mp h
    obtain ⟨a, ha, h⟩ := Option.bind_eq_some_iff.mp h
    have hn := splitPrefix_le hs
    exact ⟨t, n, a, hs, ha, hn, compares_entry6 a hn (Option.some.inj h).symm⟩
  · exact ⟨beNat_applyMask_addr x hn, memcmp_applyMask x a hn⟩

/-- The entry `10.1.2.3/20`, whose prefix splits the third byte, stands for `10.1.0.0` to
`10.1.15.255`, and `2001:db8:8123::1/33` for the second half of `2001:db8::/32`. -/
theorem matchCompare_interval_splitBytes :
    (∃ e, IPItemInfo.setFromString colons (text "10.1.2.3/20") = some e ∧
      ∀ x : UInt32, Compares (e.matchCompare x) 0x0A010000 12 x.toNat) ∧
    (∃ e, IPItemInfo6.setFromString colons (text "2001:db8:8123:0:0:0:0:1/33") = some e ∧
      ∀ x : IPv6Addr, Compares (e.matchCompare x) 0x20010DB8800000000000000000000000 95 (num6 x)) ∧
    ∀ x : IPv6Addr, beNat (applyMask x.cAddr 33) = clearLow 95 (num6 x) := by
  refine ⟨?_, ?_, fun x => ((matchCompare_interval colons).2.2 x x 33 (by decide)).1⟩
  · have hset : IPItemInfo.setFromString colons (text "10.1.2.3/20") =
        some ⟨0x0A010000, 0xFFFFF000⟩ := by decide +kernel
    have hsplit : splitPrefix (text "10.1.2.3/20") 32 = some (text "10.1.2.3", 20) := by decide +kernel
    have hpton : colons.pton4 (text "10.1.2.3") = some 0x0A010203 := by decide +kernel
    obtain ⟨t, n, a, hs, ha, -, h⟩ := (matchCompare_interval colons).1 _ _ hset
    obtain ⟨rfl, rfl⟩ := Prod.mk.inj (Option.some.inj (hsplit.symm.trans hs))
    obtain rfl := Option.some.inj (hpton.symm.trans ha)
    exact ⟨_, hset, h⟩
  · have hset : IPItemInfo6.setFromString colons (text "2001:db8:8123:0:0:0:0:1/33") =
        some ⟨IPv6Addr.ofBytes [0x20, 0x01, 0x0D, 0xB8, 0x80], 33⟩ := by decide +kernel
    have hsplit : splitPrefix (text "2001:db8:8123:0:0:0:0:1/33") 128 =
        some (text "2001:db8:8123:0:0:0:0:1", 33) := by decide +kernel
    have hpton : colons.pton6 (text "2001:db8:8123:0:0:0:0:1") = some (IPv6Addr.ofBytes
        [0x20, 0x01, 0x0D, 0xB8, 0x81, 0x23, 0, 0, 0, 0, 0, 0, 0, 0, 0, 1]) := by decide +kernel
    obtain ⟨t, n, a, hs, ha, -, h⟩ := (matchCompare_interval colons).2.1 _ _ hset
    obtain ⟨rfl, rfl⟩ := Prod.mk.inj (Option.some.inj (hsplit.symm.trans hs))
    obtain rfl := Option.some.inj (hpton.symm.trans ha)
    exact ⟨_, hset, h⟩

end DnsMultiZone.Config.Compare
