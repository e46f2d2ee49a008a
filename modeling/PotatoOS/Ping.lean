/-
PotatoOS/Ping.lean

`send_ping` and `receive_ping` of tty.c, with the two functions that move bytes
between a buffer and the ports of the network card.

The headers are records that lie in memory byte by byte, so the order of bytes
on the wire is that of `htonl` and `htons` on a little-endian machine.  A port
that is written keeps its value; what the card shows in a port is given for each
read.  The array `packet` and the buffer of `receive_ping` are not initialised:
their contents are arguments.  So is the text at the address 0x0100A8C0, which
`send_ping` passes to `printf` in place of a format.  The call is taken to return,
although `setup_paging` has left that address unmapped.

The packet that is built is right for every destination, up to the protocol
number (`pingPacket_wellFormed`).  Main results.  `sendPing_held`: the ports hold
it but for byte 16, since the port of that byte is also the one that starts the
transmission.  `ping_succeeds_iff`: with a host behind the card that answers the
requests it can read, which addresses can be reached.
-/
import PotatoOS.Checksum

namespace PotatoOS

/-! ### The order of bytes -/

/-- `htonl`: the four bytes in reverse. -/
def htonl (hostlong : UInt32) : UInt32 :=
  ((hostlong &&& 0xFF000000) >>> 24) ||| ((hostlong &&& 0x00FF0000) >>> 8) |||
    ((hostlong &&& 0x0000FF00) <<< 8) ||| ((hostlong &&& 0x000000FF) <<< 24)

/-- `htons`: the two bytes swapped. -/
def htons (hostshort : UInt16) : UInt16 := (hostshort >>> 8) ||| (hostshort <<< 8)

/-- The `w`-byte number at address `a`, most significant byte first. -/
def be (m : Mem) (a : Nat) : Nat → Nat
  | 0 => 0
  | w + 1 => 256 * be m a w + (m (a + w)).toNat

/-! ### The headers -/

/-- `struct ip_header`, which has no padding. -/
structure IpHeader where
  versionIhl : UInt8
  typeOfService : UInt8
  totalLength : UInt16
  identification : UInt16
  flagsFragmentOffset : UInt16
  timeToLive : UInt8
  protocol : UInt8
  headerChecksum : UInt16
  sourceAddress : UInt32
  destinationAddress : UInt32

/-- `struct icmp_header`, which has none either. -/
structure IcmpHeader where
  type : UInt8
  code : UInt8
  checksum : UInt16
  identifier : UInt16
  sequenceNumber : UInt16

/-- `sizeof(struct ip_header)`. -/
def ipSize : Nat := 20

/-- `sizeof(struct icmp_header)`. -/
def icmpSize : Nat := 8

/-- The header in memory; the checksum is the field that is set last. -/
def IpHeader.bytes (ip : IpHeader) : Mem :=
  let m : Mem := memcpy (fun _ => 0) 0 (leBytes ip.versionIhl.toNat) 1
  let m := memcpy m 1 (leBytes ip.typeOfService.toNat) 1
  let m := memcpy m 2 (leBytes ip.totalLength.toNat) 2
  let m := memcpy m 4 (leBytes ip.identification.toNat) 2
  let m := memcpy m 6 (leBytes ip.flagsFragmentOffset.toNat) 2
  let m := memcpy m 8 (leBytes ip.timeToLive.toNat) 1
  let m := memcpy m 9 (leBytes ip.protocol.toNat) 1
  let m := memcpy m 12 (leBytes ip.sourceAddress.toNat) 4
  let m := memcpy m 16 (leBytes ip.destinationAddress.toNat) 4
  memcpy m 10 (leBytes ip.headerChecksum.toNat) 2

/-- The header as it lies in memory. -/
def IcmpHeader.bytes (icmp : IcmpHeader) : Mem :=
  let m : Mem := memcpy (fun _ => 0) 0 (leBytes icmp.type.toNat) 1
  let m := memcpy m 1 (leBytes icmp.code.toNat) 1
  let m := memcpy m 4 (leBytes icmp.identifier.toNat) 2
  let m := memcpy m 6 (leBytes icmp.sequenceNumber.toNat) 2
  memcpy m 2 (leBytes icmp.checksum.toNat) 2

/-! ### The card -/

/-- The ports as they were last written, and the screen. -/
structure Nic where
  ports : UInt16 → UInt8
  terminal : Terminal

section

variable (args : Nat → Vararg)

/-- 0xB8000 does not fit the variable. -/
def sendBase : UInt16 := UInt16.ofNat 0xB8000

/-- The loop of `network_send`, with `n` bytes to go. -/
def networkSendLoop (packet : Mem) : Nat → Nat → Nic → Nic
  | 0, _, s => s
  | n + 1, i, s =>
      networkSendLoop packet n (i + 1)
        { ports := Function.update s.ports (sendBase + UInt16.ofNat i) (packet i)
          terminal := printf args (text ".") s.terminal }

/-- `network_send`: the bytes go to ports in a row; the last write starts the transmission, at a
port that the packet has been written to as well. -/
def networkSend (packet : Mem) (length : Nat) (s : Nic) : Nic :=
  let s := networkSendLoop args packet length 0 s
  { s with ports := Function.update s.ports (sendBase + 0x10) 0x01 }

/-- The port of the first byte; those of the status and of the length lie behind. -/
def receiveBase : UInt16 := 0x1500

/-- The loop of `network_receive`.  Two reads have been made before it; `card`
gives the value of a port at each read. -/
def networkReceiveLoop (card : Nat → UInt16 → UInt8) : Nat → Nat → Mem → Terminal → Mem × Terminal
  | 0, _, buffer, t => (buffer, t)
  | n + 1, i, buffer, t =>
      networkReceiveLoop card n (i + 1)
        (memcpy buffer i (fun _ => card (2 + i) (receiveBase + UInt16.ofNat i)) 1)
        (printf args (text ".") t)

/-- The length that is returned, the buffer and the screen. -/
def networkReceive (card : Nat → UInt16 → UInt8) (buffer : Mem) (maxLength : Nat) (t : Terminal) :
    Nat × Mem × Terminal :=
  if card 0 (receiveBase + 0x20) &&& 0x01 ≠ 0 then
    let length := (card 1 (receiveBase + 0x24)).toNat
    let length := if length > maxLength then maxLength else length
    (length, networkReceiveLoop args card length 0 buffer t)
  else (0, buffer, t)

/-! ### Pings -/

/-- The header of the request; the protocol number is never set and stays 0. -/
def pingIp (destIp : UInt32) (headerChecksum : UInt16) : IpHeader where
  versionIhl := 0x45
  typeOfService := 0
  totalLength := htons (UInt16.ofNat (ipSize + icmpSize))
  identification := 0
  flagsFragmentOffset := 0
  timeToLive := 64
  protocol := 0
  headerChecksum := headerChecksum
  sourceAddress := htonl 0xC0A80001
  destinationAddress := htonl destIp

/-- The echo request. -/
def pingIcmp (checksum : UInt16) : IcmpHeader where
  type := 8
  code := 0
  checksum := checksum
  identifier := htons 1
  sequenceNumber := htons 1

/-- The packet that `send_ping` builds; `packet` is what the array held. -/
def pingPacket (packet : Mem) (destIp : UInt32) (t : Terminal) : Mem × Terminal :=
  let ip := checksum args (pingIp destIp 0).bytes ipSize t
  let icmp := checksum args (pingIcmp 0).bytes icmpSize ip.2
  (memcpy (memcpy packet 0 (pingIp destIp ip.1).bytes ipSize) ipSize (pingIcmp icmp.1).bytes
    icmpSize, icmp.2)

/-- `remark` is the text at the address that is taken for a format. -/
def sendPing (packet : Mem) (remark : List UInt8) (destIp : UInt32) (s : Nic) : Nic :=
  let p := pingPacket args packet destIp s.terminal
  networkSend args p.1 (ipSize + icmpSize) { s with terminal := printf args remark p.2 }

/-- What `receive_ping` sets `networkinit` to, and the screen. -/
def receivePing (card : Nat → UInt16 → UInt8) (buffer : Mem) (t : Terminal) : Bool × Terminal :=
  let r := networkReceive args card buffer 1500 t
  -- the ICMP header is looked for behind an IP header at the start of the buffer
  let type := r.2.1 ipSize
  let code := r.2.1 (ipSize + 1)
  let t := terminalNewline r.2.2
  let last (t : Terminal) :=
    terminalPutchar (terminalNewline (terminalPutchar (terminalNewline t) code)) type
  if type = 0 ∧ code = 0 then
    (true, last (terminalWritestring t (text "[  OK  ] Attempting to ping 192.168.0.2...")))
  else
    (false, last (terminalNewline
      (terminalWritestring t (text "[ FAIL ] Attempting to ping 192.168.0.2..."))))

end

/-! ### Numbers on the wire -/

/-- A byte of a number, in its place. -/
theorem and_byte (n k : Nat) : n &&& 255 <<< k = n / 2 ^ k % 2 ^ 8 * 2 ^ k := by
  rw [← Nat.shiftRight_eq_div_pow, ← Nat.shiftLeft_eq]
  refine Nat.eq_of_testBit_eq fun j => ?_
  rw [show 255 = 2 ^ 8 - 1 from rfl, Nat.testBit_and, Nat.testBit_shiftLeft, Nat.testBit_shiftLeft,
    Nat.testBit_mod_two_pow, Nat.testBit_shiftRight, Nat.testBit_two_pow_sub_one]
  by_cases hj : j ≥ k
  · rw [Nat.add_sub_cancel' hj]
    cases n.testBit j <;> simp
  · simp [hj]

/-- Bits that do not meet are added. -/
theorem or_mul_two_pow {a b i : Nat} (h : a < 2 ^ i) : a ||| 2 ^ i * b = a + 2 ^ i * b := by
  rw [Nat.or_comm, ← Nat.two_pow_add_eq_or_of_lt h, Nat.add_comm]

theorem toNat_htonl (x : UInt32) :
    (htonl x).toNat = x.toNat / 2 ^ 24 % 2 ^ 8 + 2 ^ 8 * (x.toNat / 2 ^ 16 % 2 ^ 8)
      + 2 ^ 16 * (x.toNat / 2 ^ 8 % 2 ^ 8) + 2 ^ 24 * (x.toNat % 2 ^ 8) := by
  -- each byte is masked and moved to its place; the places do not overlap, so the or is a sum
  have h₃ : ((x &&& 0xFF000000) >>> 24).toNat = x.toNat / 2 ^ 24 % 2 ^ 8 := by
    rw [UInt32.toNat_shiftRight, UInt32.toNat_and]
    show (x.toNat &&& 255 <<< 24) >>> 24 = _
    rw [and_byte, Nat.shiftRight_eq_div_pow]
    omega
  have h₂ : ((x &&& 0x00FF0000) >>> 8).toNat = 2 ^ 8 * (x.toNat / 2 ^ 16 % 2 ^ 8) := by
    rw [UInt32.toNat_shiftRight, UInt32.toNat_and]
    show (x.toNat &&& 255 <<< 16) >>> 8 = _
    rw [and_byte, Nat.shiftRight_eq_div_pow]
    omega
  have h₁ : ((x &&& 0x0000FF00) <<< 8).toNat = 2 ^ 16 * (x.toNat / 2 ^ 8 % 2 ^ 8) := by
    rw [UInt32.toNat_shiftLeft, UInt32.toNat_and]
    show (x.toNat &&& 255 <<< 8) <<< 8 % 2 ^ 32 = _
    rw [and_byte, Nat.shiftLeft_eq]
    omega
  have h₀ : ((x &&& 0x000000FF) <<< 24).toNat = 2 ^ 24 * (x.toNat % 2 ^ 8) := by
    rw [UInt32.toNat_shiftLeft, UInt32.toNat_and]
    show (x.toNat &&& 255 <<< 0) <<< 24 % 2 ^ 32 = _
    rw [and_byte, Nat.shiftLeft_eq]
    omega
  rw [htonl, UInt32.toNat_or, UInt32.toNat_or, UInt32.toNat_or, h₃, h₂, h₁, h₀,
    or_mul_two_pow (i := 8) (Nat.mod_lt _ (by decide)), or_mul_two_pow (i := 16) (by omega),
    or_mul_two_pow (i := 24) (by omega)]

theorem be_four (m : Mem) (a : Nat) :
    be m a 4 = 2 ^ 24 * (m a).toNat + 2 ^ 16 * (m (a + 1)).toNat + 2 ^ 8 * (m (a + 2)).toNat
      + (m (a + 3)).toNat := by
  show 256 * (256 * (256 * (256 * 0 + (m a).toNat) + (m (a + 1)).toNat) + (m (a + 2)).toNat)
    + (m (a + 3)).toNat = _
  omega

/-- What `htonl` has stored is read in the order of the network. -/
theorem be_eq_of_htonl {m : Mem} {a : Nat} {x : UInt32} (h : le m a 4 = (htonl x).toNat) :
    be m a 4 = x.toNat := by
  have hle : le m a 4 = (m a).toNat + 256 * ((m (a + 1)).toNat + 256 * ((m (a + 2)).toNat
      + 256 * ((m (a + 3)).toNat + 256 * 0))) := rfl
  have h₀ := (m a).toNat_lt
  have h₁ := (m (a + 1)).toNat_lt
  have h₂ := (m (a + 2)).toNat_lt
  have h₃ := (m (a + 3)).toNat_lt
  have hx : x.toNat = x.toNat / 2 ^ 24 % 2 ^ 8 * 2 ^ 24 + x.toNat / 2 ^ 16 % 2 ^ 8 * 2 ^ 16
      + x.toNat / 2 ^ 8 % 2 ^ 8 * 2 ^ 8 + x.toNat % 2 ^ 8 := by
    have hlt := x.toNat_lt
    omega
  have hdigit (i : Nat) : x.toNat / 2 ^ i % 2 ^ 8 < 2 ^ 8 := Nat.mod_lt _ (by decide)
  have hd₃ := hdigit 24
  have hd₂ := hdigit 16
  have hd₁ := hdigit 8
  rw [hle, toNat_htonl] at h
  rw [be_four, hx]
  -- digit by digit
  generalize x.toNat / 2 ^ 24 % 2 ^ 8 = d₃ at *
  generalize x.toNat / 2 ^ 16 % 2 ^ 8 = d₂ at *
  generalize x.toNat / 2 ^ 8 % 2 ^ 8 = d₁ at *
  have hb₀ : (m a).toNat = d₃ := by omega
  have hb₁ : (m (a + 1)).toNat = d₂ := by omega
  omega

theorem toNat_htons (x : UInt16) :
    (htons x).toNat = x.toNat / 2 ^ 8 + 2 ^ 8 * (x.toNat % 2 ^ 8) := by
  have hlt := x.toNat_lt
  have h₁ : (x >>> 8).toNat = x.toNat / 2 ^ 8 := by
    rw [UInt16.toNat_shiftRight]
    exact Nat.shiftRight_eq_div_pow _ _
  have h₀ : (x <<< 8).toNat = 2 ^ 8 * (x.toNat % 2 ^ 8) := by
    rw [UInt16.toNat_shiftLeft]
    show x.toNat <<< 8 % 2 ^ 16 = _
    rw [Nat.shiftLeft_eq]
    omega
  rw [htons, UInt16.toNat_or, h₁, h₀, or_mul_two_pow (by omega)]

theorem be_eq_of_htons {m : Mem} {a : Nat} {x : UInt16} (h : le m a 2 = (htons x).toNat) :
    be m a 2 = x.toNat := by
  have hle : le m a 2 = (m a).toNat + 256 * ((m (a + 1)).toNat + 256 * 0) := rfl
  have hbe : be m a 2 = 256 * (256 * 0 + (m a).toNat) + (m (a + 1)).toNat := rfl
  have h₀ := (m a).toNat_lt
  have h₁ := (m (a + 1)).toNat_lt
  have hx := x.toNat_lt
  rw [hle, toNat_htons] at h
  rw [hbe]
  omega

/-! ### Checksums -/

section

variable {m m' data : Mem} {len k : Nat}

theorem byteSum_congr (h : ∀ i < len, m i = m' i) : byteSum m len = byteSum m' len := by
  have hsum : ∑ i ∈ Finset.range (len / 2), le m (2 * i) 2
      = ∑ i ∈ Finset.range (len / 2), le m' (2 * i) 2 := by
    refine Finset.sum_congr rfl fun i hi => le_congr fun j hj => h _ ?_
    have := Finset.mem_range.mp hi
    omega
  rw [byteSum, byteSum, hsum]
  split
  · rw [h _ (by omega)]
  · rfl

/-- The low byte of a word replaced. -/
theorem byteSum_replace (data : Mem) (hk : 2 * k + 2 ≤ len) (v : UInt8) :
    byteSum (memcpy data (2 * k) (fun _ => v) 1) len + (data (2 * k)).toNat
      = byteSum data len + v.toNat := by
  -- each word gains the new byte and loses the old one, at place `k` only
  have hword (i : Nat) : le (memcpy data (2 * k) (fun _ => v) 1) (2 * i) 2
      + (if i = k then (data (2 * k)).toNat else 0)
      = le data (2 * i) 2 + if i = k then v.toNat else 0 := by
    split
    next h =>
      have hlow : memcpy data (2 * k) (fun _ => v) 1 (2 * k) = v :=
        memcpy_apply_of_mem (Nat.le_refl _) (by omega)
      have hhigh : memcpy data (2 * k) (fun _ => v) 1 (2 * k + 1) = data (2 * k + 1) :=
        memcpy_apply_of_notMem (by omega)
      rw [h]
      simp only [le, hlow, hhigh]
      omega
    next h => rw [le_memcpy_of_disjoint (by omega)]
  -- the odd byte at the end lies behind the replaced one
  have hlast : len % 2 ≠ 0 → memcpy data (2 * k) (fun _ => v) 1 (2 * (len / 2))
      = data (2 * (len / 2)) := fun hodd => memcpy_apply_of_notMem (by omega)
  have hmem : k ∈ Finset.range (len / 2) := Finset.mem_range.mpr (by omega)
  have hsum := Finset.sum_congr rfl fun i (_ : i ∈ Finset.range (len / 2)) => hword i
  rw [Finset.sum_add_distrib, Finset.sum_add_distrib, Finset.sum_ite_eq', if_pos hmem,
    Finset.sum_ite_eq', if_pos hmem] at hsum
  rw [byteSum, byteSum]
  split
  next hodd =>
    rw [hlast hodd]
    omega
  next => omega

/-- The checksum is 0 when the sum is a multiple of 65535 other than 0. -/
theorem checksum_eq_zero_iff (args : Nat → Vararg) (data : Mem) (hlen : len ≤ 131072)
    (t : Terminal) : (checksum args data len t).1 = 0 ↔
      byteSum data len ≡ 0 [MOD 2 ^ 16 - 1] ∧ 0 < byteSum data len := by
  obtain ⟨w, hw, hc⟩ := toNat_checksum args data hlen t
  have hlt := hw.lt
  rw [← hw.eq_pred_iff (by decide), ← UInt16.toNat_inj, hc]
  show 2 ^ 16 - 1 - w = 0 ↔ _
  omega

/-- The bytes verify, whoever computes the checksum. -/
def Verifies (m : Mem) (len : Nat) : Prop := ∀ args t, (checksum args m len t).1 = 0

theorem verifies_iff (hlen : len ≤ 131072) :
    Verifies m len ↔ byteSum m len ≡ 0 [MOD 2 ^ 16 - 1] ∧ 0 < byteSum m len :=
  ⟨fun h => (checksum_eq_zero_iff noArguments m hlen emptyTerminal).mp (h _ _),
    fun h args t => (checksum_eq_zero_iff args m hlen t).mpr h⟩

theorem verifies_congr (hlen : len ≤ 131072) (h : ∀ i < len, m i = m' i) :
    Verifies m len ↔ Verifies m' len := by
  rw [verifies_iff hlen, verifies_iff hlen, byteSum_congr h]

theorem byteSum_pos (hlen : 2 ≤ len) (h : data 0 ≠ 0) : 0 < byteSum data len := by
  have hbyte : 0 < (data 0).toNat := Nat.pos_of_ne_zero fun hz => h (UInt8.toNat_inj.mp hz)
  have hle : le data (2 * 0) 2 ≤ ∑ i ∈ Finset.range (len / 2), le data (2 * i) 2 :=
    Finset.single_le_sum (f := fun i => le data (2 * i) 2) (fun _ _ => Nat.zero_le _)
      (Finset.mem_range.mpr (by omega))
  have hword : le data (2 * 0) 2 = (data 0).toNat + 256 * le data 1 1 := rfl
  rw [byteSum]
  omega

/-- A checksum stored in a field of zeros. -/
theorem verifies_stored (args : Nat → Vararg) (hlen : len ≤ 131072) (hk : 2 * k + 2 ≤ len)
    (hzero : le data (2 * k) 2 = 0) (t : Terminal) :
    Verifies (memcpy data (2 * k) (leBytes (checksum args data len t).1.toNat) 2) len := by
  obtain ⟨w, hw, hc⟩ := toNat_checksum args data hlen t
  intro args' t'
  obtain ⟨w', hw', hc'⟩ := toNat_checksum args'
    (memcpy data (2 * k) (leBytes (checksum args data len t).1.toNat) 2) hlen t'
  rw [byteSum_store hk hzero (UInt16.toNat_lt _), hc] at hw'
  rw [← UInt16.toNat_inj, hc', hw.complement (by decide) hw', Nat.sub_self]
  rfl

/-- Another byte in place of the low byte of a word breaks the checksum. -/
theorem verifies_replace_iff (hlen : len ≤ 131072) (hk : 2 * k + 2 ≤ len)
    (h : Verifies data len) {v : UInt8} (h₀ : memcpy data (2 * k) (fun _ => v) 1 0 ≠ 0) :
    Verifies (memcpy data (2 * k) (fun _ => v) 1) len ↔ data (2 * k) = v := by
  have hpos : 0 < byteSum (memcpy data (2 * k) (fun _ => v) 1) len := byteSum_pos (by omega) h₀
  have hsum := byteSum_replace data hk v
  have hold := (data (2 * k)).toNat_lt
  have hnew := v.toNat_lt
  obtain ⟨hmod, -⟩ := (verifies_iff hlen).mp h
  rw [verifies_iff hlen, and_iff_left hpos, ← UInt8.toNat_inj]
  have hdvd := (Nat.modEq_zero_iff_dvd).mp hmod
  rw [Nat.modEq_zero_iff_dvd]
  constructor
  · intro hdvd'
    -- the two sums differ by less than 65535
    omega
  · intro heq
    rwa [show byteSum (memcpy data (2 * k) (fun _ => v) 1) len = byteSum data len by omega]

end

/-! ### The fields of a header -/

theorem leBytes_byte (x : UInt8) : leBytes x.toNat 0 = x := by
  rw [leBytes, pow_zero, Nat.div_one, UInt8.ofNat_toNat]

section

variable (ip : IpHeader) (icmp : IcmpHeader)

theorem IpHeader.bytes_versionIhl : ip.bytes 0 = ip.versionIhl := by
  simp (disch := decide) only [bytes, memcpy_apply_of_notMem, memcpy_apply_of_mem, Nat.sub_self,
    leBytes_byte]

theorem IpHeader.bytes_timeToLive : ip.bytes 8 = ip.timeToLive := by
  simp (disch := decide) only [bytes, memcpy_apply_of_notMem, memcpy_apply_of_mem, Nat.sub_self,
    leBytes_byte]

theorem IpHeader.bytes_protocol : ip.bytes 9 = ip.protocol := by
  simp (disch := decide) only [bytes, memcpy_apply_of_notMem, memcpy_apply_of_mem, Nat.sub_self,
    leBytes_byte]

theorem IpHeader.le_totalLength : le ip.bytes 2 2 = ip.totalLength.toNat := by
  simp (disch := decide) only [bytes, le_memcpy_of_disjoint, le_memcpy_leBytes]
  exact Nat.mod_eq_of_lt (UInt16.toNat_lt _)

theorem IpHeader.le_sourceAddress : le ip.bytes 12 4 = ip.sourceAddress.toNat := by
  simp (disch := decide) only [bytes, le_memcpy_of_disjoint, le_memcpy_leBytes]
  exact Nat.mod_eq_of_lt (UInt32.toNat_lt _)

theorem IpHeader.le_destinationAddress : le ip.bytes 16 4 = ip.destinationAddress.toNat := by
  simp (disch := decide) only [bytes, le_memcpy_of_disjoint, le_memcpy_leBytes]
  exact Nat.mod_eq_of_lt (UInt32.toNat_lt _)

theorem IcmpHeader.bytes_type : icmp.bytes 0 = icmp.type := by
  simp (disch := decide) only [bytes, memcpy_apply_of_notMem, memcpy_apply_of_mem, Nat.sub_self,
    leBytes_byte]

theorem IcmpHeader.bytes_code : icmp.bytes 1 = icmp.code := by
  simp (disch := decide) only [bytes, memcpy_apply_of_notMem, memcpy_apply_of_mem, Nat.sub_self,
    leBytes_byte]

theorem IcmpHeader.le_identifier : le icmp.bytes 4 2 = icmp.identifier.toNat := by
  simp (disch := decide) only [bytes, le_memcpy_of_disjoint, le_memcpy_leBytes]
  exact Nat.mod_eq_of_lt (UInt16.toNat_lt _)

theorem IcmpHeader.le_sequenceNumber : le icmp.bytes 6 2 = icmp.sequenceNumber.toNat := by
  simp (disch := decide) only [bytes, le_memcpy_of_disjoint, le_memcpy_leBytes]
  exact Nat.mod_eq_of_lt (UInt16.toNat_lt _)

end

/-! ### The packet -/

section

variable (args : Nat → Vararg) (packet : Mem) (destIp : UInt32) (t : Terminal)

theorem pingIp_bytes (c : UInt16) :
    (pingIp destIp c).bytes = memcpy (pingIp destIp 0).bytes (2 * 5) (leBytes c.toNat) 2 :=
  (memcpy_memcpy _ 10 (leBytes 0) (leBytes c.toNat) 2).symm

theorem pingIcmp_bytes (c : UInt16) :
    (pingIcmp c).bytes = memcpy (pingIcmp 0).bytes (2 * 1) (leBytes c.toNat) 2 :=
  (memcpy_memcpy _ 2 (leBytes 0) (leBytes c.toNat) 2).symm

/-- The checksum of the header. -/
def pingIpSum : UInt16 := (checksum args (pingIp destIp 0).bytes ipSize t).1

/-- The checksum of the echo request, which is made after that of the header. -/
def pingIcmpSum : UInt16 :=
  (checksum args (pingIcmp 0).bytes icmpSize
    (checksum args (pingIp destIp 0).bytes ipSize t).2).1

theorem pingPacket_ip {i : Nat} (h : i < ipSize) :
    (pingPacket args packet destIp t).1 i
      = (pingIp destIp (pingIpSum args destIp t)).bytes i := by
  show memcpy (memcpy packet 0 _ ipSize) ipSize _ icmpSize i = _
  rw [memcpy_apply_of_notMem (.inl h), memcpy_apply_of_mem (Nat.zero_le i) (by omega), Nat.sub_zero]
  rfl

theorem pingPacket_icmp {i : Nat} (h : i < icmpSize) :
    (pingPacket args packet destIp t).1 (ipSize + i)
      = (pingIcmp (pingIcmpSum args destIp t)).bytes i := by
  show memcpy (memcpy packet 0 _ ipSize) ipSize _ icmpSize (ipSize + i) = _
  rw [memcpy_apply_add h]
  rfl

theorem pingIp_verifies : Verifies (pingIp destIp (pingIpSum args destIp t)).bytes ipSize := by
  rw [pingIp_bytes]
  exact verifies_stored args (by decide) (by decide) (le_memcpy_leBytes _ 10 0 2) t

theorem pingIcmp_verifies :
    Verifies (pingIcmp (pingIcmpSum args destIp t)).bytes icmpSize := by
  rw [pingIcmp_bytes]
  exact verifies_stored args (by decide) (by decide) (le_memcpy_leBytes _ 2 0 2) _

theorem pingPacket_le_ip {a w : Nat} (h : a + w ≤ ipSize) :
    le (pingPacket args packet destIp t).1 a w
      = le (pingIp destIp (pingIpSum args destIp t)).bytes a w :=
  le_congr fun i hi => pingPacket_ip args packet destIp t (by omega)

theorem pingPacket_le_icmp {a w : Nat} (h : a + w ≤ icmpSize) :
    le (pingPacket args packet destIp t).1 (ipSize + a) w
      = le (pingIcmp (pingIcmpSum args destIp t)).bytes a w :=
  le_congr fun i hi => by
    rw [Nat.add_assoc]
    exact pingPacket_icmp args packet destIp t (by omega)

/-- For every destination the two headers are those of an echo request from
192.168.0.1, with their checksums, except that the protocol is 0 and not that of
ICMP. -/
theorem pingPacket_wellFormed :
    let p := (pingPacket args packet destIp t).1
    (p 0 = 0x45 ∧ be p 2 2 = 28 ∧ p 8 = 64 ∧ p 9 = 0 ∧ be p 12 4 = 0xC0A80001 ∧
      be p 16 4 = destIp.toNat ∧ Verifies p 20) ∧
    p 20 = 8 ∧ p 21 = 0 ∧ be p 24 2 = 1 ∧ be p 26 2 = 1 ∧ Verifies (fun i => p (20 + i)) 8 := by
  have hip {i : Nat} (hi : i < ipSize) := pingPacket_ip args packet destIp t hi
  have hicmp {i : Nat} (hi : i < icmpSize) := pingPacket_icmp args packet destIp t hi
  have hleIp {a w : Nat} (h : a + w ≤ ipSize) := pingPacket_le_ip args packet destIp t h
  have hleIcmp {a w : Nat} (h : a + w ≤ icmpSize) := pingPacket_le_icmp args packet destIp t h
  refine ⟨⟨?_, ?_, ?_, ?_, ?_, ?_, ?_⟩, ?_, ?_, ?_, ?_, ?_⟩
  · exact (hip (by decide)).trans (IpHeader.bytes_versionIhl _)
  · exact be_eq_of_htons (x := 28) ((hleIp (by decide)).trans (IpHeader.le_totalLength _))
  · exact (hip (by decide)).trans (IpHeader.bytes_timeToLive _)
  · exact (hip (by decide)).trans (IpHeader.bytes_protocol _)
  · exact be_eq_of_htonl (x := 0xC0A80001)
      ((hleIp (by decide)).trans (IpHeader.le_sourceAddress _))
  · exact be_eq_of_htonl ((hleIp (by decide)).trans (IpHeader.le_destinationAddress _))
  · exact (verifies_congr (by decide) fun i hi => hip hi).mpr (pingIp_verifies args destIp t)
  · exact (hicmp (i := 0) (by decide)).trans (IcmpHeader.bytes_type _)
  · exact (hicmp (i := 1) (by decide)).trans (IcmpHeader.bytes_code _)
  · exact be_eq_of_htons (x := 1)
      ((hleIcmp (a := 4) (by decide)).trans (IcmpHeader.le_identifier _))
  · exact be_eq_of_htons (x := 1)
      ((hleIcmp (a := 6) (by decide)).trans (IcmpHeader.le_sequenceNumber _))
  · exact (verifies_congr (by decide) fun i hi => hicmp hi).mpr (pingIcmp_verifies args destIp t)

/-! ### The ports -/

/-- The bytes that the ports of the card hold. -/
def Nic.held (s : Nic) : Mem := fun i => s.ports (sendBase + UInt16.ofNat i)

variable {packet} {s : Nic}

theorem port_eq_iff {i : Nat} (hi : i < 2 ^ 16) (q : UInt16) :
    q = sendBase + UInt16.ofNat i ↔ (q - sendBase).toNat = i := by
  have hto : (UInt16.ofNat i).toNat = i := UInt16.toNat_ofNat_of_lt' hi
  have hq := q.toNat_lt
  have hb := sendBase.toNat_lt
  rw [← UInt16.toNat_inj, UInt16.toNat_add, UInt16.toNat_sub, hto]
  omega

/-- What the loop leaves in a port. -/
theorem networkSendLoop_ports {n i : Nat} (h : i + n ≤ 2 ^ 16) (q : UInt16) :
    (networkSendLoop args packet n i s).ports q =
      if i ≤ (q - sendBase).toNat ∧ (q - sendBase).toNat < i + n then packet (q - sendBase).toNat
      else s.ports q := by
  induction n generalizing i s with
  | zero => rw [networkSendLoop, if_neg (by omega)]
  | succ n ih =>
      rw [networkSendLoop, ih (by omega)]
      simp only [Function.update_apply]
      by_cases hq : q = sendBase + UInt16.ofNat i
      · have heq := (port_eq_iff (by omega) q).mp hq
        rw [if_neg (by omega), if_pos hq, if_pos (by omega), heq]
      · have hne := mt (port_eq_iff (by omega) q).mpr hq
        rw [if_neg hq]
        by_cases hin : i + 1 ≤ (q - sendBase).toNat ∧ (q - sendBase).toNat < i + 1 + n
        · rw [if_pos hin, if_pos (by omega)]
        · rw [if_neg hin, if_neg (by omega)]

/-- The command goes to the port of byte 16. -/
theorem networkSend_ports {n : Nat} (h : n ≤ 2 ^ 16) (q : UInt16) :
    (networkSend args packet n s).ports q =
      if (q - sendBase).toNat = 16 then 1
      else if (q - sendBase).toNat < n then packet (q - sendBase).toNat else s.ports q := by
  have hport := port_eq_iff (i := 16) (by decide) q
  rw [networkSend]
  show Function.update _ (sendBase + UInt16.ofNat 16) _ q = _
  rw [Function.update_apply, networkSendLoop_ports args (by omega)]
  simp only [hport, Nat.zero_le, true_and, Nat.zero_add]

theorem networkSend_held {n i : Nat} (h : n ≤ 2 ^ 16) (hi : i < n) :
    (networkSend args packet n s).held i = if i = 16 then 1 else packet i := by
  have hoff := (port_eq_iff (by omega) (sendBase + UInt16.ofNat i)).mp rfl
  rw [Nic.held, networkSend_ports args h, hoff, if_pos hi]

variable (packet s) (remark : List UInt8)

theorem sendPing_held_apply {i : Nat} (hi : i < 28) :
    (sendPing args packet remark destIp s).held i
      = if i = 16 then 1 else (pingPacket args packet destIp s.terminal).1 i :=
  networkSend_held args (by decide) hi

theorem sendPing_held_of_ne {i : Nat} (hi : i < 28) (hne : i ≠ 16) :
    (sendPing args packet remark destIp s).held i
      = (pingPacket args packet destIp s.terminal).1 i :=
  (sendPing_held_apply args packet destIp s remark hi).trans (if_neg hne)

/-- The first octet of the destination is byte 16. -/
theorem pingPacket_octet :
    ((pingPacket args packet destIp t).1 16).toNat = destIp.toNat / 2 ^ 24 := by
  obtain ⟨⟨-, -, -, -, -, hdest, -⟩, -⟩ := pingPacket_wellFormed args packet destIp t
  have h₁ := ((pingPacket args packet destIp t).1 (16 + 1)).toNat_lt
  have h₂ := ((pingPacket args packet destIp t).1 (16 + 2)).toNat_lt
  have h₃ := ((pingPacket args packet destIp t).1 (16 + 3)).toNat_lt
  rw [be_four] at hdest
  omega

/-- The host that the card is told to send to. -/
theorem sendPing_destination :
    be (sendPing args packet remark destIp s).held 16 4 = 2 ^ 24 + destIp.toNat % 2 ^ 24 := by
  obtain ⟨⟨-, -, -, -, -, hdest, -⟩, -⟩ := pingPacket_wellFormed args packet destIp s.terminal
  have hoctet := pingPacket_octet args packet destIp s.terminal
  have hcommand : (sendPing args packet remark destIp s).held 16 = 1 :=
    (sendPing_held_apply args packet destIp s remark (by decide)).trans (if_pos rfl)
  rw [be_four] at hdest ⊢
  rw [hcommand, sendPing_held_of_ne args packet destIp s remark (by decide) (by decide),
    sendPing_held_of_ne args packet destIp s remark (by decide) (by decide),
    sendPing_held_of_ne args packet destIp s remark (by decide) (by decide)]
  show 2 ^ 24 * 1 + _ + _ + _ = _
  omega

/-- The command breaks the checksum of the header, unless it is what the byte was. -/
theorem sendPing_verifies_iff :
    Verifies (sendPing args packet remark destIp s).held 20 ↔ destIp.toNat / 2 ^ 24 = 1 := by
  obtain ⟨⟨hversion, -, -, -, -, -, hverifies⟩, -⟩ :=
    pingPacket_wellFormed args packet destIp s.terminal
  have hsame : ∀ i < 20, (sendPing args packet remark destIp s).held i
      = memcpy (pingPacket args packet destIp s.terminal).1 (2 * 8) (fun _ => 1) 1 i := by
    intro i hi
    rw [sendPing_held_apply args packet destIp s remark (by omega)]
    split
    next h => rw [h, memcpy_apply_of_mem (by decide) (by decide)]
    next h => rw [memcpy_apply_of_notMem (by omega)]
  have h₀ : memcpy (pingPacket args packet destIp s.terminal).1 (2 * 8) (fun _ => 1) 1 0 ≠ 0 := by
    rw [memcpy_apply_of_notMem (.inl (by decide)), hversion]
    decide
  rw [verifies_congr (by decide) hsame,
    verifies_replace_iff (by decide) (by decide) hverifies h₀, ← UInt8.toNat_inj,
    pingPacket_octet args packet destIp s.terminal]
  rfl

/-- The card holds the packet except for the first octet of the destination,
which the command has replaced by 1. -/
theorem sendPing_held :
    (∀ i < 28, i ≠ 16 → (sendPing args packet remark destIp s).held i
      = (pingPacket args packet destIp s.terminal).1 i) ∧
    be (pingPacket args packet destIp s.terminal).1 16 4 = destIp.toNat ∧
    be (sendPing args packet remark destIp s).held 16 4 = 2 ^ 24 + destIp.toNat % 2 ^ 24 ∧
    Verifies (pingPacket args packet destIp s.terminal).1 20 ∧
    (Verifies (sendPing args packet remark destIp s).held 20 ↔ destIp.toNat / 2 ^ 24 = 1) ∧
    ∀ q, 28 ≤ (q - sendBase).toNat →
      (sendPing args packet remark destIp s).ports q = s.ports q := by
  obtain ⟨⟨-, -, -, -, -, hdest, hverifies⟩, -⟩ :=
    pingPacket_wellFormed args packet destIp s.terminal
  refine ⟨fun i hi hne => sendPing_held_of_ne args packet destIp s remark hi hne, hdest,
    sendPing_destination args packet destIp s remark, hverifies,
    sendPing_verifies_iff args packet destIp s remark, fun q hq => ?_⟩
  refine (networkSend_ports args (by decide) q).trans ?_
  rw [if_neg (by omega), if_neg (by rw [ipSize, icmpSize]; omega)]

end

/-! ### Answers -/

section

variable (args : Nat → Vararg) (card : Nat → UInt16 → UInt8) (buffer : Mem) (t : Terminal)

theorem networkReceiveLoop_buffer (n i a : Nat) :
    (networkReceiveLoop args card n i buffer t).1 a =
      if i ≤ a ∧ a < i + n then card (2 + a) (receiveBase + UInt16.ofNat a) else buffer a := by
  induction n generalizing i buffer t with
  | zero => rw [networkReceiveLoop, if_neg (by omega)]
  | succ n ih =>
      rw [networkReceiveLoop, ih]
      by_cases ha : a = i
      · rw [if_neg (by omega), if_pos (by omega), memcpy_apply_of_mem (by omega) (by omega), ha]
      · rw [memcpy_apply_of_notMem (by omega)]
        by_cases hin : i + 1 ≤ a ∧ a < i + 1 + n
        · rw [if_pos hin, if_pos (by omega)]
        · rw [if_neg hin, if_neg (by omega)]

/-- The card has a packet that goes as far as the code, with the type and the
code of an answer. -/
structure Answered : Prop where
  available : card 0 (receiveBase + 0x20) &&& 0x01 ≠ 0
  length : 22 ≤ (card 1 (receiveBase + 0x24)).toNat
  type : card 22 (receiveBase + 20) = 0
  code : card 23 (receiveBase + 21) = 0

theorem receivePing_fst : (receivePing args card buffer t).1 = true ↔
    (networkReceive args card buffer 1500 t).2.1 20 = 0 ∧
      (networkReceive args card buffer 1500 t).2.1 21 = 0 := by
  rw [receivePing]
  split
  next h => exact iff_of_true rfl h
  next h => exact iff_of_false Bool.false_ne_true h

theorem receivePing_answered (h : Answered card) : (receivePing args card buffer t).1 = true := by
  have hlength : ¬(card 1 (receiveBase + 0x24)).toNat > 1500 := by
    have := (card 1 (receiveBase + 0x24)).toNat_lt
    omega
  have hlong := h.length
  rw [receivePing_fst, networkReceive, if_pos h.available]
  simp only [if_neg hlength, networkReceiveLoop_buffer]
  rw [if_pos (by omega), if_pos (by omega)]
  exact ⟨h.type, h.code⟩

/-- With nothing to receive the buffer decides. -/
theorem receivePing_silent (h : card 0 (receiveBase + 0x20) &&& 0x01 = 0) :
    (receivePing args card buffer t).1 = true ↔ buffer 20 = 0 ∧ buffer 21 = 0 := by
  rw [receivePing_fst, networkReceive, if_neg (not_not.mpr h)]

/-- What a host with the address `own` has to find in the ports to take it for
an echo request; `protocols` are the numbers that it takes for ICMP. -/
structure Request (held : Mem) (own : UInt32) (protocols : Set UInt8) : Prop where
  header : Verifies held 20
  protocol : held 9 ∈ protocols
  destination : be held 16 4 = own.toNat
  type : held 20 = 8
  code : held 21 = 0
  body : Verifies (fun i => held (20 + i)) 8

/-- A card with that host behind it, which answers such requests and no others. -/
structure Host (held : Mem) (own : UInt32) (protocols : Set UInt8) : Prop where
  answers : Request held own protocols → Answered card
  silent : ¬Request held own protocols → card 0 (receiveBase + 0x20) &&& 0x01 = 0

variable (packet : Mem) (remark : List UInt8) (destIp : UInt32) (s : Nic)

theorem request_sendPing_iff (protocols : Set UInt8) :
    Request (sendPing args packet remark destIp s).held destIp protocols ↔
      0 ∈ protocols ∧ destIp.toNat / 2 ^ 24 = 1 := by
  have hother {i : Nat} (hi : i < 28) (hne : i ≠ 16) :=
    sendPing_held_of_ne args packet destIp s remark hi hne
  have hdest := sendPing_destination args packet destIp s remark
  have hverifies := sendPing_verifies_iff args packet destIp s remark
  obtain ⟨⟨-, -, -, hprotocol, -⟩, htype, hcode, -, -, hbody⟩ :=
    pingPacket_wellFormed args packet destIp s.terminal
  have hnine := (hother (by decide) (by decide)).trans hprotocol
  constructor
  · rintro ⟨hheader, hmem, -⟩
    rw [hnine] at hmem
    exact ⟨hmem, hverifies.mp hheader⟩
  · rintro ⟨hmem, hone⟩
    refine ⟨hverifies.mpr hone, by rwa [hnine], by omega,
      (hother (by decide) (by decide)).trans htype,
      (hother (by decide) (by decide)).trans hcode, ?_⟩
    exact (verifies_congr (by decide) fun i hi => hother (by omega) (by omega)).mpr hbody

/-- A ping of a host that is there succeeds when the address begins with 1 and
the host overlooks the protocol, or when the memory of the buffer happens to look
like an answer. -/
theorem ping_succeeds_iff {protocols : Set UInt8}
    (h : Host card (sendPing args packet remark destIp s).held destIp protocols) :
    (receivePing args card buffer t).1 = true ↔
      0 ∈ protocols ∧ destIp.toNat / 2 ^ 24 = 1 ∨ buffer 20 = 0 ∧ buffer 21 = 0 := by
  by_cases hr : Request (sendPing args packet remark destIp s).held destIp protocols
  · exact iff_of_true (receivePing_answered args card buffer t (h.answers hr))
      (.inl ((request_sendPing_iff args packet remark destIp s protocols).mp hr))
  · rw [receivePing_silent args card buffer t (h.silent hr), or_iff_right]
    exact fun hone => hr ((request_sendPing_iff args packet remark destIp s protocols).mpr hone)

end

/-- A card with nothing to receive. -/
def silentCard : Nat → UInt16 → UInt8 := fun _ _ => 0

/-- A card with zeros in all ports and an empty screen. -/
def sampleNic : Nic := ⟨fun _ => 0, emptyTerminal⟩

theorem host_silentCard (packet : Mem) :
    Host silentCard (sendPing noArguments packet [] 0xC0A80002 sampleNic).held 0xC0A80002 {1} where
  answers h := by
    have hprotocol := ((request_sendPing_iff noArguments packet [] 0xC0A80002 sampleNic _).mp h).1
    exact absurd (Set.mem_singleton_iff.mp hprotocol) (by decide)
  silent _ := rfl

/-- A card with an answer of 28 bytes. -/
def answeringCard : Nat → UInt16 → UInt8 := fun n _ => if n = 0 then 1 else if n = 1 then 28 else 0

/-- The host 1.0.0.2, which overlooks the protocol. -/
theorem host_answeringCard (packet : Mem) :
    Host answeringCard (sendPing noArguments packet [] 0x01000002 sampleNic).held 0x01000002
      {0, 1} where
  answers _ := ⟨by decide, by decide, rfl, rfl⟩
  silent h := by
    refine absurd ?_ h
    exact (request_sendPing_iff noArguments packet [] 0x01000002 sampleNic _).mpr
      ⟨Set.mem_insert _ _, by decide⟩

/-- A ping of 192.168.0.2 is never answered, and reported as answered when the
buffer lies in memory that is 0; one of 1.0.0.2 can be answered. -/
theorem ping_silent_or_answering :
    (receivePing noArguments silentCard (fun _ => 0) emptyTerminal).1 = true ∧
      ¬(receivePing noArguments silentCard (fun _ => 1) emptyTerminal).1 = true ∧
      (receivePing noArguments answeringCard (fun _ => 1) emptyTerminal).1 = true := by
  have h (buffer : Mem) := ping_succeeds_iff noArguments silentCard buffer emptyTerminal
    (fun _ => 0) [] 0xC0A80002 sampleNic (host_silentCard fun _ => 0)
  refine ⟨(h _).mpr (.inr ⟨rfl, rfl⟩), fun hok => ?_, ?_⟩
  · rcases (h _).mp hok with ⟨hprotocol, -⟩ | ⟨hzero, -⟩
    · exact absurd (Set.mem_singleton_iff.mp hprotocol) (by decide)
    · exact absurd hzero (by decide)
  · exact (ping_succeeds_iff noArguments answeringCard _ emptyTerminal (fun _ => 0) [] 0x01000002
      sampleNic (host_answeringCard fun _ => 0)).mpr (.inl ⟨Set.mem_insert _ _, by decide⟩)

end PotatoOS
