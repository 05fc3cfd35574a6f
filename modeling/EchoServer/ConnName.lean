import Mathlib.Algebra.Group.Nat.Defs
import Mathlib.Data.List.Basic

/-!
# The names of connections

`newConnection` names a connection after its server, the address the server
listens on and a running number, through a buffer of 64 bytes. The buffer is
large enough: distinct numbers below `2^31` give distinct names
(`connName_injective`).
-/

namespace EchoServer

/-- `sockaddr_in`: the octets of the address and the port, in host order. -/
structure InetAddress where
  octets : Fin 4 → BitVec 8
  port : BitVec 16

/-- `%u`, and `%d` of a number that is not negative. -/
def decimal (n : Nat) : List Char := Nat.toDigits 10 n

/-- `inet_ntop`. -/
def InetAddress.toIp (a : InetAddress) : List Char :=
  decimal (a.octets 0).toNat ++ '.' :: (decimal (a.octets 1).toNat ++
    '.' :: (decimal (a.octets 2).toNat ++ '.' :: decimal (a.octets 3).toNat))

def InetAddress.toIpPort (a : InetAddress) : List Char :=
  a.toIp ++ ':' :: decimal a.port.toNat

/-- The name `newConnection` composes: `snprintf` leaves at most 63 characters
in its buffer. -/
def connName (name ipPort : List Char) (nextConnId : Nat) : List Char :=
  name ++ ('-' :: (ipPort ++ '#' :: decimal nextConnId)).take 63

theorem decimal_length_le {n k : Nat} (hk : 0 < k) (hn : n < 10 ^ k) :
    (decimal n).length ≤ k :=
  (Nat.length_toDigits_le_iff (by decide) hk).mpr hn

theorem decimal_injective {m n : Nat} (h : decimal m = decimal n) : m = n := by
  have hvalue := congrArg (fun ds => Nat.ofDigitChars 10 ds 0) h
  simpa [decimal] using hvalue

theorem toIpPort_length_le (a : InetAddress) : a.toIpPort.length ≤ 21 := by
  have hoctet : ∀ i, (decimal (a.octets i).toNat).length ≤ 3 := by
    intro i
    refine decimal_length_le (by decide) ?_
    have := (a.octets i).isLt
    omega
  have hport : (decimal a.port.toNat).length ≤ 5 := by
    refine decimal_length_le (by decide) ?_
    have := a.port.isLt
    omega
  have h0 := hoctet 0
  have h1 := hoctet 1
  have h2 := hoctet 2
  have h3 := hoctet 3
  simp only [InetAddress.toIpPort, InetAddress.toIp, List.length_append, List.length_cons]
  omega

/-- Nothing is cut off. -/
theorem connName_eq (name : List Char) (a : InetAddress) {id : Nat} (hid : id < 2 ^ 31) :
    connName name a.toIpPort id = name ++ '-' :: (a.toIpPort ++ '#' :: decimal id) := by
  have hdigits : (decimal id).length ≤ 10 := by
    refine decimal_length_le (by decide) ?_
    omega
  have hip := toIpPort_length_le a
  rw [connName, List.take_of_length_le]
  simp only [List.length_cons, List.length_append]
  omega

/-- A server never gives two connections the same name. -/
theorem connName_injective (name : List Char) (a : InetAddress) {i j : Nat} (hi : i < 2 ^ 31)
    (hj : j < 2 ^ 31) (h : connName name a.toIpPort i = connName name a.toIpPort j) : i = j := by
  rw [connName_eq name a hi, connName_eq name a hj] at h
  have htail := List.append_cancel_left h
  have hnumbered := List.append_cancel_left (List.cons.inj htail).2
  exact decimal_injective (List.cons.inj hnumbered).2

end EchoServer
