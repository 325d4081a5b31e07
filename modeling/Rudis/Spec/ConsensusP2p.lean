import Rudis.Spec.Primitives

/-!
# `Rudis.Spec.ConsensusP2p`: the versioned validator P2P address

`encodeV1` and `decodeV1` are the byte codec of `consensus_p2p.rs`. The reader is a program over
the bytes that are left, as the source's `Cursor` is. A host name is the list of its bytes: the
UTF-8 check of the source and its character check fail with the same `InvalidHostname`, and every
byte above 127 fails the second one.
-/

namespace Rudis

/-- Version tag of the only address format. -/
def p2pAddressVersionV1 : Nat := 1

/-- Longest accepted payload. -/
def maxP2pAddressEncodedLen : Nat := 512

/-- An IPv4 or IPv6 address. -/
inductive IpAddr where
  | v4 (octets : Vector UInt8 4)
  | v6 (octets : Vector UInt8 16)
  deriving DecidableEq

/-- An IP address and a port. -/
structure SocketAddr where
  ip : IpAddr
  port : Nat
  deriving DecidableEq

/-- Where a peer accepts connections. -/
inductive P2pIngress where
  | socket (addr : SocketAddr)
  | dns (host : List UInt8) (port : Nat)
  deriving DecidableEq

/-- A peer's address: one socket for both directions, or one for each. -/
inductive P2pAddress where
  | symmetric (addr : SocketAddr)
  | asymmetric (ingress : P2pIngress) (egress : SocketAddr)
  deriving DecidableEq

/-- Why a payload is rejected. -/
inductive P2pAddressError where
  | unsupportedVersion (version : Nat)
  | tooLarge (actual max : Nat)
  | truncated
  | trailingBytes
  | invalidAddressKind (kind : UInt8)
  | invalidIngressKind (kind : UInt8)
  | invalidIpKind (kind : UInt8)
  | zeroPort
  | invalidHostname

/-! ### Encoding -/

/-- IP kind, octets, port. -/
def encodeSocket (socket : SocketAddr) : List UInt8 :=
  (match socket.ip with
    | .v4 octets => 4 :: octets.toList
    | .v6 octets => 6 :: octets.toList) ++ beBytes 2 socket.port

/-- Ingress kind, then a socket or a length-prefixed host and a port. -/
def encodeIngress : P2pIngress → List UInt8
  | .socket socket => 0 :: encodeSocket socket
  | .dns host port => 1 :: beBytes 2 (host.length % 2 ^ 16) ++ host ++ beBytes 2 port

/-- The payload of an address. -/
def encodeV1 : P2pAddress → List UInt8
  | .symmetric socket => 0 :: encodeSocket socket
  | .asymmetric ingress egress => 1 :: (encodeIngress ingress ++ encodeSocket egress)

/-! ### Decoding -/

/-- A reader over the bytes that are left. -/
abbrev Cursor := Tx P2pAddressError (List UInt8)

namespace Cursor

/-- Next byte. -/
def readU8 : Cursor UInt8 := fun
  | [] => (.error .truncated, [])
  | b :: rest => (.ok b, rest)

/-- Next `n` bytes. -/
def readExact (n : Nat) : Cursor (Vector UInt8 n) := fun bytes =>
  if h : n ≤ bytes.length then
    (.ok ⟨(bytes.take n).toArray, by simp [Nat.min_eq_left h]⟩, bytes.drop n)
  else
    (.error .truncated, bytes)

/-- Next big-endian `u16`. -/
def readU16 : Cursor Nat := do
  let bytes ← readExact 2
  pure (bytes[0].toNat * 256 + bytes[1].toNat)

/-- A port, which must not be zero. -/
def readPort : Cursor Nat := do
  let port ← readU16
  failIf (port = 0) .zeroPort
  pure port

/-- The octets of an IP address of a given kind. -/
def readIp (ipKind : UInt8) : Cursor IpAddr :=
  if ipKind = 4 then IpAddr.v4 <$> readExact 4
  else if ipKind = 6 then IpAddr.v6 <$> readExact 16
  else Tx.fail (.invalidIpKind ipKind)

def readSocket : Cursor SocketAddr := do
  let ipKind ← readU8
  let ip ← readIp ipKind
  let port ← readPort
  pure ⟨ip, port⟩

end Cursor

/-- `u8::is_ascii_alphanumeric`. -/
def isAsciiAlphanumeric (b : UInt8) : Bool :=
  (48 ≤ b && b ≤ 57) || (65 ≤ b && b ≤ 90) || (97 ≤ b && b ≤ 122)

/-- Whether one dot-separated label of a host name is accepted. -/
def validLabel (label : List UInt8) : Bool :=
  label ≠ [] && label.length ≤ 63 && label.head? ≠ some 45 && label.getLast? ≠ some 45 &&
    label.all fun b => isAsciiAlphanumeric b || b == 45

/-- Whether a host name is accepted. -/
def validHostname (host : List UInt8) : Bool :=
  host ≠ [] && host.length ≤ 253 && (host.splitOn 46).all validLabel

def Cursor.readIngress : Cursor P2pIngress := do
  let kind ← readU8
  if kind = 0 then P2pIngress.socket <$> readSocket
  else if kind = 1 then do
    let hostLen ← readU16
    let host ← readExact hostLen
    failIf (validHostname host.toList = false) .invalidHostname
    let port ← readPort
    pure (.dns host.toList port)
  else Tx.fail (.invalidIngressKind kind)

/-- An address, with its kind byte. -/
def Cursor.readAddress : Cursor P2pAddress := do
  let kind ← readU8
  if kind = 0 then P2pAddress.symmetric <$> readSocket
  else if kind = 1 then do
    let ingress ← readIngress
    let egress ← readSocket
    pure (.asymmetric ingress egress)
  else Tx.fail (.invalidAddressKind kind)

/-- Decodes a whole payload: nothing may be left over. -/
def decodeV1 (payload : List UInt8) : Except P2pAddressError P2pAddress :=
  if payload.length > maxP2pAddressEncodedLen then
    .error (.tooLarge payload.length maxP2pAddressEncodedLen)
  else
    match Cursor.readAddress.run payload with
    | (.error e, _) => .error e
    | (.ok address, []) => .ok address
    | (.ok _, _ :: _) => .error .trailingBytes

def decodeVersioned (version : Nat) (payload : List UInt8) : Except P2pAddressError P2pAddress :=
  if version ≠ p2pAddressVersionV1 then .error (.unsupportedVersion version) else decodeV1 payload

end Rudis
