import Addition.Foundations.LayeredBlocks
import Addition.Readers

/-!
# Onions of routed payments

`htlc_onion.cpp`: a payer wraps one entry for each hop of a route, and each hop peels its own.
A hop's keys come from a key encapsulation to its route key. The routing block has one width
at every hop. A hop reads its entry in front of the unmasked block, and what is left behind
the entry is the block of the next hop.

The key encapsulation, the keyed digest and the key stream are linked libraries, and what is
drawn at random is an argument. The overwriting of secrets in memory is left out.
-/

namespace Addition.Onion

open ByteStrings Checked

/-- Hops of a route at most. -/
def kMaxHops : Nat := 4
/-- Octets of a capsule. -/
def kKemCt : Nat := 1568
/-- Octets of the header of a hop. -/
def kHdr : Nat := 64
/-- Octets of a code. -/
def kMac : Nat := 32
/-- Octets of the entry of a hop. -/
def kEntry : Nat := kHdr + kMac + kKemCt
/-- Octets of the routing of a packet. -/
def kRouting : Nat := kMaxHops * kEntry
/-- Octets of a packet. -/
def kPacket : Nat := kKemCt + kRouting + kMac

/-- `Hop`: what the sender knows of a hop. -/
structure Hop where
  pubkey : Bytes
  nextChan : Bytes
  amount : UInt64
  expiry : UInt64

/-- `Peeled`: what a hop reads off its layer. -/
structure Peeled where
  final : Bool
  nextChan : Bytes
  amount : UInt64
  expiry : UInt64
  nextPacket : Bytes
  replayTag : Bytes

/-- The key encapsulation. `encaps` takes the coins of one call. -/
structure Kem where
  lengthPublicKey : Nat
  lengthSecretKey : Nat
  encaps : Bytes → Bytes → Option ({octets : Bytes // octets.length = kKemCt} × Bytes)
  decaps : Bytes → Bytes → Option Bytes

/-- The linked libraries. The key encapsulation can be missing from a build. -/
structure Libraries where
  kem : Option Kem
  hmac : Bytes → Bytes → Hash512
  keyStream : Bytes → (width : Nat) → {octets : Bytes // octets.length = width}

variable (L : Libraries)

/-- `kdf`. -/
def kdf (ss : Bytes) (label : String) (width : Nat) : Bytes :=
  (L.hmac ss (ascii label)).val.take width

/-- `stream`. -/
def stream (key : Bytes) (width : Nat) : Bytes := (L.keyStream key width).val

/-- `mac`. -/
def mac (key routing assoc : Bytes) : Bytes := (L.hmac key (routing ++ assoc)).val.take kMac

/-- `put64`. -/
def put64 (value : UInt64) : Bytes := (leBytes 8 value.toNat).reverse

/-- `get64`. -/
def get64 (octets : Bytes) : UInt64 := UInt64.ofNat (leValue (octets.take 8).reverse)

/-- `encaps`. -/
def encaps (pk coins : Bytes) : Option ({octets : Bytes // octets.length = kKemCt} × Bytes) :=
  L.kem.bind fun kem => if pk.length = kem.lengthPublicKey then kem.encaps pk coins else none

/-- Octets under a key stream. -/
def xorBytes (text keys : Bytes) : Bytes := List.zipWith (· ^^^ ·) text keys

/-! ### Building -/

/-- What building keeps of one hop: the ciphertext, the key of its code and its key stream. -/
structure HopKeys where
  ct : Bytes
  mu : Bytes
  ks : Bytes

/-- The keys of a shared secret. -/
def keysOf (ct ss : Bytes) : HopKeys :=
  ⟨ct, kdf L ss "ADD-ONION mu" 32, stream L (kdf L ss "ADD-ONION rho" 32) (kRouting + kEntry)⟩

/-- The first loop of `build`, from a hop on: each hop's encapsulation, then its channel. -/
def drawKeys (coins : Nat → Bytes) : Nat → List Hop → Except String (List HopKeys)
  | _, [] => .ok []
  | index, hop :: rest => do
    let (ct, ss) ← Wire.orError ("onion: bad route key for hop " ++ toString index)
      (encaps L hop.pubkey (coins index))
    ensure (!(decide (hop.nextChan.length > 32) || (!rest.isEmpty) == hop.nextChan.isEmpty))
      "onion: bad hop channel"
    let keys ← drawKeys coins (index + 1) rest
    pure (keysOf L ct.val ss :: keys)

/-- One round of the filler: a blank entry more, under the end of a hop's stream. -/
def growFiller (filler : Bytes) (keys : HopKeys) : Bytes :=
  xorBytes (filler ++ List.replicate kEntry 0) (keys.ks.drop (kRouting - filler.length))

/-- The header of a hop: flag at 0, channel at 1, amount at 33, expiry at 41. -/
def header (last : Bool) (hop : Hop) : Bytes :=
  [if last then 1 else 0] ++ (hop.nextChan ++ List.replicate (32 - hop.nextChan.length) 0) ++
    put64 hop.amount ++ put64 hop.expiry ++ List.replicate (kHdr - 49) 0

/-- The parts of the packet that one hop gets. -/
structure Layer where
  ct : Bytes
  routing : Bytes
  code : Bytes

/-- `build` for the last hop: its entry and the padding under its stream, then the filler. -/
def wrapLast (assoc pad filler : Bytes) (hop : Hop) (keys : HopKeys) : Layer :=
  let plain := header true hop ++ List.replicate (kEntry - kHdr) 0 ++ pad
  let routing := xorBytes plain keys.ks ++ filler
  ⟨keys.ct, routing, mac L keys.mu routing assoc⟩

/-- `build` for another hop: the parts of the next hop's packet become its entry and the
block behind it. -/
def wrapNext (assoc : Bytes) (hop : Hop) (keys : HopKeys) (inner : Layer) : Layer :=
  let buf := header false hop ++ inner.code ++ inner.ct ++ inner.routing
  let routing := (xorBytes buf keys.ks).take kRouting
  ⟨keys.ct, routing, mac L keys.mu routing assoc⟩

/-- The last loop of `build`, from the last hop backwards. -/
def wrapHops (assoc pad filler : Bytes) : List (Hop × HopKeys) → Layer
  | [] => ⟨[], [], []⟩
  | [(hop, keys)] => wrapLast L assoc pad filler hop keys
  | (hop, keys) :: rest => wrapNext L assoc hop keys (wrapHops assoc pad filler rest)

/-- The octets of a layer. -/
def Layer.packet (layer : Layer) : Bytes := layer.ct ++ layer.routing ++ layer.code

/-- `build`. -/
def build (coins : Nat → Bytes) (pad : (width : Nat) → {octets : Bytes // octets.length = width})
    (hops : List Hop) (assoc : Bytes) : Except String Bytes := do
  ensure (!(hops.isEmpty || decide (hops.length > kMaxHops))) "onion: 1..4 hops"
  let keys ← drawKeys L coins 0 hops
  let filler := keys.dropLast.foldl growFiller []
  pure (wrapHops L assoc (pad (kRouting - filler.length - kEntry)).val filler
    (hops.zip keys)).packet

/-! ### Peeling -/

/-- The last part of `peel`: what an unmasked block says. -/
def readEntry (buf replayTag : Bytes) : Except String Peeled := do
  ensure (decide (buf.headD 0 ≤ 1)) "onion: bad header"
  let final := buf.headD 0 == 1
  let nextChan := ((buf.drop 1).take 32).takeWhile (· ≠ 0)
  let amount := get64 (buf.drop 33)
  let expiry := get64 (buf.drop 41)
  if final then pure ⟨final, nextChan, amount, expiry, [], replayTag⟩
  else do
    ensure (!nextChan.isEmpty) "onion: missing next channel"
    let nextPacket := (buf.drop (kHdr + kMac)).take kKemCt ++ buf.drop kEntry ++
      (buf.drop kHdr).take kMac
    pure ⟨final, nextChan, amount, expiry, nextPacket, replayTag⟩

/-- `peel`. -/
def peel (assoc sk packet : Bytes) : Except String Peeled := do
  ensure (decide (packet.length = kPacket)) "onion: bad size"
  let kem ← Wire.orError "onion: bad key" L.kem
  ensure (decide (sk.length = kem.lengthSecretKey)) "onion: bad key"
  let ss ← Wire.orError "onion: decaps failed" (kem.decaps (packet.take kKemCt) sk)
  let routing := (packet.drop kKemCt).take kRouting
  ensure (mac L (kdf L ss "ADD-ONION mu" 32) routing assoc == packet.drop (packet.length - kMac))
    "onion: bad mac"
  let ks := stream L (kdf L ss "ADD-ONION rho" 32) (kRouting + kEntry)
  readEntry (xorBytes (routing ++ List.replicate kEntry 0) ks)
    (toHex (kdf L ss "ADD-ONION replay" 16))

/-- A packet that travels along a route, each hop peeling what the one before it left. -/
def peelRoute (assoc : Bytes) : List Bytes → Bytes → Except String (List Peeled)
  | [], _ => .ok []
  | sk :: rest, packet => do
    let out ← peel L assoc sk packet
    let later ← peelRoute assoc rest out.nextPacket
    pure (out :: later)

end Addition.Onion
