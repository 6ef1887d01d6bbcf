import Addition.Onion

/-!
# A packet along its route

What building wraps, peeling unwraps, hop by hop. The invariant of the backward loop is about
the end of the routing block: at each hop it is the filler of the hops before it, so the
blanks that a hop appends turn into the end of the next hop's block.
-/

namespace Addition.Onion

open ByteStrings Checked

/-! ### Entries -/

theorem get64_put64 (value : UInt64) (rest : Bytes) : get64 (put64 value ++ rest) = value := by
  have width : (put64 value).length = 8 := by simp [put64]
  have bound := value.toNat_lt
  rw [get64, List.take_left' width, put64, List.reverse_reverse, leValue_leBytes,
    Nat.mod_eq_of_lt (by omega), UInt64.ofNat_toNat]

/-- What the channel of a hop must be like to be read off its entry. -/
structure Plain (hop : Hop) : Prop where
  short : hop.nextChan.length ≤ 32
  noNul : 0 ∉ hop.nextChan

variable {hop : Hop} {keys : HopKeys} {sk ss : Bytes} {drawn : List HopKeys} {hops : List Hop}
  {sks : List Bytes} {out : Peeled} {filler assoc pad : Bytes}

theorem header_length (plain : Plain hop) (last : Bool) :
    (header last hop).length = kHdr := by
  have short := plain.short
  simp only [header, put64, kHdr, List.length_append, List.length_replicate, List.length_reverse,
    leBytes_length, List.length_singleton]
  omega

/-- The parts of a header and what stands behind it. -/
structure HeaderAt (last : Bool) (hop : Hop) (buf : Bytes) : Prop where
  flag : buf.headD 0 = if last then 1 else 0
  nextChan : ((buf.drop 1).take 32).takeWhile (· ≠ 0) = hop.nextChan
  amount : get64 (buf.drop 33) = hop.amount
  expiry : get64 (buf.drop 41) = hop.expiry

theorem header_read (plain : Plain hop) (last : Bool) (rest : Bytes) :
    HeaderAt last hop (header last hop ++ rest) := by
  let chan := hop.nextChan ++ List.replicate (32 - hop.nextChan.length) 0
  let behind := List.replicate (kHdr - 49) 0 ++ rest
  have split : header last hop ++ rest =
      (if last then 1 else 0) :: (chan ++ (put64 hop.amount ++ (put64 hop.expiry ++ behind))) := by
    simp [header, chan, behind]
  have chanWidth : chan.length = 32 := by
    have short := plain.short
    simp only [chan, List.length_append, List.length_replicate]
    omega
  have amountWidth : (chan ++ put64 hop.amount).length = 40 := by
    simp [chanWidth, put64]
  rw [split]
  constructor
  · rfl
  · rw [List.drop_one, List.tail_cons, List.take_left' chanWidth]
    have passes : ∀ octet ∈ hop.nextChan, decide (octet ≠ 0) = true := by
      intro octet member
      refine decide_eq_true fun zero => plain.noNul ?_
      rwa [← zero]
    rw [List.takeWhile_append_of_pos passes]
    simp
  · rw [List.drop_succ_cons, List.drop_left' chanWidth, get64_put64]
  · rw [List.drop_succ_cons, ← List.append_assoc, List.drop_left' amountWidth, get64_put64]

/-- The last hop's entry. -/
theorem readEntry_last (plain : Plain hop) (rest tag : Bytes) :
    readEntry (header true hop ++ rest) tag =
      .ok ⟨true, hop.nextChan, hop.amount, hop.expiry, [], tag⟩ := by
  obtain ⟨flag, nextChan, amount, expiry⟩ := header_read plain true rest
  rw [if_pos rfl] at flag
  simp only [readEntry, flag, nextChan, amount, expiry]
  rfl

/-- The entry of a hop that forwards. -/
theorem readEntry_next (plain : Plain hop) (some : hop.nextChan ≠ []) {code ct : Bytes}
    (routing tag : Bytes) (codeWidth : code.length = kMac) (ctWidth : ct.length = kKemCt) :
    readEntry (header false hop ++ code ++ ct ++ routing) tag =
      .ok ⟨false, hop.nextChan, hop.amount, hop.expiry, ct ++ routing ++ code, tag⟩ := by
  have headerWidth := header_length plain false
  obtain ⟨flag, nextChan, amount, expiry⟩ := header_read plain false (code ++ ct ++ routing)
  simp only [← List.append_assoc] at flag nextChan amount expiry
  rw [if_neg Bool.false_ne_true] at flag
  have codeRead : ((header false hop ++ code ++ ct ++ routing).drop kHdr).take kMac = code := by
    rw [List.append_assoc, List.append_assoc, List.drop_left' headerWidth, List.take_left' codeWidth]
  have ctRead : ((header false hop ++ code ++ ct ++ routing).drop (kHdr + kMac)).take kKemCt = ct := by
    have width : (header false hop ++ code).length = kHdr + kMac := by
      rw [List.length_append, headerWidth, codeWidth]
    rw [List.append_assoc _ ct, List.drop_left' width, List.take_left' ctWidth]
  have routingRead : (header false hop ++ code ++ ct ++ routing).drop kEntry = routing := by
    have width : (header false hop ++ code ++ ct).length = kEntry := by
      rw [List.length_append, List.length_append, headerWidth, codeWidth, ctWidth, kEntry]
    exact List.drop_left' width
  have named : hop.nextChan.isEmpty = false := by simpa using some
  simp only [readEntry, flag, nextChan, amount, expiry, codeRead, ctRead, routingRead, named]
  rfl

/-! ### One hop -/

variable {L : Libraries} {kem : Kem}

/-- A secret key opens what was encapsulated to the hop's key, whatever the coins. -/
structure Opens (kem : Kem) (hop : Hop) (sk : Bytes) : Prop where
  width : sk.length = kem.lengthSecretKey
  opens : ∀ coins ct ss, kem.encaps hop.pubkey coins = some (ct, ss) → kem.decaps ct.val sk = some ss

/-- The keys that building drew for a hop and the hop's secret key come from one secret. -/
def Shared (L : Libraries) (kem : Kem) (sk : Bytes) (keys : HopKeys) (ss : Bytes) : Prop :=
  sk.length = kem.lengthSecretKey ∧ keys.ct.length = kKemCt ∧ kem.decaps keys.ct sk = some ss ∧
    keys = keysOf L keys.ct ss

theorem mac_length (key routing assoc : Bytes) : (mac L key routing assoc).length = kMac := by
  rw [mac, List.length_take, (L.hmac key _).property]
  rfl

theorem stream_length (key : Bytes) (width : Nat) : (stream L key width).length = width :=
  (L.keyStream key width).property

/-- A packet with the code of its block is unmasked with the hop's stream and read. -/
theorem peel_opened (linked : L.kem = some kem) {routing : Bytes}
    (assoc : Bytes) (shared : Shared L kem sk keys ss) (width : routing.length = kRouting) :
    peel L assoc sk (Layer.packet ⟨keys.ct, routing, mac L keys.mu routing assoc⟩) =
      readEntry (xorBytes (routing ++ List.replicate kEntry 0) keys.ks)
        (toHex (kdf L ss "ADD-ONION replay" 16)) := by
  obtain ⟨skWidth, ctWidth, opened, drawn⟩ := shared
  obtain ⟨ct, mu, ks⟩ := keys
  obtain ⟨-, rfl, rfl⟩ := HopKeys.mk.inj drawn
  dsimp only at *
  generalize same : mac L (kdf L ss "ADD-ONION mu" 32) routing assoc = code
  have codeWidth : code.length = kMac := by rw [← same, mac_length]
  have packetWidth : (ct ++ routing ++ code).length = kPacket := by
    rw [List.length_append, List.length_append, ctWidth, width, codeWidth, kPacket]
  have ctRead : (ct ++ routing ++ code).take kKemCt = ct := by
    rw [List.append_assoc, List.take_left' ctWidth]
  have routingRead : ((ct ++ routing ++ code).drop kKemCt).take kRouting = routing := by
    rw [List.append_assoc, List.drop_left' ctWidth, List.take_left' width]
  have codeRead : (ct ++ routing ++ code).drop (kPacket - kMac) = code := by
    refine List.drop_left' ?_
    rw [List.length_append, ctWidth, width, kPacket, Nat.add_sub_cancel]
  simp only [Layer.packet, peel, packetWidth, ctRead, routingRead, codeRead, linked, skWidth,
    Wire.orError]
  simp [ensure, bind, Except.bind, opened, same]

/-! ### The whole route -/

/-- The hops of a route from one hop on, their secret keys and the keys that building drew.
Exactly the last hop has no next channel. -/
inductive Routed (L : Libraries) (kem : Kem) : List Hop → List Bytes → List HopKeys → Prop
  | last {hop : Hop} {sk ss : Bytes} {keys : HopKeys} (plain : Plain hop)
      (shared : Shared L kem sk keys ss) (empty : hop.nextChan = []) :
      Routed L kem [hop] [sk] [keys]
  | next {hop : Hop} {sk ss : Bytes} {keys : HopKeys} {hops : List Hop} {sks : List Bytes}
      {drawn : List HopKeys} (plain : Plain hop) (shared : Shared L kem sk keys ss)
      (some : hop.nextChan ≠ []) (rest : Routed L kem hops sks drawn) :
      Routed L kem (hop :: hops) (sk :: sks) (keys :: drawn)

theorem Routed.drawn_ne_nil (routed : Routed L kem hops sks drawn) : drawn ≠ [] := by
  cases routed <;> simp

theorem Routed.hops_ne_nil (routed : Routed L kem hops sks drawn) : hops ≠ [] := by
  cases routed <;> simp

theorem wrapHops_next (assoc pad filler : Bytes) (hop : Hop) (keys : HopKeys)
    {rest : List (Hop × HopKeys)} (some : rest ≠ []) :
    wrapHops L assoc pad filler ((hop, keys) :: rest) =
      wrapNext L assoc hop keys (wrapHops L assoc pad filler rest) := by
  cases rest with
  | nil => exact absurd rfl some
  | cons first rest => rfl

/-- What a hop must get out of its packet. -/
structure Delivers (hop : Hop) (last : Prop) (out : Peeled) : Prop where
  nextChan : out.nextChan = hop.nextChan
  amount : out.amount = hop.amount
  expiry : out.expiry = hop.expiry
  final : out.final = true ↔ last
  forwards : out.final = false → out.nextPacket.length = kPacket

/-- The hops of a route get what is theirs, in order. -/
def Delivered (hops : List Hop) (peeled : List Peeled) : Prop :=
  peeled.length = hops.length ∧ ∀ index (inside : index < hops.length),
    ∃ out, peeled[index]? = some out ∧ Delivers hops[index] (index + 1 = hops.length) out

theorem Delivered.last (own : Delivers hop True out) :
    Delivered [hop] [out] := by
  refine ⟨rfl, fun index inside => ?_⟩
  obtain rfl : index = 0 := by simpa using inside
  exact ⟨out, rfl, own.1, own.2, own.3, by simp [own.4], own.5⟩

theorem Delivered.next {peeled : List Peeled}
    (own : Delivers hop False out) (some : hops ≠ []) (later : Delivered hops peeled) :
    Delivered (hop :: hops) (out :: peeled) := by
  obtain ⟨width, each⟩ := later
  refine ⟨by simp [width], fun index inside => ?_⟩
  cases index with
  | zero =>
    refine ⟨out, rfl, own.1, own.2, own.3, ?_, own.5⟩
    simpa [some] using own.4
  | succ index =>
    obtain ⟨found, read, delivers⟩ := each index (by simpa using inside)
    refine ⟨found, by simpa using read, delivers.1, delivers.2, delivers.3, ?_, delivers.5⟩
    simpa using delivers.4

/-- The parts that one hop gets have their widths, the block ends in the filler of the hops
before, and the packet travels along the rest of the route. -/
structure Travels (L : Libraries) (assoc filler : Bytes) (hops : List Hop) (sks : List Bytes)
    (layer : Layer) : Prop where
  ct : layer.ct.length = kKemCt
  routing : layer.routing.length = kRouting
  code : layer.code.length = kMac
  ends : layer.routing.drop (kRouting - filler.length) = filler
  peels : ∃ peeled, peelRoute L assoc sks layer.packet = .ok peeled ∧ Delivered hops peeled

theorem Layer.packet_length {layer : Layer} (ct : layer.ct.length = kKemCt)
    (routing : layer.routing.length = kRouting) (code : layer.code.length = kMac) :
    layer.packet.length = kPacket := by
  rw [Layer.packet, List.length_append, List.length_append, ct, routing, code, kPacket]

theorem xor_undoes (value key : UInt8) : value ^^^ key ^^^ key = value := by
  rw [UInt8.xor_assoc, UInt8.xor_self, UInt8.xor_zero]

theorem Shared.stream (shared : Shared L kem sk keys ss) :
    keys.ks.length = kRouting + kEntry := by
  rw [shared.2.2.2]
  exact stream_length _ _

/-- The filler after a hop is one entry longer. -/
theorem growFiller_length (room : filler.length ≤ kRouting)
    (width : keys.ks.length = kRouting + kEntry) :
    (growFiller filler keys).length = filler.length + kEntry :=
  LayeredBlocks.fill_length (· ^^^ ·) 0 room width

theorem wrapLast_travels (linked : L.kem = some kem)
    (plain : Plain hop) (shared : Shared L kem sk keys ss)
    (width : pad.length + filler.length + kEntry = kRouting) :
    Travels L assoc filler [hop] [sk] (wrapLast L assoc pad filler hop keys) := by
  let text := header true hop ++ List.replicate (kEntry - kHdr) 0 ++ pad
  have textWidth : text.length = kRouting - filler.length := by
    rw [List.length_append, List.length_append, header_length plain, List.length_replicate]
    unfold kEntry kHdr at *
    omega
  have streamWidth := shared.stream
  have covered : text.length ≤ keys.ks.length := by omega
  have masked : (xorBytes text keys.ks).length = kRouting - filler.length := by
    rw [← textWidth]
    exact LayeredBlocks.under_length (· ^^^ ·) text keys.ks covered
  have routingWidth : (xorBytes text keys.ks ++ filler).length = kRouting := by
    rw [List.length_append, masked]
    omega
  constructor
  · exact shared.2.1
  · exact routingWidth
  · exact mac_length _ _ _
  · exact List.drop_left' masked
  · -- the entry comes out in front, and what is behind it does not matter
    have front := LayeredBlocks.innermost_unwraps (· ^^^ ·) (0 : UInt8) xor_undoes kEntry keys.ks
      text filler covered
    let shown := xorBytes (xorBytes text keys.ks ++ filler ++ List.replicate kEntry 0) keys.ks
    have parts : shown = header true hop ++
        (List.replicate (kEntry - kHdr) 0 ++ pad ++ shown.drop text.length) := by
      refine (List.take_append_drop text.length shown).symm.trans ?_
      rw [show shown.take text.length = text from front]
      simp only [text, List.append_assoc]
    let tag := toHex (kdf L ss "ADD-ONION replay" 16)
    refine ⟨[⟨true, hop.nextChan, hop.amount, hop.expiry, [], tag⟩], ?_, ?_⟩
    · have entry : readEntry shown tag =
          .ok ⟨true, hop.nextChan, hop.amount, hop.expiry, [], tag⟩ := by
        rw [parts, readEntry_last plain]
      have opened := (peel_opened linked assoc shared routingWidth).trans entry
      simp only [peelRoute, bind_ok, pure_ok]
      exact ⟨_, opened, [], rfl, rfl⟩
    · exact Delivered.last ⟨rfl, rfl, rfl, by simp, by simp⟩

theorem wrapNext_travels (linked : L.kem = some kem) {inner : Layer} (plain : Plain hop)
    (shared : Shared L kem sk keys ss) (some : hop.nextChan ≠ []) (nonempty : hops ≠ [])
    (room : filler.length + kEntry ≤ kRouting)
    (travels : Travels L assoc (growFiller filler keys) hops sks inner) :
    Travels L assoc filler (hop :: hops) (sk :: sks) (wrapNext L assoc hop keys inner) := by
  have streamWidth := shared.stream
  have frontWidth : (header false hop ++ inner.code ++ inner.ct).length = kEntry := by
    rw [List.length_append, List.length_append, header_length plain, travels.code, travels.ct, kEntry]
  have ends := travels.ends
  rw [growFiller_length (Nat.le_of_add_right_le room) streamWidth] at ends
  obtain ⟨routingWidth, kept, unwrapped⟩ := LayeredBlocks.wrap_unwraps (· ^^^ ·) (0 : UInt8)
    xor_undoes room streamWidth frontWidth travels.routing ends
  obtain ⟨peeled, later, delivered⟩ := travels.peels
  constructor
  · exact shared.2.1
  · exact routingWidth
  · exact mac_length _ _ _
  · exact kept
  · let tag := toHex (kdf L ss "ADD-ONION replay" 16)
    refine ⟨⟨false, hop.nextChan, hop.amount, hop.expiry, inner.packet, tag⟩ :: peeled, ?_, ?_⟩
    · have entry := readEntry_next plain some inner.routing tag travels.code travels.ct
      rw [← unwrapped] at entry
      have opened := (peel_opened linked assoc shared routingWidth).trans entry
      simp only [peelRoute, bind_ok, pure_ok]
      exact ⟨_, opened, peeled, later, rfl⟩
    · refine Delivered.next ⟨rfl, rfl, rfl, by simp, fun _ => ?_⟩ nonempty delivered
      exact Layer.packet_length travels.ct travels.routing travels.code

/-- The backward loop, from any hop on: `filler` is what the hops before it leave. -/
theorem wrapHops_travels (linked : L.kem = some kem) (routed : Routed L kem hops sks drawn)
    (width : pad.length + filler.length + hops.length * kEntry = kRouting) :
    Travels L assoc filler hops sks
      (wrapHops L assoc pad (drawn.dropLast.foldl growFiller filler) (hops.zip drawn)) := by
  induction routed generalizing filler with
  | last plain shared empty =>
    exact wrapLast_travels linked plain shared (by simpa using width)
  | @next hop sk ss keys hops sks drawn plain shared some rest ih =>
    rw [List.length_cons, Nat.add_mul, Nat.one_mul] at width
    have grown : (growFiller filler keys).length = filler.length + kEntry :=
      growFiller_length (by omega) shared.stream
    rw [List.zip_cons_cons, wrapHops_next _ _ _ _ _ (by simp [rest.hops_ne_nil, rest.drawn_ne_nil]),
      List.dropLast_cons_of_ne_nil rest.drawn_ne_nil, List.foldl_cons]
    refine wrapNext_travels linked plain shared some rest.hops_ne_nil (by omega) ?_
    exact ih (by omega)

/-! ### The loops of building -/

theorem drawKeys_routed (linked : L.kem = some kem) (coins : Nat → Bytes)
    (opens : List.Forall₂ (Opens kem) hops sks)
    (noNul : ∀ hop ∈ hops, 0 ∉ hop.nextChan) (nonempty : hops ≠ []) (index : Nat)
    (drawn : List HopKeys) (result : drawKeys L coins index hops = .ok drawn) :
    Routed L kem hops sks drawn := by
  induction opens generalizing index drawn with
  | nil => exact absurd rfl nonempty
  | @cons hop sk hops sks own rest ih =>
    simp only [drawKeys, bind_ok, Wire.orError_ok, exists_unit, ensure_ok, pure_ok, encaps, linked,
      Option.bind_some, Prod.exists] at result
    obtain ⟨ct, ss, encapsulated, channel, later, drawnLater, rfl⟩ := result
    obtain ⟨-, encapsulated⟩ := Option.ite_none_right_eq_some.mp encapsulated
    simp only [Bool.not_eq_true', Bool.or_eq_false_iff, decide_eq_false_iff_not] at channel
    have plain : Plain hop := ⟨Nat.le_of_not_lt channel.1, noNul hop (by simp)⟩
    have shared : Shared L kem sk (keysOf L ct.val ss) ss :=
      ⟨own.width, ct.property, own.opens _ _ _ encapsulated, rfl⟩
    cases rest with
    | nil =>
      obtain rfl : later = [] := by simpa [drawKeys] using drawnLater.symm
      exact .last plain shared (by simpa using channel.2)
    | cons first others =>
      refine .next plain shared (by simpa using channel.2) ?_
      exact ih (fun other member => noNul other (by simp [member])) (by simp) _ _
        drawnLater

theorem fillers_length (routed : Routed L kem hops sks drawn) (filler : Bytes)
    (room : filler.length + hops.length * kEntry ≤ kRouting) :
    (drawn.dropLast.foldl growFiller filler).length + kEntry =
      filler.length + hops.length * kEntry := by
  induction routed generalizing filler with
  | last => simp
  | @next hop sk ss keys hops sks drawn plain shared some rest ih =>
    rw [List.length_cons, Nat.add_mul, Nat.one_mul] at room ⊢
    have grown : (growFiller filler keys).length = filler.length + kEntry :=
      growFiller_length (by omega) shared.stream
    rw [List.dropLast_cons_of_ne_nil rest.drawn_ne_nil, List.foldl_cons, ih _ (by omega),
      grown]
    omega

/-- A packet that was built travels along its route: every hop peels it with its own key and
gets its channel, amount and expiry, and every hop but the last a packet of the same width for
the next one. -/
theorem built_packet_travels (L : Libraries) (kem : Kem) (linked : L.kem = some kem)
    (hops : List Hop) (sks : List Bytes) (opens : List.Forall₂ (Opens kem) hops sks)
    (noNul : ∀ hop ∈ hops, 0 ∉ hop.nextChan) (assoc : Bytes) (coins : Nat → Bytes)
    (pad : (width : Nat) → {octets : Bytes // octets.length = width}) (packet : Bytes)
    (built : build L coins pad hops assoc = .ok packet) :
    packet.length = kPacket ∧
      ∃ peeled, peelRoute L assoc sks packet = .ok peeled ∧ peeled.length = hops.length ∧
        ∀ index (inside : index < hops.length), ∃ out, peeled[index]? = some out ∧
          out.nextChan = hops[index].nextChan ∧ out.amount = hops[index].amount ∧
          out.expiry = hops[index].expiry ∧ (out.final = true ↔ index + 1 = hops.length) ∧
          (out.final = false → out.nextPacket.length = kPacket) := by
  simp only [build, bind_ok, exists_unit, ensure_ok, pure_ok, Bool.not_eq_true', Bool.or_eq_false_iff,
    decide_eq_false_iff_not, List.isEmpty_eq_false_iff] at built
  obtain ⟨⟨nonempty, few⟩, drawn, drawnKeys, rfl⟩ := built
  have routed := drawKeys_routed linked coins opens noNul nonempty 0 drawn drawnKeys
  have room : hops.length * kEntry ≤ kRouting :=
    Nat.mul_le_mul_right kEntry (Nat.le_of_not_lt few)
  have total := fillers_length routed [] (by simpa using room)
  rw [List.length_nil, Nat.zero_add] at total
  have travels : Travels L assoc [] hops sks (wrapHops L assoc
      (pad (kRouting - (drawn.dropLast.foldl growFiller []).length - kEntry)).val
      (drawn.dropLast.foldl growFiller []) (hops.zip drawn)) := by
    refine wrapHops_travels linked routed ?_
    rw [(pad _).property, List.length_nil]
    omega
  obtain ⟨peeled, run, width, each⟩ := travels.peels
  refine ⟨Layer.packet_length travels.ct travels.routing travels.code, peeled, run, width, ?_⟩
  intro index inside
  obtain ⟨out, found, delivers⟩ := each index inside
  exact ⟨out, found, delivers.nextChan, delivers.amount, delivers.expiry, delivers.final,
    delivers.forwards⟩

/-! ### A route of two hops -/

/-- A key encapsulation that puts its coins into the ciphertext. -/
def openKem : Kem where
  lengthPublicKey := 1
  lengthSecretKey := 1
  encaps := fun _ coins => some (⟨List.replicate kKemCt (coins.headD 0), by simp⟩, [coins.headD 0])
  decaps := fun ct _ => some [ct.headD 0]

/-- Libraries that hide nothing. -/
def openLibraries : Libraries where
  kem := some openKem
  hmac := fun key text => ⟨(key ++ text ++ List.replicate 64 0).take 64, by simp; omega⟩
  keyStream := fun key width => ⟨List.replicate width (key.headD 0), by simp⟩

/-- A route of two hops. -/
def sampleRoute : List Hop := [⟨[1], ascii "c2", 1010, 500⟩, ⟨[2], [], 1000, 494⟩]

/-- A packet of two hops is peeled by both. -/
theorem two_hops_travel :
    ∃ packet peeled,
      build openLibraries (fun index => [UInt8.ofNat index]) (fun width => ⟨List.replicate width 7, by simp⟩)
        sampleRoute (ascii "hash") = .ok packet ∧
      peelRoute openLibraries (ascii "hash") [[3], [4]] packet = .ok peeled ∧ peeled.length = 2 := by
  obtain ⟨packet, built⟩ : ∃ packet, build openLibraries (fun index => [UInt8.ofNat index])
      (fun width => ⟨List.replicate width 7, by simp⟩) sampleRoute (ascii "hash") = .ok packet :=
    ⟨_, rfl⟩
  have opens : ∀ (hop : Hop) (sk : Bytes), sk.length = 1 → Opens openKem hop sk := by
    intro hop sk width
    refine ⟨width, fun coins ct ss encapsulated => ?_⟩
    obtain ⟨rfl, rfl⟩ := Prod.mk.inj (Option.some.inj encapsulated)
    rfl
  obtain ⟨_, peeled, run, width, _⟩ := built_packet_travels openLibraries openKem rfl sampleRoute
    [[3], [4]] (.cons (opens _ _ rfl) (.cons (opens _ _ rfl) .nil)) (by decide) (ascii "hash")
    (fun index => [UInt8.ofNat index]) _ packet built
  exact ⟨packet, peeled, built, run, width⟩

end Addition.Onion
