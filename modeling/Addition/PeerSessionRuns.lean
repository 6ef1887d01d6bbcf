import Addition.ChannelSpends
import Addition.PeerSessions
import Addition.Persistence

/-!
# Handshakes along runs

Whatever order messages and answers come in, a name is bound to the first key that verifies under it,
and a message is handed on only for a name whose greeting was verified under that key. The numbers of
the greetings that a node keeps are those of the running block of 4096.
-/

namespace Addition

namespace PeerSessions

open ByteStrings Checked FiniteTables Runs TextLines

variable {P : Primitives}

/-! ### What a message can do -/

/-- Sessions that differ at most in the table of peers and the rates. -/
structure SameSessions (s left : PeerSessions) : Prop where
  handshakeOk : left.handshakeOk = s.handshakeOk
  outboundHsOk : left.outboundHsOk = s.outboundHsOk
  seenNonces : left.seenNonces = s.seenNonces
  peerPubkeys : left.peerPubkeys = s.peerPubkeys
  pins : left.pinnedPeerPubkeys = s.pinnedPeerPubkeys

theorem SameSessions.refl (s : PeerSessions) : SameSessions s s := ⟨rfl, rfl, rfl, rfl, rfl⟩

variable {left s : PeerSessions} {event : Event} {hello : Hello} {now : UInt64} {own : OwnIdentity}
  {pin : Option Bytes} {ack : Hello} {nonce : Bytes} {out : Outbound} {key peer message : Bytes}
  {outcome : Except String (Option Bytes)} {readings : Readings} {tested version sig : Bytes}

theorem SameSessions.withPeers (same : SameSessions s left) (peers : PeerNetwork) :
    SameSessions s (left.withPeers peers) :=
  ⟨same.handshakeOk, same.outboundHsOk, same.seenNonces, same.peerPubkeys, same.pins⟩

theorem SameSessions.noncesOf (same : SameSessions s left) (peer : Bytes) :
    left.noncesOf peer = s.noncesOf peer := by
  rw [PeerSessions.noncesOf, PeerSessions.noncesOf, same.seenNonces]

theorem enter_same (s : PeerSessions) (readings : Readings) (peer : Bytes) :
    SameSessions s (s.enter readings peer).2 := by
  unfold enter
  split
  · exact .refl s
  split <;> exact (SameSessions.refl s).withPeers _

theorem allowPeerMessage_same (s : PeerSessions) (now : UInt64) (peer : Bytes) (expensive : Bool) :
    SameSessions s (s.allowPeerMessage now peer expensive).2 := by
  unfold allowPeerMessage
  dsimp only
  split
  · exact ⟨rfl, rfl, rfl, rfl, rfl⟩
  split
  · exact ⟨rfl, rfl, rfl, rfl, rfl⟩
  split <;> exact ⟨rfl, rfl, rfl, rfl, rfl⟩

theorem SameSessions.trans {between : PeerSessions} (first : SameSessions s between)
    (second : SameSessions between left) : SameSessions s left :=
  ⟨second.handshakeOk.trans first.handshakeOk, second.outboundHsOk.trans first.outboundHsOk,
    second.seenNonces.trans first.seenNonces, second.peerPubkeys.trans first.peerPubkeys,
    second.pins.trans first.pins⟩

theorem approach_same (s : PeerSessions) (readings : Readings) (peer message : Bytes) :
    SameSessions s (s.approach readings peer message).2 := by
  have entered := enter_same s readings peer
  unfold approach
  split
  · rename_i refusal left found
    rwa [found] at entered
  rename_i between found
  rw [found] at entered
  dsimp only at entered
  split
  · exact entered
  have allowed := allowPeerMessage_same between readings.asks peer (isExpensive message)
  split
  · rename_i refusal left asked
    rw [asked] at allowed
    exact (entered.trans allowed).withPeers _
  · rename_i left asked
    rw [asked] at allowed
    exact entered.trans allowed

/-- A greeting of a peer that is checked and new, and whose number and key the node keeps. -/
structure Greets (P : Primitives) (s : PeerSessions) (own : OwnIdentity) (readings : Readings)
    (peer message : Bytes) (hello : Hello) : Prop where
  approached : (s.approach readings peer message).1 = .ok ()
  isHello : (ascii "HELLO|").isPrefixOf message = true
  read : readHello "invalid hello" (message.drop 6) = .ok hello
  checked : checkHello P own (s.pinnedPeerPubkeys.lookup peer) readings.checks hello = .ok ()
  fresh : hello.nonce ∉ s.noncesOf peer

/-- What becomes of a message: it is turned away, refused as a greeting, kept as a greeting without an
answer for want of a signature, acknowledged, or handed on. -/
inductive Admits (P : Primitives) (s : PeerSessions) (own : OwnIdentity) (readings : Readings)
    (peer message : Bytes) : Except String (Option Bytes) → PeerSessions → Prop
  | turnedAway {refusal : String} {left : PeerSessions} (same : SameSessions s left)
      (silent : ∀ hello, ¬ Greets P s own readings peer message hello) :
      Admits P s own readings peer message (.error refusal) left
  | refused {refusal : String} {left : PeerSessions} (same : SameSessions s left)
      (silent : ∀ hello, ¬ Greets P s own readings peer message hello) :
      Admits P s own readings peer message (.error refusal) (left.refuse readings.marks peer)
  | unanswered {refusal : String} {left : PeerSessions} {hello : Hello} (same : SameSessions s left)
      (greets : Greets P s own readings peer message hello) :
      Admits P s own readings peer message (.error refusal)
        ((left.note peer hello).refuse readings.marks peer)
  | acknowledged {reply : Bytes} {left : PeerSessions} {hello : Hello} (same : SameSessions s left)
      (greets : Greets P s own readings peer message hello) :
      Admits P s own readings peer message (.ok (some reply))
        ((left.note peer hello).welcome readings.marks peer (negotiated hello.version))
  | handed {left : PeerSessions} (same : SameSessions s left)
      (silent : ∀ hello, ¬ Greets P s own readings peer message hello)
      (known : s.handshakeOk.lookup peer = some true) :
      Admits P s own readings peer message (.ok none) left

/-- What the authentication of a message can lead to. -/
theorem authenticate_admits (s : PeerSessions) (own : OwnIdentity) (readings : Readings) (peer message : Bytes) :
    Admits P s own readings peer message (s.authenticate P own readings peer message).1
      (s.authenticate P own readings peer message).2 := by
  have same := approach_same s readings peer message
  unfold authenticate
  split
  · rename_i refusal left found
    rw [found] at same
    exact .turnedAway same fun hello greets => nomatch greets.approached.symm.trans (congrArg Prod.fst found)
  rename_i allowed found
  rw [found] at same
  dsimp only at same
  split
  · rename_i isHello
    rw [PeerSessions.hello, greet, same.pins, same.noncesOf]
    cases read : readHello "invalid hello" (message.drop 6) with
    | error refusal =>
      exact .refused same fun hello greets => nomatch greets.read.symm.trans read
    | ok hello =>
      have one : ∀ other, Greets P s own readings peer message other → other = hello :=
        fun other greets => Except.ok.inj (greets.read.symm.trans read)
      dsimp only
      cases checked : checkHello P own (s.pinnedPeerPubkeys.lookup peer) readings.checks hello with
      | error refusal =>
        refine .refused same fun other greets => ?_
        have isOk := greets.checked
        rw [one other greets, checked] at isOk
        exact nomatch isOk
      | ok done =>
        dsimp only
        by_cases fresh : hello.nonce ∈ s.noncesOf peer
        · rw [if_pos fresh]
          exact .refused same fun other greets => greets.fresh (one other greets ▸ fresh)
        · rw [if_neg fresh]
          have greets : Greets P s own readings peer message hello :=
            ⟨congrArg Prod.fst found, isHello, read, checked, fresh⟩
          cases own.sign (signedBody (negotiated hello.version) own.network
              (decimal readings.checks.toNat) hello.nonce own.publicKey) with
          | none => exact .unanswered same greets
          | some sig => exact .acknowledged same greets
  · rename_i isHello
    have silent : ∀ hello, ¬ Greets P s own readings peer message hello :=
      fun hello greets => isHello greets.isHello
    split
    · rename_i known
      exact .handed same silent (same.handshakeOk ▸ known)
    · exact .turnedAway same silent

/-- A handler changes the table of peers only. -/
theorem handleInbound_left (s : PeerSessions) (own : OwnIdentity) (readings : Readings)
    (handler : Handler) (peer message : Bytes) :
    SameSessions (s.authenticate P own readings peer message).2
      (s.handleInboundMessage P own readings handler peer message).2 := by
  unfold handleInboundMessage
  split
  · rename_i found
    rw [found]
    exact .refl _
  · rename_i found
    rw [found]
    exact .refl _
  · rename_i found
    rw [found]
    exact (SameSessions.refl _).withPeers _

/-- What the node does for itself opens no session to it and keeps no number. -/
theorem step_quiet (s : PeerSessions)
    (quiet : ∀ own readings handler peer message, event ≠ .inbound own readings handler peer message) :
    (step P s event).handshakeOk = s.handshakeOk ∧ (step P s event).seenNonces = s.seenNonces := by
  cases event with
  | inbound own readings handler peer message => exact absurd rfl (quiet own readings handler peer message)
  | answer own out ts isOnion now answer =>
    rw [step]
    unfold takeAnswer
    split
    · by_cases given : (if isOnion = true then 5 else 2) ≤ out.transportFails + 1
      · simp only [if_pos given, and_self]
      · simp only [if_neg given, and_self]
    split
    · split <;> exact ⟨rfl, rfl⟩
    split <;> exact ⟨rfl, rfl⟩
  | cached now peer =>
    rw [step]
    unfold cached
    split
    · exact ⟨rfl, rfl⟩
    split <;> exact ⟨rfl, rfl⟩
  | begin peer => exact ⟨rfl, rfl⟩
  | work own out answer work =>
    rw [step]
    unfold takeWork
    split <;> exact ⟨rfl, rfl⟩
  | remember own now peer wireId => exact ⟨rfl, rfl⟩
  | forget peer => exact ⟨rfl, rfl⟩
  | failed peer => exact ⟨rfl, rfl⟩
  | others peers => exact ⟨rfl, rfl⟩

/-! ### Pins -/

/-- In an event a key speaks for a name: a greeting is kept, or an acknowledgement is taken. -/
inductive Speaks (P : Primitives) (peer key : Bytes) (s : PeerSessions) : Event → Prop
  | greeting {own : OwnIdentity} {readings : Readings} {handler : Handler} {message : Bytes}
      {hello : Hello} (greets : Greets P s own readings peer message hello) (isKey : hello.key = key) :
      Speaks P peer key s (.inbound own readings handler peer message)
  | acknowledgement {own : OwnIdentity} {out : Outbound} {ts : UInt64} {isOnion : Bool} {now : Int}
      {answer : Bytes} {ack : Hello} (isPeer : out.peer = peer)
      (isAck : (ascii "ok:HELLO_ACK|").isPrefixOf answer = true)
      (read : readAck P own (s.pinnedPeerPubkeys.lookup peer) out (helloNonce out.attempt ts)
        (answer.drop 13) = .ok ack) (isKey : ack.key = key) :
      Speaks P peer key s (.answer own out ts isOnion now (some answer))

/-- What a greeting has to meet. -/
theorem checkHello_ok :
    checkHello P own pin now hello = .ok () ↔
      (protoSupported hello.version = true ∧ hello.network = own.network) ∧
      (∃ ts, stoull hello.ts = some ts ∧ nearClock now ts = true) ∧ hello.nonce ≠ [] ∧
      (hello.key ≠ [] ∧ hello.sig ≠ []) ∧ sizesOk hello = true ∧ (∀ key, pin = some key → key = hello.key) ∧
      verifyMessageSignatureHybridUncached P hello.key
        (signedBody hello.version hello.network hello.ts hello.nonce hello.key) hello.sig = true := by
  have stamp : ∀ ts, helloTime hello.ts = .ok ts ↔ stoull hello.ts = some ts := by
    intro ts
    rw [helloTime]
    cases stoull hello.ts <;> simp
  have allowed : pin.all (· == hello.key) = true ↔ ∀ key, pin = some key → key = hello.key := by
    cases pin <;> simp
  simp only [checkHello, bind_ok, exists_unit, ensure_ok, stamp, allowed, Bool.and_eq_true, beq_iff_eq,
    Bool.not_eq_true', List.isEmpty_eq_false_iff]
  constructor
  · rintro ⟨version, ts, read, near, nonce, key, sizes, pinned, verified⟩
    exact ⟨version, ⟨ts, read, near⟩, nonce, key, sizes, pinned, verified⟩
  · rintro ⟨version, ⟨ts, read, near⟩, nonce, key, sizes, pinned, verified⟩
    exact ⟨version, ts, read, near, nonce, key, sizes, pinned, verified⟩

theorem pin_lookup (s : PeerSessions) (peer key tested : Bytes) :
    (s.pin peer key).pinnedPeerPubkeys.lookup tested =
      if tested = peer then some ((s.pinnedPeerPubkeys.lookup peer).getD key)
      else s.pinnedPeerPubkeys.lookup tested := by
  unfold pin
  dsimp only
  cases found : s.pinnedPeerPubkeys.lookup peer with
  | some pinned =>
    by_cases same : tested = peer
    · subst same
      simp [found]
    · simp [same]
  | none =>
    rw [Option.isSome_none, if_neg Bool.false_ne_true, lookup_insert]
    rfl

/-- What an answer to a greeting has to meet. -/
theorem checkAck_ok :
    checkAck P own pin out nonce ack = .ok () ↔
      (protoSupported ack.version = true ∧ protoNumber ack.version ≤ protoNumber out.version ∧
        ack.network = own.network ∧ ack.nonce = nonce ∧ ack.key ≠ [] ∧ ack.sig ≠ []) ∧
      sizesOk ack = true ∧ (∀ key, pin = some key → key = ack.key) ∧
      verifyMessageSignatureHybridUncached P ack.key
        (signedBody ack.version own.network ack.ts ack.nonce ack.key) ack.sig = true := by
  have allowed : pin.all (· == ack.key) = true ↔ ∀ key, pin = some key → key = ack.key := by
    cases pin <;> simp
  simp only [checkAck, bind_ok, exists_unit, ensure_ok, allowed, Bool.and_eq_true, beq_iff_eq,
    Bool.not_eq_true', List.isEmpty_eq_false_iff, decide_eq_true_eq, and_assoc]

theorem readAck_ok {body : Bytes}
    : readAck P own pin out nonce body = .ok ack ↔
      readHello "invalid HELLO_ACK fields" body = .ok ack ∧ checkAck P own pin out nonce ack = .ok () := by
  simp only [readAck, bind_ok, exists_unit, pure_ok]
  constructor
  · rintro ⟨found, read, checked, rfl⟩
    exact ⟨read, checked⟩
  · rintro ⟨read, checked⟩
    exact ⟨ack, read, checked, rfl⟩

/-- A key that speaks for a name agrees with the pin of the name. -/
theorem Speaks.agrees {pinned : Bytes}
    (speaks : Speaks P peer key s event) (there : s.pinnedPeerPubkeys.lookup peer = some pinned) :
    pinned = key := by
  cases speaks with
  | greeting greets isKey =>
    obtain ⟨-, -, -, -, -, allowed, -⟩ := checkHello_ok.mp greets.checked
    exact (allowed pinned there).trans isKey
  | acknowledgement isPeer isAck read isKey =>
    obtain ⟨-, -, allowed, -⟩ := checkAck_ok.mp (readAck_ok.mp read).2
    exact (allowed pinned there).trans isKey

/-- The pins after a message. -/
theorem Admits.pins (admits : Admits P s own readings peer message outcome left) :
    (∃ hello, Greets P s own readings peer message hello ∧
        left.pinnedPeerPubkeys = (s.pin peer hello.key).pinnedPeerPubkeys) ∨
      (∀ hello, ¬ Greets P s own readings peer message hello) ∧
        left.pinnedPeerPubkeys = s.pinnedPeerPubkeys := by
  have noted : ∀ {left : PeerSessions} (hello : Hello), SameSessions s left →
      (left.note peer hello).pinnedPeerPubkeys = (s.pin peer hello.key).pinnedPeerPubkeys := by
    intro left hello same
    change (left.pin peer hello.key).pinnedPeerPubkeys = _
    rw [pin, pin, same.pins]
  cases admits with
  | turnedAway same silent => exact .inr ⟨silent, same.pins⟩
  | refused same silent => exact .inr ⟨silent, same.pins⟩
  | unanswered same greets => exact .inl ⟨_, greets, noted _ same⟩
  | acknowledged same greets => exact .inl ⟨_, greets, noted _ same⟩
  | handed same silent _ => exact .inr ⟨silent, same.pins⟩

/-- A pin is what it was, or the key that came to a name without one. -/
theorem pin_eq_some {wanted : Bytes} :
    (s.pin peer key).pinnedPeerPubkeys.lookup tested = some wanted ↔
      s.pinnedPeerPubkeys.lookup tested = some wanted ∨
        (s.pinnedPeerPubkeys.lookup tested = none ∧ tested = peer ∧ key = wanted) := by
  rw [pin_lookup]
  by_cases same : tested = peer
  · subst same
    cases s.pinnedPeerPubkeys.lookup tested <;> simp
  · simp [same]

/-- Only an answer that was read pins a key. -/
theorem takeAnswer_pins (s : PeerSessions) (own : OwnIdentity) (out : Outbound) (ts : UInt64)
    (isOnion : Bool) (now : Int) (answer : Option Bytes) :
    (∃ text ack, answer = some text ∧ (ascii "ok:HELLO_ACK|").isPrefixOf text = true ∧
        readAck P own (s.pinnedPeerPubkeys.lookup out.peer) out (helloNonce out.attempt ts)
          (text.drop 13) = .ok ack ∧
        (s.takeAnswer P own out ts isOnion now answer).2 = s.acknowledge now out.peer ack) ∨
      (∀ peer key, ¬ Speaks P peer key s (.answer own out ts isOnion now answer)) ∧
        (s.takeAnswer P own out ts isOnion now answer).2.pinnedPeerPubkeys = s.pinnedPeerPubkeys := by
  unfold takeAnswer
  split
  · refine .inr ⟨(fun peer key speaks => nomatch speaks), ?_⟩
    by_cases given : (if isOnion = true then 5 else 2) ≤ out.transportFails + 1
    · simp only [if_pos given]
    · simp only [if_neg given]
  rename_i text
  split
  · rename_i isAck
    split
    · rename_i refusal read
      refine .inr ⟨fun peer key speaks => ?_, rfl⟩
      cases speaks with
      | acknowledgement isPeer _ taken _ =>
        subst isPeer
        exact nomatch taken.symm.trans read
    · rename_i ack read
      exact .inl ⟨text, ack, rfl, isAck, read, rfl⟩
  · rename_i noAck
    refine .inr ⟨fun peer key speaks => ?_, ?_⟩
    · cases speaks with
      | acknowledgement _ isAck _ _ => exact noAck isAck
    · split <;> rfl

/-- What is pinned after an event was pinned before, or is what speaks in the event for a name without
a pin. -/
theorem step_pins (s : PeerSessions) (event : Event) (peer key : Bytes) :
    (step P s event).pinnedPeerPubkeys.lookup peer = some key ↔
      s.pinnedPeerPubkeys.lookup peer = some key ∨
        (s.pinnedPeerPubkeys.lookup peer = none ∧ Speaks P peer key s event) := by
  have mute : (∀ peer key, ¬ Speaks P peer key s event) →
      (step P s event).pinnedPeerPubkeys = s.pinnedPeerPubkeys →
      ((step P s event).pinnedPeerPubkeys.lookup peer = some key ↔
        s.pinnedPeerPubkeys.lookup peer = some key ∨
          (s.pinnedPeerPubkeys.lookup peer = none ∧ Speaks P peer key s event)) := by
    intro silent same
    simp [same, silent]
  cases event with
  | inbound own readings handler name message =>
    have pins := (authenticate_admits (P := P) s own readings name message).pins
    rw [← (handleInbound_left s own readings handler name message).pins] at pins
    rcases pins with ⟨hello, greets, same⟩ | ⟨silent, same⟩
    · rw [step, same, pin_eq_some]
      refine or_congr Iff.rfl (and_congr Iff.rfl ?_)
      constructor
      · rintro ⟨rfl, isKey⟩
        exact .greeting greets isKey
      · intro speaks
        cases speaks with
        | greeting greets' isKey =>
          obtain rfl := Except.ok.inj (greets.read.symm.trans greets'.read)
          exact ⟨rfl, isKey⟩
    · refine mute (fun peer key speaks => ?_) same
      cases speaks with
      | greeting greets _ => exact silent _ greets
  | answer own out ts isOnion now answer =>
    rcases takeAnswer_pins (P := P) s own out ts isOnion now answer with
      ⟨text, ack, rfl, isAck, read, left⟩ | ⟨silent, same⟩
    · rw [step, left]
      change (s.pin out.peer ack.key).pinnedPeerPubkeys.lookup peer = some key ↔ _
      rw [pin_eq_some]
      refine or_congr Iff.rfl (and_congr Iff.rfl ?_)
      constructor
      · rintro ⟨rfl, isKey⟩
        exact .acknowledgement rfl isAck read isKey
      · intro speaks
        cases speaks with
        | acknowledgement isPeer _ read' isKey =>
          subst isPeer
          obtain rfl := Except.ok.inj (read.symm.trans read')
          exact ⟨rfl, isKey⟩
    · exact mute silent same
  | cached now name =>
    refine mute (fun peer key speaks => nomatch speaks) ?_
    rw [step]
    unfold cached
    split
    · rfl
    split <;> rfl
  | begin name => exact mute (fun peer key speaks => nomatch speaks) rfl
  | work own out answer work =>
    refine mute (fun peer key speaks => nomatch speaks) ?_
    rw [step]
    unfold takeWork
    split <;> rfl
  | remember own now name wireId => exact mute (fun peer key speaks => nomatch speaks) rfl
  | forget name => exact mute (fun peer key speaks => nomatch speaks) rfl
  | failed name => exact mute (fun peer key speaks => nomatch speaks) rfl
  | others peers => exact mute (fun peer key speaks => nomatch speaks) rfl

/-- A key that speaks is pinned from then on. -/
theorem Speaks.pins (speaks : Speaks P peer key s event) :
    (step P s event).pinnedPeerPubkeys.lookup peer = some key := by
  rw [step_pins]
  cases there : s.pinnedPeerPubkeys.lookup peer with
  | none => exact .inr ⟨rfl, speaks⟩
  | some pinned => exact .inl (congrArg some (speaks.agrees there))

theorem reached_snoc (start : PeerSessions) (front : List Event) (event : Event) :
    reached P start (front ++ [event]) = step P (reached P start front) event := by
  rw [reached, List.foldl_append]
  rfl

/-- The keys that speak for a name in a run are one key, which is pinned to the name from then on. Of a
name that has no pin at the start the pin is such a key, and a pin at the start stays. -/
theorem pins_speak (P : Primitives) (start : PeerSessions) (events : List Event) (peer key : Bytes) :
    (Happens (step P) (Speaks P peer key) start events →
        (reached P start events).pinnedPeerPubkeys.lookup peer = some key) ∧
      ((reached P start events).pinnedPeerPubkeys.lookup peer = some key →
        start.pinnedPeerPubkeys.lookup peer = some key ∨
          Happens (step P) (Speaks P peer key) start events) ∧
      (start.pinnedPeerPubkeys.lookup peer = some key →
        (reached P start events).pinnedPeerPubkeys.lookup peer = some key) := by
  induction events using List.reverseRecOn with
  | nil => exact ⟨fun happens => absurd happens not_happens_nil, .inl, id⟩
  | append_singleton front event ih =>
    obtain ⟨spoken, pinned, stays⟩ := ih
    rw [reached_snoc, happens_snoc]
    refine ⟨?_, ?_, fun there => (step_pins _ event peer key).mpr (.inl (stays there))⟩
    · rintro (before | speaks)
      · exact (step_pins _ event peer key).mpr (.inl (spoken before))
      · exact speaks.pins
    · rw [step_pins]
      rintro (before | ⟨-, speaks⟩)
      · exact (pinned before).imp id .inl
      · exact .inr (.inr speaks)

/-! ### The numbers of greetings -/

/-- The greeting that a message is. -/
def greeting (P : Primitives) (s : PeerSessions) (own : OwnIdentity) (readings : Readings)
    (peer message : Bytes) : Option Hello := do
  (s.approach readings peer message).1.toOption
  guard ((ascii "HELLO|").isPrefixOf message = true)
  let hello ← (readHello "invalid hello" (message.drop 6)).toOption
  (checkHello P own (s.pinnedPeerPubkeys.lookup peer) readings.checks hello).toOption
  guard (hello.nonce ∉ s.noncesOf peer)
  pure hello

theorem toOption_eq_some {ε α : Type} {outcome : Except ε α} {value : α} :
    outcome.toOption = some value ↔ outcome = .ok value := by
  cases outcome <;> simp [Except.toOption]

theorem greeting_eq_some
    :
    greeting P s own readings peer message = some hello ↔ Greets P s own readings peer message hello := by
  simp only [greeting, Option.bind_eq_bind, Option.bind_eq_some_iff, toOption_eq_some, exists_unit,
    Option.guard_eq_some', Option.pure_def, Option.some.injEq]
  constructor
  · rintro ⟨approached, isHello, found, read, checked, fresh, rfl⟩
    exact ⟨approached, isHello, read, checked, fresh⟩
  · intro greets
    exact ⟨greets.approached, greets.isHello, hello, greets.read, greets.checked, greets.fresh, rfl⟩

/-- The number that an event adds to those of a peer. -/
def noted (P : Primitives) (peer : Bytes) (s : PeerSessions) : Event → Option Bytes
  | .inbound own readings _ name message =>
    if name = peer then (greeting P s own readings name message).map Hello.nonce else none
  | _ => none

/-- The numbers that a peer greets with in a run. -/
def notedNonces (P : Primitives) (peer : Bytes) : PeerSessions → List Event → List Bytes
  | _, [] => []
  | s, event :: later => (noted P peer s event).toList ++ notedNonces P peer (step P s event) later

theorem notedNonces_snoc (peer : Bytes) (s : PeerSessions) (front : List Event) (event : Event) :
    notedNonces P peer s (front ++ [event]) =
      notedNonces P peer s front ++ (noted P peer (reached P s front) event).toList := by
  induction front generalizing s with
  | nil => simp [notedNonces, reached]
  | cons first front ih =>
    rw [List.cons_append, notedNonces, ih, notedNonces, List.append_assoc]
    rfl

/-- The last block of a list that is cut into blocks. -/
def lastBlock (size : Nat) (listed : List Bytes) : List Bytes :=
  listed.drop ((listed.length - 1) / size * size)

/-- A set that holds the last block holds the last block of the longer list when it has grown. -/
theorem grow_lastBlock {listed : List Bytes} {seen : Finset Bytes}
    (holds : seen = (lastBlock kMaxSeenNonces listed).toFinset)
    (distinct : (lastBlock kMaxSeenNonces listed).Nodup) (fresh : nonce ∉ seen) :
    grow seen nonce = (lastBlock kMaxSeenNonces (listed ++ [nonce])).toFinset ∧
      (lastBlock kMaxSeenNonces (listed ++ [nonce])).Nodup := by
  have card : (insert nonce seen).card = (lastBlock kMaxSeenNonces listed).length + 1 := by
    rw [Finset.card_insert_of_notMem fresh, holds, List.toFinset_card_of_nodup distinct]
  have width : (lastBlock kMaxSeenNonces listed).length =
      listed.length - (listed.length - 1) / kMaxSeenNonces * kMaxSeenNonces := List.length_drop
  have size : (listed ++ [nonce]).length - 1 = listed.length := by simp
  rw [grow, card, width]
  by_cases full : kMaxSeenNonces <
      listed.length - (listed.length - 1) / kMaxSeenNonces * kMaxSeenNonces + 1
  · have start : listed.length / kMaxSeenNonces * kMaxSeenNonces = listed.length := by
      simp only [kMaxSeenNonces] at *
      omega
    have block : lastBlock kMaxSeenNonces (listed ++ [nonce]) = [nonce] := by
      rw [lastBlock, size, start, List.drop_left' rfl]
    rw [if_pos full, block]
    exact ⟨rfl, List.nodup_singleton _⟩
  · have start : listed.length / kMaxSeenNonces * kMaxSeenNonces =
        (listed.length - 1) / kMaxSeenNonces * kMaxSeenNonces := by
      simp only [kMaxSeenNonces] at *
      omega
    have inside : (listed.length - 1) / kMaxSeenNonces * kMaxSeenNonces ≤ listed.length := by
      simp only [kMaxSeenNonces]
      omega
    have block : lastBlock kMaxSeenNonces (listed ++ [nonce]) =
        lastBlock kMaxSeenNonces listed ++ [nonce] := by
      rw [lastBlock, size, start, List.drop_append_of_le_length inside]
      rfl
    rw [if_neg full, block, List.toFinset_append, ← holds]
    refine ⟨?_, ?_⟩
    · rw [Finset.insert_eq, Finset.union_comm]
      rfl
    · refine distinct.append (List.nodup_singleton _) ?_
      rw [List.disjoint_singleton]
      rwa [holds, List.mem_toFinset] at fresh

theorem noncesOf_note (s : PeerSessions) (peer tested : Bytes) (hello : Hello) :
    (s.note peer hello).noncesOf tested =
      if tested = peer then grow (s.noncesOf peer) hello.nonce else s.noncesOf tested := by
  change ((s.seenNonces.insert peer (grow (s.noncesOf peer) hello.nonce)).lookup tested).getD ∅ = _
  rw [lookup_insert]
  split <;> rfl

/-- The numbers after a message. -/
theorem Admits.nonces
    (admits : Admits P s own readings peer message outcome left) (tested : Bytes) :
    left.noncesOf tested =
      match if tested = peer then greeting P s own readings peer message else none with
      | none => s.noncesOf tested
      | some hello => grow (s.noncesOf tested) hello.nonce := by
  have mute : (∀ hello, ¬ Greets P s own readings peer message hello) →
      (if tested = peer then greeting P s own readings peer message else none) = none := by
    intro silent
    have nothing : greeting P s own readings peer message = none :=
      Option.eq_none_iff_forall_ne_some.mpr fun hello found => silent hello (greeting_eq_some.mp found)
    rw [nothing, ite_self]
  have kept : ∀ {left : PeerSessions} {hello : Hello}, SameSessions s left →
      Greets P s own readings peer message hello →
      (left.note peer hello).noncesOf tested =
        match if tested = peer then greeting P s own readings peer message else none with
        | none => s.noncesOf tested
        | some hello => grow (s.noncesOf tested) hello.nonce := by
    intro left hello same greets
    rw [noncesOf_note, greeting_eq_some.mpr greets, same.noncesOf, same.noncesOf]
    by_cases isPeer : tested = peer
    · rw [if_pos isPeer, if_pos isPeer, isPeer]
    · rw [if_neg isPeer, if_neg isPeer]
  cases admits with
  | turnedAway same silent =>
    rw [mute silent]
    exact same.noncesOf tested
  | refused same silent =>
    rw [mute silent]
    exact same.noncesOf tested
  | unanswered same greets => exact kept same greets
  | acknowledged same greets => exact kept same greets
  | handed same silent _ =>
    rw [mute silent]
    exact same.noncesOf tested

/-- An event notes the nonce of an accepted greeting, and no other. -/
theorem step_nonces (s : PeerSessions) (event : Event) (peer : Bytes) :
    (step P s event).noncesOf peer =
      match noted P peer s event with
      | none => s.noncesOf peer
      | some nonce => grow (s.noncesOf peer) nonce := by
  by_cases loud : ∃ own readings handler name message, event = .inbound own readings handler name message
  · obtain ⟨own, readings, handler, name, message, rfl⟩ := loud
    rw [step, (handleInbound_left s own readings handler name message).noncesOf,
      (authenticate_admits (P := P) s own readings name message).nonces peer, noted]
    by_cases isPeer : name = peer
    · rw [if_pos isPeer, if_pos isPeer.symm]
      cases greeting P s own readings name message <;> rfl
    · rw [if_neg isPeer, if_neg (Ne.symm isPeer)]
  · have kept := (step_quiet (P := P) s fun own readings handler name message same =>
      loud ⟨own, readings, handler, name, message, same⟩).2
    have nothing : noted P peer s event = none := by
      cases event with
      | inbound own readings handler name message => exact absurd ⟨own, readings, handler, name, message, rfl⟩ loud
      | _ => rfl
    rw [nothing, noncesOf, kept]
    rfl

/-- A nonce that is noted is new. -/
theorem noted_fresh (found : noted P peer s event = some nonce) : nonce ∉ s.noncesOf peer := by
  cases event with
  | inbound own readings handler name message =>
    rw [noted] at found
    split at found
    · rename_i isPeer
      obtain ⟨hello, read, rfl⟩ := Option.map_eq_some_iff.mp found
      exact isPeer ▸ (greeting_eq_some.mp read).fresh
    · exact nomatch found
  | _ => exact nomatch found

/-- The numbers that a node keeps for a peer are those of the running block of its greetings, and they
are distinct: a number is taken again only when a block of 4096 greetings is full. -/
theorem nonces_kept (P : Primitives) (peers : PeerNetwork) (pins : List (Bytes × Bytes))
    (events : List Event) (peer : Bytes) :
    (reached P (started peers pins) events).noncesOf peer =
        (lastBlock kMaxSeenNonces (notedNonces P peer (started peers pins) events)).toFinset ∧
      (lastBlock kMaxSeenNonces (notedNonces P peer (started peers pins) events)).Nodup := by
  induction events using List.reverseRecOn with
  | nil =>
    have nothing : lastBlock kMaxSeenNonces [] = [] := List.drop_nil
    rw [notedNonces, nothing]
    exact ⟨rfl, List.nodup_nil⟩
  | append_singleton front event ih =>
    obtain ⟨holds, distinct⟩ := ih
    rw [reached_snoc, notedNonces_snoc, step_nonces]
    cases found : noted P peer (reached P (started peers pins) front) event with
    | none =>
      rw [Option.toList_none, List.append_nil]
      exact ⟨holds, distinct⟩
    | some nonce =>
      rw [Option.toList_some]
      exact grow_lastBlock holds distinct (noted_fresh found)

/-! ### Two nodes -/

theorem wantedField_append (message : String) (field rest : Bytes) (absent : Store.bar ∉ field) :
    Rotation.wantedField message Store.bar (some (field ++ Store.bar :: rest)) = .ok (field, some rest) := by
  rw [Rotation.wantedField, getline_append Store.bar field rest [] absent]
  rfl

theorem wantedField_last (message : String) (field : Bytes) (absent : newline ∉ field)
    (given : field ≠ []) :
    Rotation.wantedField message newline (some field) = .ok (field, none) := by
  rw [Rotation.wantedField, getline_last newline field [] absent]
  simp [given]

/-- A text that is a field of a line. -/
structure Plain (text : Bytes) : Prop where
  bar : Store.bar ∉ text
  newline : newline ∉ text

/-- The fields of a greeting without its signature. -/
structure Plainly (hello : Hello) : Prop where
  version : Plain hello.version
  network : Plain hello.network
  ts : Plain hello.ts
  nonce : Plain hello.nonce
  key : Plain hello.key
  sig : newline ∉ hello.sig

/-- The text that carries a greeting. -/
def carried (hello : Hello) : Bytes :=
  Rotation.joined [hello.version, hello.network, hello.ts, hello.nonce, hello.key, hello.sig]

/-- A greeting is read back from its fields. -/
theorem readHello_carried (message : String) (plain : Plainly hello)
    (signed : hello.sig ≠ []) : readHello message (carried hello) = .ok hello := by
  simp only [readHello, carried, Rotation.joined, Store.fields_cons, Store.fields_one,
    wantedField_append message _ _ plain.version.bar, wantedField_append message _ _ plain.network.bar,
    wantedField_append message _ _ plain.ts.bar, wantedField_append message _ _ plain.nonce.bar,
    wantedField_append message _ _ plain.key.bar, wantedField_last message _ plain.sig signed,
    bind, Except.bind, pure, Except.pure]

theorem carried_newline (plain : Plainly hello) : newline ∉ carried hello := by
  simp only [carried, Rotation.joined, Store.fields_cons, Store.fields_one, List.mem_append, List.mem_cons]
  have apart : newline ≠ Store.bar := by decide
  simp [plain.version.newline, plain.network.newline, plain.ts.newline, plain.nonce.newline,
    plain.key.newline, plain.sig, apart]

/-- A line gives back its name and its message. -/
theorem readLine_request {label : Bytes} (word : StreamWords.Spaceless label) (named : label ≠ [])
    (whole : newline ∉ message) : readLine (label ++ ascii " " ++ message) = (label, message) := by
  have cut : label ++ ascii " " ++ message = label ++ byte ' ' :: message := by
    rw [List.append_assoc]
    rfl
  have absent : newline ∉ byte ' ' :: message := by
    rw [List.mem_cons, not_or]
    exact ⟨by decide, whole⟩
  rw [cut, readLine, StreamWords.word_space word named (byte ' ') (by decide) message]
  dsimp only
  rw [getline_last newline _ [] absent]
  rfl

/-- A node that can sign: its key verifies what it signs, and the texts that it sends are fields. -/
structure CanSign (P : Primitives) (own : OwnIdentity) : Prop where
  label : StreamWords.Spaceless own.selfId
  named : own.selfId ≠ []
  network : Plain own.network
  key : Plain own.publicKey
  keySize : Rotation.isReasonableFieldSize own.publicKey Rotation.kMaxPubKeyHexLen = true
  signs : ∀ body, ∃ sig, own.sign body = some sig ∧ newline ∉ sig ∧
    Rotation.isReasonableFieldSize sig Rotation.kMaxSigHexLen = true ∧
    verifyMessageSignatureHybridUncached P own.publicKey body sig = true

theorem decimal_plain (value : Nat) : Plain (decimal value) :=
  ⟨not_mem_decimal value _ (by decide), not_mem_decimal value _ (by decide)⟩

theorem protoSupported_cases (supported : protoSupported version = true) :
    version = ascii "4" ∨ version = ascii "3" ∨ version = ascii "2" := by
  simpa [protoSupported, or_assoc] using supported

/-- A supported version is acknowledged as it is. -/
theorem negotiated_supported (supported : protoSupported version = true) :
    negotiated version = version := by
  rcases protoSupported_cases supported with rfl | rfl | rfl <;> decide

theorem version_plain (supported : protoSupported version = true) : Plain version := by
  rcases protoSupported_cases supported with rfl | rfl | rfl <;> exact ⟨by decide, by decide⟩

theorem helloNonce_plain (attempt : Nat) (ts : UInt64) : Plain (helloNonce attempt ts) := by
  have number := decimal_plain attempt
  have seconds := decimal_plain (ts.toNat % 1000000)
  constructor
  · simp only [helloNonce, List.mem_append, not_or]
    exact ⟨⟨⟨by decide, number.bar⟩, by decide⟩, seconds.bar⟩
  · simp only [helloNonce, List.mem_append, not_or]
    exact ⟨⟨⟨by decide, number.newline⟩, by decide⟩, seconds.newline⟩

theorem attemptId_label (can : CanSign P own) (attempt : Nat) :
    StreamWords.Spaceless (attemptId own attempt) ∧ attemptId own attempt ≠ [] := by
  unfold attemptId
  split
  · exact ⟨can.label, can.named⟩
  · refine ⟨(can.label.append ?_).append (StreamWords.decimal_spaceless attempt), ?_⟩
    · exact StreamWords.spaceless_of_all (by decide)
    · simp [can.named]

/-- What a node says of itself at a time, under a number and with a signature. -/
def stated (own : OwnIdentity) (version nonce : Bytes) (now : UInt64) (sig : Bytes) : Hello :=
  ⟨version, own.network, decimal now.toNat, nonce, own.publicKey, sig⟩

theorem reasonable_ne_nil {value : Bytes} {most : Nat}
    (reasonable : Rotation.isReasonableFieldSize value most = true) : value ≠ [] := by
  rintro rfl
  exact absurd reasonable (by simp [Rotation.isReasonableFieldSize])

/-- The number of a greeting is short. -/
theorem helloNonce_reasonable (attempt : Nat) (few : attempt < 8) (ts : UInt64) :
    Rotation.isReasonableFieldSize (helloNonce attempt ts) kMaxNonceLen = true := by
  have digits : ∀ value width : Nat, 0 < width → value < 10 ^ width → (decimal value).length ≤ width := by
    intro value width positive small
    rw [decimal, List.length_map]
    exact (Nat.length_toDigits_le_iff (by decide) positive).mpr small
  have number := digits attempt 1 (by decide) (by omega)
  have seconds := digits (ts.toNat % 1000000) 6 (by decide) (Nat.mod_lt _ (by decide))
  have starts : (ascii "s").length = 1 := rfl
  have dash : (ascii "-").length = 1 := rfl
  rw [Rotation.isReasonableFieldSize, Bool.and_eq_true, decide_eq_true_eq, Bool.not_eq_true',
    List.isEmpty_eq_false_iff, ← List.length_pos_iff]
  simp only [helloNonce, List.length_append, kMaxNonceLen]
  omega

/-- A greeting that the node keeps and can answer is acknowledged. -/
theorem Greets.acknowledged (greets : Greets P s own readings peer message hello)
    (signed : own.sign (signedBody (negotiated hello.version) own.network
      (decimal readings.checks.toNat) hello.nonce own.publicKey) = some sig) :
    ∃ left, SameSessions s left ∧ s.authenticate P own readings peer message =
      (.ok (some (ascii "HELLO_ACK|" ++
          carried (stated own (negotiated hello.version) hello.nonce readings.checks sig))),
        (left.note peer hello).welcome readings.marks peer (negotiated hello.version)) := by
  have same := approach_same s readings peer message
  have approached := greets.approached
  unfold authenticate
  cases found : s.approach readings peer message with
  | mk outcome left =>
    rw [found] at same approached
    dsimp only at same approached
    subst approached
    refine ⟨left, same, ?_⟩
    dsimp only
    rw [if_pos greets.isHello, PeerSessions.hello, greet, greets.read]
    dsimp only
    rw [same.pins, greets.checked]
    dsimp only
    rw [same.noncesOf, if_neg greets.fresh, signed]
    simp only [carried, stated, Rotation.joined, Store.fields_cons]
    rfl

theorem stated_plain (can : CanSign P own)
    (supported : protoSupported version = true) (number : Plain nonce) (whole : newline ∉ sig) :
    Plainly (stated own version nonce now sig) :=
  ⟨version_plain supported, can.network, decimal_plain _, number, can.key, whole⟩

theorem stated_sizes (can : CanSign P own)
    (number : Rotation.isReasonableFieldSize nonce kMaxNonceLen = true)
    (size : Rotation.isReasonableFieldSize sig Rotation.kMaxSigHexLen = true) :
    sizesOk (stated own version nonce now sig) = true := by
  simp only [sizesOk, stated, number, can.keySize, size, Bool.and_self]

/-- A name that has no other pin is pinned. -/
theorem pin_allowed
    (allowed : ∀ other, s.pinnedPeerPubkeys.lookup peer = some other → other = key) :
    (s.pin peer key).pinnedPeerPubkeys.lookup peer = some key := by
  rw [pin_lookup, if_pos rfl]
  cases there : s.pinnedPeerPubkeys.lookup peer with
  | none => rfl
  | some other => rw [Option.getD_some, allowed other there]

/-- Two nodes of one network that can sign make a handshake: if the greeting is let through, is on time
and is new, and neither side has another pin, then each side takes the other one under the other's key,
and both keep the version that was offered. -/
theorem handshake_completes (P : Primitives) (ours theirs : OwnIdentity) (us them : PeerSessions)
    (canSign : CanSign P ours) (canSign' : CanSign P theirs) (network : ours.network = theirs.network)
    (out : Outbound) (few : out.attempt < 8) (offered : protoSupported out.version = true)
    (ts : UInt64) (readings : Readings) (near : nearClock readings.checks ts = true)
    (approached : ∀ message,
      helloRequest ours out ts = .ok (attemptId ours out.attempt ++ ascii " " ++ message) →
        (them.approach readings (attemptId ours out.attempt) message).1 = .ok ())
    (new : helloNonce out.attempt ts ∉ them.noncesOf (attemptId ours out.attempt))
    (pin : ∀ key, us.pinnedPeerPubkeys.lookup out.peer = some key → key = theirs.publicKey)
    (pin' : ∀ key, them.pinnedPeerPubkeys.lookup (attemptId ours out.attempt) = some key →
      key = ours.publicKey)
    (handler : Handler) (isOnion : Bool) (now : Int) :
    ∃ request, helloRequest ours out ts = .ok request ∧
      let served := them.handleP2pLine P theirs readings handler request
      let done := us.takeAnswer P ours out ts isOnion now (some served.1)
      done.1 = .done (attemptId ours out.attempt) ∧
        done.2.outboundHsOk.lookup out.peer = some true ∧
        done.2.pinnedPeerPubkeys.lookup out.peer = some theirs.publicKey ∧
        done.2.peerProto.lookup out.peer = some (protoNumber out.version) ∧
        served.2.handshakeOk.lookup (attemptId ours out.attempt) = some true ∧
        served.2.pinnedPeerPubkeys.lookup (attemptId ours out.attempt) = some ours.publicKey ∧
        served.2.peerProto.lookup (attemptId ours out.attempt) = some (protoNumber out.version) := by
  obtain ⟨sig, signed, whole, size, verified⟩ := canSign.signs (signedBody out.version ours.network
    (decimal ts.toNat) (helloNonce out.attempt ts) ours.publicKey)
  obtain ⟨sig', signed', whole', size', verified'⟩ := canSign'.signs (signedBody out.version
    theirs.network (decimal readings.checks.toNat) (helloNonce out.attempt ts) theirs.publicKey)
  obtain ⟨spaceless, named⟩ := attemptId_label canSign out.attempt
  have reasonable := helloNonce_reasonable out.attempt few ts
  have number := helloNonce_plain out.attempt ts
  have plain : Plainly (stated ours out.version (helloNonce out.attempt ts) ts sig) :=
    stated_plain canSign offered number whole
  have plain' : Plainly (stated theirs out.version (helloNonce out.attempt ts) readings.checks sig') :=
    stated_plain canSign' offered number whole'
  -- the line that is sent, and what the other side reads
  have request : helloRequest ours out ts = .ok (attemptId ours out.attempt ++ ascii " " ++
      (ascii "HELLO|" ++ carried (stated ours out.version (helloNonce out.attempt ts) ts sig))) := by
    rw [helloRequest, signed]
    simp only [carried, stated, Rotation.joined, Store.fields_cons]
    rfl
  have lineWhole : newline ∉ ascii "HELLO|" ++
      carried (stated ours out.version (helloNonce out.attempt ts) ts sig) := by
    rw [List.mem_append, not_or]
    exact ⟨by decide, carried_newline plain⟩
  have greets : Greets P them theirs readings (attemptId ours out.attempt)
      (ascii "HELLO|" ++ carried (stated ours out.version (helloNonce out.attempt ts) ts sig))
      (stated ours out.version (helloNonce out.attempt ts) ts sig) := by
    refine ⟨approached _ request, List.isPrefixOf_iff_prefix.mpr (List.prefix_append _ _), ?_, ?_, new⟩
    · rw [List.drop_left' (by rfl)]
      exact readHello_carried _ plain (reasonable_ne_nil size)
    · exact checkHello_ok.mpr ⟨⟨offered, network⟩, ⟨ts, stoull_decimal ts, near⟩,
        reasonable_ne_nil reasonable, ⟨reasonable_ne_nil canSign.keySize, reasonable_ne_nil size⟩,
        stated_sizes canSign reasonable size, pin', verified⟩
  -- the answer, and what this side reads
  have version : negotiated (stated ours out.version (helloNonce out.attempt ts) ts sig).version = out.version :=
    negotiated_supported offered
  have signed'' : theirs.sign (signedBody (negotiated (stated ours out.version (helloNonce out.attempt ts)
      ts sig).version) theirs.network (decimal readings.checks.toNat) (helloNonce out.attempt ts)
      theirs.publicKey) = some sig' := by
    rw [version]
    exact signed'
  obtain ⟨left, same, admitted⟩ := greets.acknowledged signed''
  rw [version] at admitted
  generalize isSaid : stated ours out.version (helloNonce out.attempt ts) ts sig = said at *
  generalize isAck : stated theirs out.version said.nonce readings.checks sig' = ack at *
  have answered : them.handleP2pLine P theirs readings handler
      (attemptId ours out.attempt ++ ascii " " ++ (ascii "HELLO|" ++ carried said)) =
        (ascii "ok:HELLO_ACK|" ++ carried ack, (left.note (attemptId ours out.attempt) said).welcome
          readings.marks (attemptId ours out.attempt) out.version) := by
    have label : (attemptId ours out.attempt).isEmpty = false := List.isEmpty_eq_false_iff.mpr named
    rw [handleP2pLine, readLine_request spaceless named lineWhole]
    dsimp only
    rw [label, handleInboundMessage, admitted]
    rfl
  have taken : readAck P ours (us.pinnedPeerPubkeys.lookup out.peer) out (helloNonce out.attempt ts)
      (carried ack) = .ok ack := by
    subst isSaid isAck
    refine readAck_ok.mpr ⟨readHello_carried _ plain' (reasonable_ne_nil size'), checkAck_ok.mpr
      ⟨⟨offered, Nat.le_refl _, network.symm, rfl, reasonable_ne_nil canSign'.keySize,
        reasonable_ne_nil size'⟩, stated_sizes canSign' reasonable size', pin, ?_⟩⟩
    rw [network]
    exact verified'
  have starts : (ascii "ok:HELLO_ACK|").isPrefixOf (ascii "ok:HELLO_ACK|" ++ carried ack) = true :=
    List.isPrefixOf_iff_prefix.mpr (List.prefix_append _ _)
  refine ⟨_, request, ?_⟩
  dsimp only
  rw [answered, takeAnswer, if_pos starts, List.drop_left' (by rfl), taken]
  subst isSaid isAck
  refine ⟨rfl, AList.lookup_insert _, pin_allowed pin, AList.lookup_insert _, AList.lookup_insert _, ?_,
    AList.lookup_insert _⟩
  exact pin_allowed (s := left) (fun other there => pin' other (same.pins ▸ there))

/-- A node of the example network with a key of one octet. -/
def sampleNode (label : String) (key : UInt8) : OwnIdentity where
  selfId := ascii label
  network := ascii "net"
  publicKey := toHex [key]
  sign body := some (Channels.sampleSignature key body)

theorem toHex_without (octets : Bytes) (other : UInt8) (apart : isLowerHex other = false) :
    other ∉ toHex octets := by
  intro member
  rw [toHex_lower octets other member] at apart
  exact nomatch apart

theorem sampleNode_canSign (label : String) (key : UInt8)
    (plain : (ascii label).all (fun octet => !isSpace octet) = true) (named : ascii label ≠ []) :
    CanSign signingPrimitives (sampleNode label key) where
  label := StreamWords.spaceless_of_all plain
  named := named
  network :=
    have plain : Plain (ascii "net") := ⟨by decide, by decide⟩
    plain
  key := ⟨toHex_without _ _ (by decide), toHex_without _ _ (by decide)⟩
  keySize := rfl
  signs := by
    intro body
    have width : (sampleDigest 4 ([key] ++ body)).val.length = 4 := (sampleDigest 4 _).property
    have size : (Channels.sampleSignature key body).length = 11 := by
      rw [Channels.sampleSignature, List.length_append, toHex_length, width]
      rfl
    refine ⟨_, rfl, ?_, ?_, Channels.sampleSignature_verifies key body⟩
    · rw [Channels.sampleSignature, List.mem_append, not_or]
      exact ⟨by decide, toHex_without _ _ (by decide)⟩
    · rw [Rotation.isReasonableFieldSize, Bool.and_eq_true, decide_eq_true_eq, Bool.not_eq_true',
        List.isEmpty_eq_false_iff, ← List.length_pos_iff, size]
      decide

/-- A node with an empty table of peers. -/
def sampleStart : PeerSessions := started (PeerNetwork.limited 8 8 60) []

/-- The clock shows one hundred throughout. -/
def sampleReadings : Readings := ⟨100, 100, 100, 100, 100, 100⟩

theorem sampleStart_approached (message : Bytes) :
    (sampleStart.approach sampleReadings (ascii "ann") message).1 = .ok () := by
  rw [approach]
  generalize isExpensive message = expensive
  cases expensive <;> rfl

/-- Ann greets Bob. -/
theorem sample_handshake : ∃ request,
    helloRequest (sampleNode "ann" 1) (.first (ascii "bob:1")) 100 = .ok request ∧
      let served := sampleStart.handleP2pLine signingPrimitives (sampleNode "bob" 2) sampleReadings
        (fun peers => (.ok [], peers)) request
      let done := sampleStart.takeAnswer signingPrimitives (sampleNode "ann" 1) (.first (ascii "bob:1"))
        100 false 100 (some served.1)
      done.1 = .done (ascii "ann") ∧
        done.2.outboundHsOk.lookup (ascii "bob:1") = some true ∧
        done.2.pinnedPeerPubkeys.lookup (ascii "bob:1") = some (toHex [2]) ∧
        done.2.peerProto.lookup (ascii "bob:1") = some (protoNumber (ascii "4")) ∧
        served.2.handshakeOk.lookup (ascii "ann") = some true ∧
        served.2.pinnedPeerPubkeys.lookup (ascii "ann") = some (toHex [1]) ∧
        served.2.peerProto.lookup (ascii "ann") = some (protoNumber (ascii "4")) :=
  handshake_completes signingPrimitives (sampleNode "ann" 1) (sampleNode "bob" 2) sampleStart sampleStart
    (sampleNode_canSign "ann" 1 (by decide) (by decide)) (sampleNode_canSign "bob" 2 (by decide) (by decide))
    rfl (.first (ascii "bob:1")) (by decide) (by decide) 100 sampleReadings (by decide)
    (fun message _ => sampleStart_approached message) (Finset.notMem_empty _)
    (fun _ none => nomatch none) (fun _ none => nomatch none)
    (fun peers => (.ok [], peers)) false 100

/-! ### Messages that are handed on -/

/-- A greeting of a name is acknowledged. -/
inductive Acknowledges (P : Primitives) (peer : Bytes) (s : PeerSessions) : Event → Prop
  | intro {own : OwnIdentity} {readings : Readings} {handler : Handler} {message reply : Bytes}
      {hello : Hello} (greets : Greets P s own readings peer message hello)
      (answered : (s.authenticate P own readings peer message).1 = .ok (some reply)) :
      Acknowledges P peer s (.inbound own readings handler peer message)

/-- A handshake is done by an acknowledged greeting only. -/
theorem Admits.handshakeOk (admits : Admits P s own readings peer message outcome left)
    (known : left.handshakeOk.lookup tested = some true) :
    s.handshakeOk.lookup tested = some true ∨
      tested = peer ∧ ∃ hello reply, Greets P s own readings peer message hello ∧
        outcome = .ok (some reply) := by
  have kept : ∀ {left : PeerSessions}, left.handshakeOk = s.handshakeOk →
      (left.refuse readings.marks peer).handshakeOk.lookup tested = some true →
      s.handshakeOk.lookup tested = some true := by
    intro left same found
    rw [refuse, lookup_insert, same] at found
    split at found
    · exact nomatch found
    · exact found
  cases admits with
  | turnedAway same _ => exact .inl (same.handshakeOk ▸ known)
  | refused same _ => exact .inl (kept same.handshakeOk known)
  | unanswered same _ => exact .inl (kept same.handshakeOk known)
  | acknowledged same greets =>
    rw [welcome, lookup_insert] at known
    split at known
    · rename_i isPeer
      exact .inr ⟨isPeer, _, _, greets, rfl⟩
    · exact .inl (same.handshakeOk ▸ known)
  | handed same _ _ => exact .inl (same.handshakeOk ▸ known)

/-- Only an inbound message can open a session. -/
theorem step_handshakeOk (known : (step P s event).handshakeOk.lookup peer = some true) :
    s.handshakeOk.lookup peer = some true ∨ Acknowledges P peer s event := by
  by_cases loud : ∃ own readings handler name message, event = .inbound own readings handler name message
  · obtain ⟨own, readings, handler, name, message, rfl⟩ := loud
    rw [step, (handleInbound_left s own readings handler name message).handshakeOk] at known
    refine ((authenticate_admits (P := P) s own readings name message).handshakeOk known).imp id ?_
    rintro ⟨rfl, hello, reply, greets, answered⟩
    exact .intro greets answered
  · have kept := (step_quiet (P := P) s fun own readings handler name message same =>
      loud ⟨own, readings, handler, name, message, same⟩).1
    exact .inl (kept ▸ known)

/-- A message is handed on only for a name that greeted in the run and was acknowledged; the greeting
was signed with the key that is pinned to the name. -/
theorem handed_authenticated (P : Primitives) (peers : PeerNetwork) (pins : List (Bytes × Bytes))
    (events : List Event) (own : OwnIdentity) (readings : Readings) (peer message : Bytes)
    (handed : ((reached P (started peers pins) events).authenticate P own readings peer message).1 = .ok none) :
    ∃ front hisOwn earlier handler greeting reply later hello,
      events = front ++ .inbound hisOwn earlier handler peer greeting :: later ∧
        Greets P (reached P (started peers pins) front) hisOwn earlier peer greeting hello ∧
        ((reached P (started peers pins) front).authenticate P hisOwn earlier peer greeting).1 = .ok (some reply) ∧
        (reached P (started peers pins) events).pinnedPeerPubkeys.lookup peer = some hello.key := by
  have admits := authenticate_admits (P := P) (reached P (started peers pins) events) own readings peer message
  rw [handed] at admits
  have known : (reached P (started peers pins) events).handshakeOk.lookup peer = some true := by
    cases admits with
    | handed _ _ known => exact known
  have acknowledged : Happens (step P) (Acknowledges P peer) (started peers pins) events := by
    clear handed admits
    induction events using List.reverseRecOn with
    | nil => exact nomatch known
    | append_singleton front event ih =>
      rw [reached_snoc] at known
      rw [happens_snoc]
      exact (step_handshakeOk known).imp ih id
  obtain ⟨front, event, later, rfl, acknowledges⟩ := acknowledged
  obtain ⟨greets, answered⟩ := acknowledges
  refine ⟨front, _, _, _, _, _, later, _, rfl, greets, answered, ?_⟩
  exact (pins_speak P _ _ peer _).1 ⟨front, _, later, rfl, .greeting greets rfl⟩

/-- Ann's greeting, and the state of Bob after it. -/
def sampleGreeting : Event := .inbound (sampleNode "bob" 2) sampleReadings (fun peers => (.ok [], peers))
  (ascii "ann") (ascii "HELLO|" ++ carried (stated (sampleNode "ann" 1) (ascii "4") (ascii "s0-100") 100
    (Channels.sampleSignature 1 (signedBody (ascii "4") (ascii "net") (ascii "100") (ascii "s0-100")
      (toHex [1])))))

/-- A message of the example is handed on after its greeting. -/
theorem sample_handed : ∃ front hisOwn earlier handler greeting reply later hello,
    [sampleGreeting] = front ++ .inbound hisOwn earlier handler (ascii "ann") greeting :: later ∧
      Greets signingPrimitives (reached signingPrimitives sampleStart front) hisOwn earlier (ascii "ann")
        greeting hello ∧
      ((reached signingPrimitives sampleStart front).authenticate signingPrimitives hisOwn earlier (ascii "ann")
        greeting).1 = .ok (some reply) ∧
      (reached signingPrimitives sampleStart [sampleGreeting]).pinnedPeerPubkeys.lookup (ascii "ann") =
        some hello.key := by
  refine handed_authenticated signingPrimitives (PeerNetwork.limited 8 8 60) [] [sampleGreeting]
    (sampleNode "bob" 2) sampleReadings (ascii "ann") (ascii "REQADDR|") ?_
  apply toOption_eq_some.mp
  decide +kernel

end PeerSessions

end Addition
