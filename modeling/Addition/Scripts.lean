import Addition.Transactions

/-!
# Spend scripts

The policy language of `script.cpp`: a recursive-descent parser with a depth and
a node bound, an evaluator that marks the signatures and preimages it uses, and
the textual witness that carries a script with them. An input is authorized when
the witness script hashes to the output's address, evaluates to true, and every
witness item was used.
-/

namespace Addition.Script

open ByteStrings Checked

/-- Octets of a script at most. -/
def kMaxScriptBytes : Nat := 4096
/-- Nodes of a script at most. -/
def kMaxNodes : Nat := 64
/-- Nested nodes at most. -/
def kMaxDepth : Nat := 16
/-- Signatures of a witness at most. -/
def kMaxSigs : Nat := 4
/-- Preimages of a witness at most. -/
def kMaxPreimages : Nat := 4
/-- Octets of a preimage at most. -/
def kMaxPreimageBytes : Nat := 64

/-- The syntax trees of scripts. -/
inductive Node where
  | pk : Bytes → Node
  | sha3 : Bytes → Node
  | after : Nat → Node
  | older : Nat → Node
  | and : Node → Node → Node
  | or : Node → Node → Node
deriving DecidableEq

/-- The parser's cursor: what is left, how far it is, and the nodes so far. -/
structure Cursor where
  rest : Bytes
  position : Nat
  nodes : Nat

/-- The octets of an atom. -/
def isAtomOctet (octet : UInt8) : Bool :=
  isDigit octet || decide (97 ≤ octet.toNat ∧ octet.toNat ≤ 122) ||
    decide (65 ≤ octet.toNat ∧ octet.toNat ≤ 90) || octet == byte '_'

/-- `Parser::atom`: the longest run of atom octets, refused when empty. -/
def atom (cursor : Cursor) : Except String (Bytes × Cursor) :=
  let name := cursor.rest.takeWhile isAtomOctet
  if name.isEmpty then .error ("expected atom at " ++ toString cursor.position)
  else .ok (name, { cursor with
    rest := cursor.rest.dropWhile isAtomOctet, position := cursor.position + name.length })

/-- `Parser::expect`. -/
def expect (character : Char) (cursor : Cursor) : Except String Cursor :=
  match cursor.rest with
  | [] => .error ("expected '" ++ toString character ++ "' at " ++ toString cursor.position)
  | octet :: rest =>
    if octet = byte character then .ok { cursor with rest := rest, position := cursor.position + 1 }
    else .error ("expected '" ++ toString character ++ "' at " ++ toString cursor.position)

/-- The leaf that a name and its argument denote. -/
def leaf (name arg : Bytes) : Except String Node :=
  if name = ascii "pk" then .ok (.pk arg)
  else if name = ascii "sha3" then do
    ensure (decide (arg.length = 128)) "sha3 arg must be 128 hex chars"
    ensure (arg.all isLowerHex) "sha3 arg must be lowercase hex"
    pure (.sha3 arg)
  else if name = ascii "after" ∨ name = ascii "older" then do
    ensure (decide (arg.length ≤ 12) && !(decide (1 < arg.length) && arg.head? == some (byte '0')))
      "bad number"
    ensure (arg.all isDigit) "bad number"
    pure (if name = ascii "after" then .after (decimalValue arg) else .older (decimalValue arg))
  else .error ("unknown opcode " ++ String.ofList (name.map (fun octet => Char.ofNat octet.toNat)))

/-- `Parser::node`. The fuel counts the levels left below the depth bound. -/
def node : Nat → Cursor → Except String (Node × Cursor)
  | 0, _ => .error "script too deep"
  | fuel + 1, cursor => do
    let cursor := { cursor with nodes := cursor.nodes + 1 }
    ensure (decide (cursor.nodes ≤ kMaxNodes)) "script too many nodes"
    let (name, cursor) ← atom cursor
    let cursor ← expect '(' cursor
    if name = ascii "and" ∨ name = ascii "or" then
      let (a, cursor) ← node fuel cursor
      let cursor ← expect ',' cursor
      let (b, cursor) ← node fuel cursor
      let cursor ← expect ')' cursor
      pure (if name = ascii "and" then .and a b else .or a b, cursor)
    else
      let (arg, cursor) ← atom cursor
      let cursor ← expect ')' cursor
      let parsed ← leaf name arg
      pure (parsed, cursor)

/-- `script::parse`. -/
def parse (text : Bytes) : Except String Node := do
  ensure (!text.isEmpty && decide (text.length ≤ kMaxScriptBytes)) "script size"
  let (root, cursor) ← node (kMaxDepth + 1) ⟨text, 0, 0⟩
  ensure cursor.rest.isEmpty "trailing script bytes"
  pure root

/-- `Witness`: a script, signatures by key, and preimages. -/
structure Witness where
  script : Bytes
  sigs : List (Bytes × Bytes)
  preimages : List Bytes
deriving DecidableEq

/-- `encode_witness`. -/
def encodeWitness (witness : Witness) : Bytes :=
  witness.script ++ ascii ";" ++ decimal witness.sigs.length ++ ascii ";" ++
    witness.sigs.flatMap (fun sig => sig.1 ++ ascii ":" ++ sig.2 ++ ascii ";") ++
    decimal witness.preimages.length ++ ascii ";" ++
    witness.preimages.flatMap (fun preimage => preimage ++ ascii ";")

/-- A one-digit count within a bound, and the parts after it. -/
def takeCount (bound : Nat) : List Bytes → Option (Nat × List Bytes)
  | [digit] :: rest =>
    if isDigit digit && decide (digit.toNat - 48 ≤ bound) then some (digit.toNat - 48, rest)
    else none
  | _ => none

/-- Split at the first colon. -/
def splitColon (part : Bytes) : Option (Bytes × Bytes) :=
  match part.dropWhile (· ≠ byte ':') with
  | [] => none
  | _ :: rest => some (part.takeWhile (· ≠ byte ':'), rest)

/-- Read as many signature parts as counted. -/
def takeSigs : Nat → List Bytes → Except String (List (Bytes × Bytes) × List Bytes)
  | 0, parts => .ok ([], parts)
  | _ + 1, [] => .error "malformed witness"
  | count + 1, part :: rest =>
    match splitColon part with
    | none => .error "malformed sig"
    | some sig => do
      let (sigs, left) ← takeSigs count rest
      pure (sig :: sigs, left)

/-- `is_lower_hex` of the witness decoder. -/
def isLowerHexString (hex : Bytes) (maxLength : Nat) : Bool :=
  !hex.isEmpty && decide (hex.length ≤ maxLength) && decide (hex.length % 2 = 0) &&
    hex.all isLowerHex

/-- Read as many preimage parts as counted. -/
def takePreimages : Nat → List Bytes → Except String (List Bytes × List Bytes)
  | 0, parts => .ok ([], parts)
  | _ + 1, [] => .error "bad preimage"
  | count + 1, part :: rest =>
    if isLowerHexString part (2 * kMaxPreimageBytes) then do
      let (preimages, left) ← takePreimages count rest
      pure (part :: preimages, left)
    else .error "bad preimage"

/-- The parts of a string in which every part ends in a semicolon. -/
def semicolonParts (text : Bytes) : Option (List Bytes) :=
  let pieces := text.splitOn (byte ';')
  if pieces.getLast? = some [] then some pieces.dropLast else none

/-- `decode_witness`. -/
def decodeWitness (text : Bytes) : Except String Witness :=
  match semicolonParts text with
  | none => .error "malformed witness"
  | some parts => do
    ensure (decide (3 ≤ parts.length)) "malformed witness"
    match takeCount kMaxSigs parts.tail with
    | none => .error "bad sig count"
    | some (sigCount, rest) => do
      let (sigs, rest) ← takeSigs sigCount rest
      match takeCount kMaxPreimages rest with
      | none => .error "bad preimage count"
      | some (preimageCount, rest) => do
        let (preimages, rest) ← takePreimages preimageCount rest
        ensure rest.isEmpty "trailing witness items"
        pure ⟨parts.headD [], sigs, preimages⟩

/-- `SpendContext`: what is signed, and the heights of the spend and of its output. -/
structure SpendContext where
  sighash : Bytes
  spendHeight : UInt64
  utxoHeight : UInt64

variable (P : Primitives)

/-- `script_address`. -/
def scriptAddress (text : Bytes) : Bytes :=
  ascii "sh1" ++ strongHash P (ascii "ADD/script/v1|" ++ text)

/-- `is_script_address`. -/
def isScriptAddress (address : Bytes) : Bool :=
  decide (address.length = 3 + 128) && (ascii "sh1").isPrefixOf address

/-- `hash_preimage_hex`. -/
def hashPreimageHex (preimageHex : Bytes) : Bytes :=
  match hexToBytes preimageHex with
  | .error _ => []
  | .ok octets => strongHash P octets

/-- `script::sighash`. -/
def sighash (tx : Transaction) : Bytes := ascii "ADD/sighash/v1|" ++ hashTransaction P tx

/-- Which witness items the evaluation has used. -/
structure Used where
  sigs : List Bool
  preimages : List Bool

/-- Whether a witness signature is by the key bound to an address. -/
def sigMatches (context : SpendContext) (address : Bytes) (sig : Bytes × Bytes) : Bool :=
  (addressBindsPubkey P address (inferSigSchemeFromPubkeyHex P sig.1) sig.1).isOk &&
    verifyMessageSignatureHybridUncached P sig.1 context.sighash sig.2

/-- `Eval::eval`. Both operands of a connective are evaluated, so that each marks
what it uses. -/
def eval (context : SpendContext) (witness : Witness) : Node → Used → Bool × Used
  | .pk address, used =>
    match witness.sigs.findIdx? (sigMatches P context address) with
    | some index => (true, { used with sigs := used.sigs.set index true })
    | none => (false, used)
  | .sha3 digest, used =>
    match (witness.preimages.map (hashPreimageHex P)).findIdx? (· == digest) with
    | some index => (true, { used with preimages := used.preimages.set index true })
    | none => (false, used)
  | .after height, used => (decide (height ≤ context.spendHeight.toNat), used)
  | .older blocks, used =>
    (decide (context.utxoHeight ≤ context.spendHeight) &&
      decide (blocks ≤ (context.spendHeight - context.utxoHeight).toNat), used)
  | .and a b, used =>
    let (x, used) := eval context witness a used
    let (y, used) := eval context witness b used
    (x && y, used)
  | .or a b, used =>
    let (x, used) := eval context witness a used
    let (y, used) := eval context witness b used
    (x || y, used)

/-- `verify_input`. -/
def verifyInput (owner witnessField : Bytes) (context : SpendContext) : Except String Unit := do
  ensure (isScriptAddress owner) "input is not a script output"
  let witness ← decodeWitness witnessField
  ensure (scriptAddress P witness.script == owner) "witness script does not match output"
  let root ← parse witness.script
  let (satisfied, used) := eval P context witness root
    ⟨witness.sigs.map (fun _ => false), witness.preimages.map (fun _ => false)⟩
  ensure satisfied "script not satisfied"
  ensure (used.sigs.all id) "unused witness signature"
  ensure (used.preimages.all id) "unused witness preimage"

end Addition.Script
