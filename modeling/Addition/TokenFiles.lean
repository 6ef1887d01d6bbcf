import Addition.StateLines
import Addition.TokenStates

/-!
# The state file of the token engine

The whole engine, with the texts of its tokens and with collectibles, is written as lines of a
tag and fields between bars. The loader tells three forms of a token's line and two of a pool's
apart by the number of their fields. What is read never contains the end of a line, and a bar
only where a field is the last of its line; so an engine comes back exactly when its own texts
keep to that.

The tokens and the rest of their texts are kept in two tables under the same symbols. What a
load leaves behind when it fails is left out.
-/

namespace Addition

namespace Tokens

open ByteStrings Checked FiniteTables TextLines Store

/-! ### The whole engine -/

/-- The members of a token that only its description shows. -/
structure Label where
  name : Bytes
  decimals : UInt32
  devWallet : Bytes
  devAllocation : UInt64
deriving DecidableEq

/-- The label of `Token{}`. -/
def Label.empty : Label := ⟨[], 18, [], 0⟩

/-- `NftAsset`. -/
structure NftAsset where
  owner : Bytes
  metadata : Bytes
deriving DecidableEq

/-- The engine with the labels and the assets that its file holds too. -/
structure TokenState where
  engine : TokenEngine
  labels : Table Bytes Label
  nfts : Table Bytes (Table Bytes NftAsset)

/-- The state without tokens. -/
def TokenState.initial : TokenState := ⟨.initial, ∅, ∅⟩

/-- What `tokens_[symbol]` reads of the label. -/
def TokenState.label (state : TokenState) (symbol : Bytes) : Label :=
  (state.labels.lookup symbol).getD .empty

/-- What `nfts_[collection]` reads. -/
def TokenState.assets (state : TokenState) (collection : Bytes) : Table Bytes NftAsset :=
  (state.nfts.lookup collection).getD ∅

/-- `nfts_[collection][id] = nft`. -/
def TokenState.setNft (state : TokenState) (collection id : Bytes) (nft : NftAsset) : TokenState :=
  { state with nfts := state.nfts.insert collection ((state.assets collection).insert id nft) }

/-- `mint_nft`. A collection that has the collectible is there already. -/
def mintNft (state : TokenState) (collection id owner metadata : Bytes) :
    Except String Unit × TokenState :=
  if collection.isEmpty ∨ id.isEmpty ∨ owner.isEmpty then (.error "invalid nft mint params", state)
  else if ((state.assets collection).lookup id).isSome then (.error "nft already exists", state)
  else (.ok (), state.setNft collection id ⟨owner, metadata⟩)

/-- `transfer_nft`. -/
def transferNft (state : TokenState) (collection id sender recipient : Bytes) :
    Except String Unit × TokenState :=
  match state.nfts.lookup collection with
  | none => (.error "collection not found", state)
  | some assets =>
    match assets.lookup id with
    | none => (.error "nft not found", state)
    | some nft =>
      if sender.isEmpty ∨ recipient.isEmpty then (.error "invalid nft transfer params", state)
      else if nft.owner ≠ sender then (.error "not nft owner", state)
      else (.ok (), state.setNft collection id { nft with owner := recipient })

/-- The labels after an operation: a token that is created gets one. -/
def TokenState.labelled (state : TokenState) : Operation → Table Bytes Label
  | .createToken symbol owner maxSupply initialMint =>
    if (createToken state.engine symbol owner maxSupply initialMint).1.isOk then
      state.labels.insert symbol ⟨symbol, 18, [], 0⟩
    else state.labels
  | .createTokenEx symbol name owner maxSupply initialMint decimals burnable devWallet devAllocation =>
    if (createTokenEx state.engine symbol name owner maxSupply initialMint decimals burnable devWallet
        devAllocation).1.isOk then
      state.labels.insert symbol ⟨name, decimals, devWallet, devAllocation⟩
    else state.labels
  | _ => state.labels

/-- The calls that change the state. -/
inductive Call
  | engine (operation : Operation)
  | mintNft (collection id owner metadata : Bytes)
  | transferNft (collection id sender recipient : Bytes)

/-- The state after a call, when it returns. -/
def performCall (state : TokenState) : Call → Option TokenState
  | .engine operation => (perform state.engine operation).map (fun left =>
      { state with engine := left, labels := state.labelled operation })
  | .mintNft collection id owner metadata => some (mintNft state collection id owner metadata).2
  | .transferNft collection id sender recipient =>
    some (transferNft state collection id sender recipient).2

/-- The state after calls one after the other, when all of them return. -/
def performCalls : TokenState → List Call → Option TokenState
  | state, [] => some state
  | state, call :: rest => (performCall state call).bind (fun left => performCalls left rest)

/-! ### Writing -/

/-- A truth value as a digit. -/
def flag (value : Bool) : Bytes := if value then ascii "1" else ascii "0"

/-- The order in which the containers are enumerated. -/
structure DumpOrder where
  tokens : List (Bytes × Token)
  balances : Bytes → List (Bytes × UInt64)
  blacklist : Bytes → List Bytes
  feeExempt : Bytes → List Bytes
  nfts : List (Bytes × Table Bytes NftAsset)
  assets : Bytes → List (Bytes × NftAsset)
  pools : List (Bytes × Pool)
  shares : Bytes → List (Bytes × UInt64)

/-- An order has what the state has. -/
structure DumpOrder.Of (order : DumpOrder) (state : TokenState) : Prop where
  tokens : Lists order.tokens state.engine.tokens
  balances : ∀ symbol token, (symbol, token) ∈ order.tokens →
    Lists (order.balances symbol) token.balances
  blacklist : ∀ symbol token, (symbol, token) ∈ order.tokens →
    ListsSet (order.blacklist symbol) token.blacklist
  feeExempt : ∀ symbol token, (symbol, token) ∈ order.tokens →
    ListsSet (order.feeExempt symbol) token.feeExempt
  nfts : Lists order.nfts state.nfts
  assets : ∀ collection assets, (collection, assets) ∈ order.nfts →
    Lists (order.assets collection) assets
  pools : Lists order.pools state.engine.pools
  shares : ∀ key pool, (key, pool) ∈ order.pools → Lists (order.shares key) pool.lpBalances

/-- The fields of a token but for the last. -/
def tokenFields (symbol : Bytes) (token : Token) (label : Label) : List Bytes :=
  [symbol, label.name, token.owner, decimal label.decimals.toNat, flag token.burnable, label.devWallet,
    number label.devAllocation, token.treasuryWallet, number token.transferFeeBps,
    number token.burnFeeBps, flag token.paused, number token.maxTxAmount,
    number token.maxWalletAmount, number token.maxSupply]

/-- The line of a token. -/
def tokenLine (symbol : Bytes) (token : Token) (label : Label) : Bytes :=
  tagLine 'T' (tokenFields symbol token label ++ [number token.totalSupply])

/-- The lines of a token. -/
def tokenLines (state : TokenState) (order : DumpOrder) (entry : Bytes × Token) : List Bytes :=
  tokenLine entry.1 entry.2 (state.label entry.1) ::
    ((order.balances entry.1).map (fun balance =>
        tagLine 'B' [entry.1, balance.1, number balance.2]) ++
      ((order.blacklist entry.1).map (fun wallet => tagLine 'X' [entry.1, wallet]) ++
        (order.feeExempt entry.1).map (fun wallet => tagLine 'E' [entry.1, wallet])))

/-- The lines of a collection. -/
def collectionLines (order : DumpOrder) (entry : Bytes × Table Bytes NftAsset) : List Bytes :=
  (order.assets entry.1).map (fun asset =>
    tagLine 'N' [entry.1, asset.1, asset.2.owner, asset.2.metadata])

/-- The fields of a pool but for the last. -/
def poolFields (pool : Pool) : List Bytes :=
  [pool.token0, pool.token1, number pool.reserve0, number pool.reserve1, number pool.feeBps]

/-- The lines of a pool. -/
def poolLines (order : DumpOrder) (entry : Bytes × Pool) : List Bytes :=
  tagLine 'P' (poolFields entry.2 ++ [number entry.2.lpTotalSupply]) ::
    (order.shares entry.1).map (fun share =>
      tagLine 'L' [entry.2.token0, entry.2.token1, share.1, number share.2])

/-- `dump_state`, line by line. -/
def dumpLines (state : TokenState) (order : DumpOrder) : List Bytes :=
  order.tokens.flatMap (tokenLines state order) ++
    (order.nfts.flatMap (collectionLines order) ++ order.pools.flatMap (poolLines order))

/-- `dump_state`, in some order of the containers. -/
def dumpState (state : TokenState) (order : DumpOrder) : Bytes :=
  (dumpLines state order).flatMap line

/-! ### Reading -/

/-- `parse_u64_field`: a number and nothing behind it. -/
def parseU64Field (text : Bytes) : Option UInt64 :=
  let trimmed := text.dropWhile isSpace
  let signed := trimmed.head? == some (byte '-') || trimmed.head? == some (byte '+')
  let unsigned := if signed then trimmed.tail else trimmed
  if (unsigned.dropWhile isDigit).isEmpty then stoull text else none

/-- A number that may be left out. -/
def numberOr (missing : UInt64) (text : Bytes) : Option UInt64 :=
  if text.isEmpty then some missing else stoull text

/-- What both new forms of a token's line have in their first eleven fields. -/
def sharedFields (part : Nat → Bytes) : Option (Token × Label) := do
  let decimals ← numberOr 18 (part 3)
  let devAllocation ← numberOr 0 (part 6)
  let transferFeeBps ← numberOr 0 (part 8)
  let burnFeeBps ← numberOr 0 (part 9)
  pure ({ Token.empty with
      owner := part 2
      burnable := decide (part 4 = ascii "1")
      treasuryWallet := part 7
      transferFeeBps := transferFeeBps
      burnFeeBps := burnFeeBps
      paused := decide (part 10 = ascii "1") },
    ⟨if (part 1).isEmpty then part 0 else part 1, UInt32.ofNat decimals.toNat, part 5, devAllocation⟩)

/-- The new form. -/
def currentForm (part : Nat → Bytes) : Option (Token × Label) := do
  let (token, label) ← sharedFields part
  let maxTxAmount ← numberOr 0 (part 11)
  let maxWalletAmount ← numberOr 0 (part 12)
  let maxSupply ← stoull (part 13)
  let totalSupply ← stoull (part 14)
  pure ({ token with
      maxTxAmount := maxTxAmount
      maxWalletAmount := maxWalletAmount
      maxSupply := maxSupply
      totalSupply := totalSupply }, label)

/-- The new form before there were limits. -/
def previousForm (part : Nat → Bytes) : Option (Token × Label) := do
  let (token, label) ← sharedFields part
  let maxSupply ← stoull (part 11)
  let totalSupply ← stoull (part 12)
  pure ({ token with maxSupply := maxSupply, totalSupply := totalSupply }, label)

/-- The first form. -/
def legacyForm (part : Nat → Bytes) : Option (Token × Label) := do
  let maxSupply ← stoull (part 2)
  let totalSupply ← stoull (part 3)
  pure ({ Token.empty with owner := part 1, maxSupply := maxSupply, totalSupply := totalSupply },
    { Label.empty with name := part 0 })

/-- A number that cannot be read throws. -/
def orThrow {α : Type} (read : Option α) : Except String α :=
  match read with
  | none => .error "invalid token state"
  | some value => .ok value

/-- A value that a reader found or refused. -/
def orRefuse {α : Type} (read : Option α) (message : String) : Except String α :=
  match read with
  | none => .error message
  | some value => .ok value

/-- A token's line. -/
def loadToken (state : TokenState) (parts : List Bytes) : Except String TokenState := do
  ensure (decide (4 ≤ parts.length)) "invalid token state line"
  let part := fun index => parts.getD index []
  let (token, label) ← orThrow
    (if 15 ≤ parts.length then currentForm part
    else if 13 ≤ parts.length then previousForm part
    else legacyForm part)
  ensure (!(part 0).isEmpty && !token.owner.isEmpty) "invalid token state line"
  pure { state with
    engine := state.engine.setToken (part 0) token
    labels := state.labels.insert (part 0) label }

/-- A change of `tokens_[symbol]`. -/
def TokenState.change (state : TokenState) (symbol : Bytes) (changed : Token → Token) : TokenState :=
  { state with engine := state.engine.setToken symbol (changed (state.engine.token symbol)) }

/-- `blacklist.insert(wallet)` and `fee_exempt.insert(wallet)`. -/
def Token.block (wallet : Bytes) (token : Token) : Token :=
  { token with blacklist := insert wallet token.blacklist }

/-- A wallet pays no fees. -/
def Token.exempt (wallet : Bytes) (token : Token) : Token :=
  { token with feeExempt := insert wallet token.feeExempt }

/-- A line that puts a wallet into one of the sets of a token. -/
def loadWallet (state : TokenState) (stream : Option Bytes) (message : String)
    (changed : Bytes → Token → Token) : Except String TokenState :=
  match readFields 1 stream with
  | [symbol, wallet] => do
    ensure (!symbol.isEmpty && !wallet.isEmpty) message
    pure (state.change symbol (changed wallet))
  | _ => .ok state -- never: there are as many fields as were asked for

/-- A pool's line: the six fields of a pool, or the old form with the key before them. -/
def loadPool (state : TokenState) (parts : List Bytes) : Except String TokenState :=
  let front := if parts.length = 6 then some 0 else if parts.length = 8 then some 2 else none
  match front with
  | none => .error "invalid pool line"
  | some front => do
    let part := fun index => parts.getD (front + index) []
    let key := poolKey (part 0) (part 1)
    ensure (!key.isEmpty) "invalid pool line"
    let reserve0 ← orRefuse (parseU64Field (part 2)) "invalid pool line"
    let reserve1 ← orRefuse (parseU64Field (part 3)) "invalid pool line"
    let feeBps ← orRefuse (parseU64Field (part 4)) "invalid pool line"
    let lpTotalSupply ← orRefuse (parseU64Field (part 5)) "invalid pool line"
    let pool : Pool := ⟨part 0, part 1, reserve0, reserve1, feeBps, lpTotalSupply, ∅⟩
    pure { state with engine := state.engine.setPool key pool }

/-- `Pool{}`. -/
def Pool.empty : Pool := ⟨[], [], 0, 0, 30, 0, ∅⟩

/-- What `pools_[key]` reads. -/
def TokenEngine.pool (engine : TokenEngine) (key : Bytes) : Pool :=
  (engine.pools.lookup key).getD .empty

/-- `lp_balances[user] = amount`. -/
def Pool.setShare (pool : Pool) (user : Bytes) (amount : UInt64) : Pool :=
  { pool with lpBalances := pool.lpBalances.insert user amount }

/-- A line with shares. -/
def loadShare (state : TokenState) (parts : List Bytes) : Except String TokenState := do
  ensure (decide (parts.length = 4)) "invalid lp line"
  let part := fun index => parts.getD index []
  let key := poolKey (part 0) (part 1)
  let amount ← orRefuse (parseU64Field (part 3)) "invalid lp line"
  ensure (!key.isEmpty && !(part 2).isEmpty) "invalid lp line"
  pure { state with engine := state.engine.setPool key ((state.engine.pool key).setShare (part 2) amount) }

/-- A line with a balance. -/
def loadBalance (state : TokenState) (stream : Option Bytes) : Except String TokenState :=
  match readFields 2 stream with
  | [symbol, user, balance] => do
    ensure (!symbol.isEmpty && !user.isEmpty) "invalid token balance line"
    let amount ← orThrow (stoull balance)
    pure (state.change symbol (fun token => token.setBalance user amount))
  | _ => .ok state -- never: there are as many fields as were asked for

/-- A line with a collectible. -/
def loadNft (state : TokenState) (stream : Option Bytes) : Except String TokenState :=
  match readFields 3 stream with
  | [collection, id, owner, metadata] => do
    ensure (!collection.isEmpty && !id.isEmpty && !owner.isEmpty) "invalid nft line"
    pure (state.setNft collection id ⟨owner, metadata⟩)
  | _ => .ok state -- never: there are as many fields as were asked for

/-- What is left of a line in parts. -/
def partsOf (stream : Option Bytes) : List Bytes := (stream.map (splitAll bar)).getD []

/-- What a line does, by its tag. -/
def loadTagged (state : TokenState) (tag : Bytes) (stream : Option Bytes) :
    Except String TokenState :=
  if tag = ascii "T" then loadToken state (partsOf stream)
  else if tag = ascii "B" then loadBalance state stream
  else if tag = ascii "N" then loadNft state stream
  else if tag = ascii "P" then loadPool state (partsOf stream)
  else if tag = ascii "L" then loadShare state (partsOf stream)
  else if tag = ascii "X" then
    loadWallet state stream "invalid blacklist line" Token.block
  else if tag = ascii "E" then
    loadWallet state stream "invalid fee exempt line" Token.exempt
  else .ok state

/-- One line of the file. An empty one does nothing. -/
def loadLine (state : TokenState) (text : Bytes) : Except String TokenState :=
  if text.isEmpty then .ok state
  else
    let (tag, stream, _) := getline bar (some text) []
    loadTagged state tag stream

/-- `load_state`. -/
def loadState (text : Bytes) : Except String TokenState :=
  readLines loadLine .initial (splitLines text)

end Tokens

end Addition
