import Addition.Foundations.Amounts
import Addition.Primitives

/-!
# The token engine

Tokens have balances and a supply, pools have two reserves and shares. Transfers charge a
fee for a treasury and a fee that is burned; liquidity and swaps move coins between balances
and reserves. Arithmetic is on 64-bit words and wraps where the source does not check it.
A balance that is looked up for writing leaves an empty entry behind, also in a call that
fails. Collectibles and the texts of a token that only its description shows are left out.

The integer square root runs three loops of which the first need not end: then the call
does not return.
-/

namespace Addition

namespace Tokens

open ByteStrings Checked FiniteTables Amounts

/-- `Token`. -/
structure Token where
  owner : Bytes
  burnable : Bool
  treasuryWallet : Bytes
  transferFeeBps : UInt64
  burnFeeBps : UInt64
  paused : Bool
  maxTxAmount : UInt64
  maxWalletAmount : UInt64
  maxSupply : UInt64
  totalSupply : UInt64
  balances : Table Bytes UInt64
  blacklist : Finset Bytes
  feeExempt : Finset Bytes

/-- `Token{}`. -/
def Token.empty : Token := ⟨[], false, [], 0, 0, false, 0, 0, 0, 0, ∅, ∅, ∅⟩

/-- `Pool`: two reserves and the shares in them. -/
structure Pool where
  token0 : Bytes
  token1 : Bytes
  reserve0 : UInt64
  reserve1 : UInt64
  feeBps : UInt64
  lpTotalSupply : UInt64
  lpBalances : Table Bytes UInt64

/-- `TokenEngine`: the tokens and the pools. -/
structure TokenEngine where
  tokens : Table Bytes Token
  pools : Table Bytes Pool

/-- The engine without tokens. -/
def TokenEngine.initial : TokenEngine := ⟨∅, ∅⟩

/-! ### Balances -/

/-- The balance of a user. -/
def Token.balance (token : Token) (user : Bytes) : UInt64 := amountAt token.balances user

/-- The balance of a user is replaced. -/
def Token.setBalance (token : Token) (user : Bytes) (amount : UInt64) : Token :=
  { token with balances := token.balances.insert user amount }

/-- A balance looked up for writing. -/
def Token.touch (token : Token) (user : Bytes) : Token := token.setBalance user (token.balance user)

/-- `balances[user] += amount`. -/
def Token.credit (token : Token) (user : Bytes) (amount : UInt64) : Token :=
  token.setBalance user (token.balance user + amount)

/-- `balances[user] -= amount`. -/
def Token.debit (token : Token) (user : Bytes) (amount : UInt64) : Token :=
  token.setBalance user (token.balance user - amount)

/-- What `tokens_[symbol]` reads. -/
def TokenEngine.token (engine : TokenEngine) (symbol : Bytes) : Token :=
  (engine.tokens.lookup symbol).getD .empty

/-- A token is replaced. -/
def TokenEngine.setToken (engine : TokenEngine) (symbol : Bytes) (token : Token) : TokenEngine :=
  { engine with tokens := engine.tokens.insert symbol token }

/-- A pool is replaced. -/
def TokenEngine.setPool (engine : TokenEngine) (key : Bytes) (pool : Pool) : TokenEngine :=
  { engine with pools := engine.pools.insert key pool }

/-- `balance_of`. -/
def balanceOf (engine : TokenEngine) (symbol owner : Bytes) : UInt64 :=
  match engine.tokens.lookup symbol with
  | none => 0
  | some token => token.balance owner

/-! ### Names of pools -/

/-- `token_name_ok`. -/
def tokenNameOk (name : Bytes) : Bool :=
  !name.isEmpty && name.all (fun octet =>
    octet != byte '|' && octet != 10 && octet != 13 && octet != byte ' ' && octet != 9)

/-- `ordered_pair`. -/
def orderedPair (a b : Bytes) : Option (Bytes × Bytes) :=
  if !tokenNameOk a || !tokenNameOk b || a == b then none
  else if a < b then some (a, b) else some (b, a)

/-- `pool_key`, empty for a pair without a pool. -/
def poolKey (tokenA tokenB : Bytes) : Bytes :=
  match orderedPair tokenA tokenB with
  | none => []
  | some (t0, t1) => t0 ++ ascii "|" ++ t1

/-! ### `isqrt_u64` -/

/-- A loop that may fail inside or run out of steps. -/
def loop {σ : Type} (continues : σ → Bool) (body : σ → Option σ) : Nat → σ → Option σ
  | 0, _ => none
  | fuel + 1, state =>
    if continues state then (body state).bind (loop continues body fuel) else some state

/-- `isqrt_u64`. The first loop divides by `r` and ends when `r` repeats; it has two words of
state, so when it takes more steps than they have values it never ends. -/
def isqrtU64 (x : UInt64) : Option UInt64 :=
  if x = 0 then some 0
  else do
    let (r, _) ← loop (fun (r, prev) => r != prev)
      (fun (r, _) => if r = 0 then none else some ((r + x / r) / 2, r)) (2 ^ 128) (x, 0)
    let r ← loop (fun r => decide (r + 1 ≤ wordMax / (r + 1)) && decide ((r + 1) * (r + 1) ≤ x))
      (fun r => some (r + 1)) (2 ^ 64) r
    loop (fun r => decide (x < r * r)) (fun r => some (r - 1)) (2 ^ 64) r

/-! ### Tokens -/

/-- The checks of `create_token_ex` that do not look at the engine. -/
def createChecks (symbol name owner : Bytes) (maxSupply initialMint : UInt64) (decimals : UInt32)
    (devWallet : Bytes) (devAllocation : UInt64) : Except String Unit := do
  ensure (!symbol.isEmpty && !owner.isEmpty) "symbol/owner empty"
  ensure (!name.isEmpty) "name empty"
  ensure (decide (decimals ≤ 30)) "decimals too high"
  ensure (decide (maxSupply ≠ 0)) "max supply must be > 0"
  ensure (decide (devAllocation ≤ maxSupply)) "dev allocation exceeds max supply"
  ensure (!(decide (0 < devAllocation) && devWallet.isEmpty))
    "dev wallet required when dev allocation > 0"
  ensure (!overflows initialMint devAllocation) "initial + dev allocation overflow"
  ensure (decide (initialMint + devAllocation ≤ maxSupply)) "initial + dev allocation exceeds max supply"
  ensure (decide (initialMint ≤ maxSupply)) "initial mint exceeds max supply"

/-- The token that `create_token_ex` makes. -/
def newToken (owner : Bytes) (maxSupply initialMint : UInt64) (burnable : Bool) (devWallet : Bytes)
    (devAllocation : UInt64) : Token :=
  let token := { Token.empty with
    owner := owner
    burnable := burnable
    maxSupply := maxSupply
    totalSupply := initialMint + devAllocation }
  let minted := if 0 < initialMint then token.setBalance owner initialMint else token
  if 0 < devAllocation then minted.credit devWallet devAllocation else minted

/-- `create_token_ex`. -/
def createTokenEx (engine : TokenEngine) (symbol name owner : Bytes) (maxSupply initialMint : UInt64)
    (decimals : UInt32) (burnable : Bool) (devWallet : Bytes) (devAllocation : UInt64) :
    Except String Unit × TokenEngine :=
  match createChecks symbol name owner maxSupply initialMint decimals devWallet devAllocation with
  | .error message => (.error message, engine)
  | .ok () =>
    if (engine.tokens.lookup symbol).isSome then (.error "token already exists", engine)
    else (.ok (), engine.setToken symbol
      (newToken owner maxSupply initialMint burnable devWallet devAllocation))

/-- `create_token`. -/
def createToken (engine : TokenEngine) (symbol owner : Bytes) (maxSupply initialMint : UInt64) :
    Except String Unit × TokenEngine :=
  createTokenEx engine symbol symbol owner maxSupply initialMint 18 false [] 0

/-- A call on one token, which may change it also when it fails. -/
def onToken (engine : TokenEngine) (symbol : Bytes) (call : Token → Except String Unit × Token) :
    Except String Unit × TokenEngine :=
  match engine.tokens.lookup symbol with
  | none => (.error "token not found", engine)
  | some token => ((call token).1, engine.setToken symbol (call token).2)

/-- The checks of `mint` before the recipient is looked up. -/
def mintChecks (token : Token) (caller recipient : Bytes) (amount : UInt64) : Except String Unit := do
  ensure (decide (caller = token.owner)) "only owner can mint"
  ensure (!recipient.isEmpty && decide (amount ≠ 0)) "invalid mint params"
  ensure (!overflows token.totalSupply amount) "token supply overflow"
  ensure (decide (token.totalSupply + amount ≤ token.maxSupply)) "token max supply exceeded"

/-- `mint` on the token itself. -/
def Token.mint (token : Token) (caller recipient : Bytes) (amount : UInt64) :
    Except String Unit × Token :=
  match mintChecks token caller recipient amount with
  | .error message => (.error message, token)
  | .ok () =>
    if overflows (token.balance recipient) amount then
      (.error "recipient balance overflow", token.touch recipient)
    else
      (.ok (), { token.credit recipient amount with totalSupply := token.totalSupply + amount })

/-- `mint`. -/
def mint (engine : TokenEngine) (symbol caller recipient : Bytes) (amount : UInt64) :
    Except String Unit × TokenEngine :=
  onToken engine symbol (fun token => token.mint caller recipient amount)

/-- One of the two fees of a transfer, in ten-thousandths of the wrapped product. -/
def feeOf (exempt : Bool) (amount bps : UInt64) : UInt64 := if exempt then 0 else amount * bps / 10000

/-- Whether a transfer is free of fees. -/
def Token.exempts (token : Token) (sender recipient : Bytes) : Bool :=
  decide (sender ∈ token.feeExempt) || decide (recipient ∈ token.feeExempt)

/-- The checks of `transfer` and its two fees. -/
def transferFees (token : Token) (sender recipient : Bytes) (amount : UInt64) :
    Except String (UInt64 × UInt64) := do
  ensure (!sender.isEmpty && !recipient.isEmpty && decide (amount ≠ 0)) "invalid transfer params"
  ensure (!token.paused) "token transfers paused"
  ensure (!(decide (sender ∈ token.blacklist) || decide (recipient ∈ token.blacklist)))
    "wallet blacklisted"
  ensure (!(decide (0 < token.maxTxAmount) && decide (token.maxTxAmount < amount)))
    "amount exceeds max_tx_amount"
  let exempt := token.exempts sender recipient
  let transferFee := feeOf exempt amount token.transferFeeBps
  let burnFee := feeOf exempt amount token.burnFeeBps
  ensure (decide (transferFee + burnFee ≤ amount)) "invalid fee policy"
  pure (transferFee, burnFee)

/-- The end of a transfer: the fee that is burned. Its refusal takes nothing back. -/
def Token.burnFee (token : Token) (burnFee : UInt64) : Except String Unit × Token :=
  if 0 < burnFee then
    if token.totalSupply < burnFee then (.error "burn fee exceeds supply", token)
    else (.ok (), { token with totalSupply := token.totalSupply - burnFee })
  else (.ok (), token)

/-- The middle of a transfer: the fee for the treasury, when there is one. -/
def Token.payTreasury (token : Token) (sender recipient : Bytes) (amount received : UInt64)
    (transferFee burnFee : UInt64) : Except String Unit × Token :=
  if 0 < transferFee ∧ token.treasuryWallet ≠ [] then
    if overflows (token.balance token.treasuryWallet) transferFee then
      (.error "treasury balance overflow",
        ((token.touch token.treasuryWallet).credit sender amount).debit recipient received)
    else (token.credit token.treasuryWallet transferFee).burnFee burnFee
  else token.burnFee burnFee

/-- `transfer` on the token itself. -/
def Token.transfer (token : Token) (sender recipient : Bytes) (amount : UInt64) :
    Except String Unit × Token :=
  match transferFees token sender recipient amount with
  | .error message => (.error message, token)
  | .ok (transferFee, burnFee) =>
    let received := amount - transferFee - burnFee
    if token.balance sender < amount then (.error "insufficient token balance", token.touch sender)
    else
      let debited := token.debit sender amount
      if overflows (debited.balance recipient) received then
        (.error "recipient balance overflow", (debited.touch recipient).credit sender amount)
      else
        let credited := debited.credit recipient received
        if 0 < credited.maxWalletAmount ∧ credited.maxWalletAmount < credited.balance recipient then
          (.error "recipient exceeds max_wallet_amount",
            (credited.credit sender amount).debit recipient received)
        else credited.payTreasury sender recipient amount received transferFee burnFee

/-- `transfer`. -/
def transfer (engine : TokenEngine) (symbol sender recipient : Bytes) (amount : UInt64) :
    Except String Unit × TokenEngine :=
  onToken engine symbol (fun token => token.transfer sender recipient amount)

/-- `burn` on the token itself. -/
def Token.burn (token : Token) (sender : Bytes) (amount : UInt64) : Except String Unit × Token :=
  if token.burnable = false then (.error "token is not burnable", token)
  else if sender.isEmpty ∨ amount = 0 then (.error "invalid burn params", token)
  else if token.balance sender < amount then
    (.error "insufficient token balance", token.touch sender)
  else (.ok (), { token.debit sender amount with totalSupply := token.totalSupply - amount })

/-- `burn`. -/
def burn (engine : TokenEngine) (symbol sender : Bytes) (amount : UInt64) :
    Except String Unit × TokenEngine :=
  onToken engine symbol (fun token => token.burn sender amount)

/-- A setting that only the owner may change, after a further check. -/
def Token.set (token : Token) (caller : Bytes) (refusal : String) (check : Except String Unit)
    (change : Token → Token) : Except String Unit × Token :=
  match (do ensure (decide (caller = token.owner)) refusal; check : Except String Unit) with
  | .error message => (.error message, token)
  | .ok () => (.ok (), change token)

/-- `set_policy`. The sum of the two rates wraps. -/
def setPolicy (engine : TokenEngine) (symbol caller treasuryWallet : Bytes)
    (transferFeeBps burnFeeBps : UInt64) (paused : Bool) : Except String Unit × TokenEngine :=
  onToken engine symbol (fun token => token.set caller "only owner can set policy"
    (ensure (decide (transferFeeBps + burnFeeBps ≤ 2000)) "total fee bps too high (>2000)")
    (fun token => { token with
      treasuryWallet := treasuryWallet
      transferFeeBps := transferFeeBps
      burnFeeBps := burnFeeBps
      paused := paused }))

/-- A wallet in or out of a set. -/
def listed (wallets : Finset Bytes) (wallet : Bytes) (inside : Bool) : Finset Bytes :=
  if inside then insert wallet wallets else wallets.erase wallet

/-- `set_blacklist`. -/
def setBlacklist (engine : TokenEngine) (symbol caller wallet : Bytes) (blocked : Bool) :
    Except String Unit × TokenEngine :=
  onToken engine symbol (fun token => token.set caller "only owner can set blacklist"
    (ensure (!wallet.isEmpty) "wallet empty")
    (fun token => { token with blacklist := listed token.blacklist wallet blocked }))

/-- `set_fee_exempt`. -/
def setFeeExempt (engine : TokenEngine) (symbol caller wallet : Bytes) (exempt : Bool) :
    Except String Unit × TokenEngine :=
  onToken engine symbol (fun token => token.set caller "only owner can set fee exemption"
    (ensure (!wallet.isEmpty) "wallet empty")
    (fun token => { token with feeExempt := listed token.feeExempt wallet exempt }))

/-- `set_limits`. -/
def setLimits (engine : TokenEngine) (symbol caller : Bytes) (maxTxAmount maxWalletAmount : UInt64) :
    Except String Unit × TokenEngine :=
  onToken engine symbol (fun token => token.set caller "only owner can set limits" (.ok ())
    (fun token => { token with maxTxAmount := maxTxAmount, maxWalletAmount := maxWalletAmount }))

/-! ### Pools -/

/-- `create_pool`. -/
def createPool (engine : TokenEngine) (tokenA tokenB : Bytes) (feeBps : UInt64) :
    Except String Unit × TokenEngine :=
  match orderedPair tokenA tokenB with
  | none => (.error "invalid token pair", engine)
  | some (t0, t1) =>
    if (engine.tokens.lookup t0).isNone || (engine.tokens.lookup t1).isNone then
      (.error "pool tokens must exist", engine)
    else if 10000 ≤ feeBps then (.error "fee_bps must be in [0,9999]", engine)
    else if (poolKey t0 t1).isEmpty then (.error "invalid token pair", engine)
    else if (engine.pools.lookup (poolKey t0 t1)).isSome then (.error "pool already exists", engine)
    else (.ok (), engine.setPool (poolKey t0 t1) ⟨t0, t1, 0, 0, feeBps, 0, ∅⟩)

/-- The shares for the first liquidity of a pool; nothing when the root does not return. -/
def firstShares (add0 add1 : UInt64) : Option (Except String UInt64) :=
  if wordMax / add1 < add0 then some (.error "liquidity product overflow")
  else (isqrtU64 (add0 * add1)).map (fun minted =>
    if minted = 0 then .error "liquidity too small" else .ok minted)

/-- The shares for liquidity in the ratio of the reserves. The products with the supply wrap. -/
def furtherShares (pool : Pool) (add0 add1 : UInt64) : Except String UInt64 := do
  ensure (decide (pool.reserve0 ≠ 0) && decide (pool.reserve1 ≠ 0)) "invalid pool reserves"
  ensure (decide (add0 ≤ wordMax / pool.reserve1) && decide (pool.reserve0 ≤ wordMax / add1))
    "liquidity ratio overflow"
  ensure (decide (add0 * pool.reserve1 = add1 * pool.reserve0)) "liquidity amounts must match pool ratio"
  let lp0 := add0 * pool.lpTotalSupply / pool.reserve0
  let lp1 := add1 * pool.lpTotalSupply / pool.reserve1
  ensure (decide (min lp0 lp1 ≠ 0)) "liquidity too small"
  pure (min lp0 lp1)

/-- The balances of a provider, looked up for writing. -/
def TokenEngine.touchBoth (engine : TokenEngine) (pool : Pool) (user : Bytes) : TokenEngine :=
  let first := engine.setToken pool.token0 ((engine.token pool.token0).touch user)
  first.setToken pool.token1 ((first.token pool.token1).touch user)

/-- Shares looked up for writing. -/
def Pool.touch (pool : Pool) (user : Bytes) : Pool :=
  { pool with lpBalances := pool.lpBalances.insert user (amountAt pool.lpBalances user) }

/-- `add_liquidity`, once the pool is found. -/
def addToPool (engine : TokenEngine) (key : Bytes) (pool : Pool) (provider : Bytes)
    (add0 add1 : UInt64) : Option (Except String Unit × TokenEngine) :=
  let touched := engine.touchBoth pool provider
  let b0 := (touched.token pool.token0).balance provider
  let b1 := (touched.token pool.token1).balance provider
  if b0 < add0 ∨ b1 < add1 then
    some (.error "insufficient token balance for liquidity", touched)
  else
    (if pool.lpTotalSupply = 0 then firstShares add0 add1 else some (furtherShares pool add0 add1)).map
      fun
      | .error message => (.error message, touched)
      | .ok minted =>
        if overflows pool.reserve0 add0 ∨ overflows pool.reserve1 add1 ∨
            overflows pool.lpTotalSupply minted then (.error "pool state overflow", touched)
        else if overflows (amountAt pool.lpBalances provider) minted then
          (.error "pool state overflow", touched.setPool key (pool.touch provider))
        else
          let paid0 := touched.setToken pool.token0
            ((touched.token pool.token0).debit provider add0)
          let paid := paid0.setToken pool.token1 ((paid0.token pool.token1).debit provider add1)
          (.ok (), paid.setPool key
            { pool with
              reserve0 := pool.reserve0 + add0
              reserve1 := pool.reserve1 + add1
              lpTotalSupply := pool.lpTotalSupply + minted
              lpBalances := pool.lpBalances.insert provider
                (amountAt pool.lpBalances provider + minted) })

/-- `add_liquidity`. -/
def addLiquidity (engine : TokenEngine) (tokenA tokenB provider : Bytes) (amountA amountB : UInt64) :
    Option (Except String Unit × TokenEngine) :=
  if provider.isEmpty ∨ amountA = 0 ∨ amountB = 0 then
    some (.error "invalid liquidity params", engine)
  else
    match engine.pools.lookup (poolKey tokenA tokenB) with
    | none => some (.error "pool not found", engine)
    | some pool =>
      if tokenA = pool.token0 then
        addToPool engine (poolKey tokenA tokenB) pool provider amountA amountB
      else addToPool engine (poolKey tokenA tokenB) pool provider amountB amountA

/-- What shares are worth of a reserve. The product wraps. -/
def shareOf (reserve lpAmount lpTotalSupply : UInt64) : UInt64 := reserve * lpAmount / lpTotalSupply

/-- `remove_liquidity`: the amounts of the two tokens in the order of the call. -/
def removeLiquidity (engine : TokenEngine) (tokenA tokenB provider : Bytes) (lpAmount : UInt64) :
    Except String (UInt64 × UInt64) × TokenEngine :=
  if provider.isEmpty ∨ lpAmount = 0 then (.error "invalid remove params", engine)
  else
    let key := poolKey tokenA tokenB
    match engine.pools.lookup key with
    | none => (.error "pool not found", engine)
    | some pool =>
      let held := amountAt pool.lpBalances provider
      let seen := pool.touch provider
      if held < lpAmount ∨ pool.lpTotalSupply = 0 then
        (.error "insufficient lp balance", engine.setPool key seen)
      else
        let take0 := shareOf pool.reserve0 lpAmount pool.lpTotalSupply
        let take1 := shareOf pool.reserve1 lpAmount pool.lpTotalSupply
        if take0 = 0 ∨ take1 = 0 then (.error "lp amount too small", engine.setPool key seen)
        else
          let first := engine.setToken pool.token0 ((engine.token pool.token0).touch provider)
          let touched := engine.touchBoth pool provider
          if overflows ((first.token pool.token0).balance provider) take0 then
            (.error "provider balance overflow", first.setPool key seen)
          else if overflows ((touched.token pool.token1).balance provider) take1 then
            (.error "provider balance overflow", touched.setPool key seen)
          else
            let paid0 := touched.setToken pool.token0
              ((touched.token pool.token0).credit provider take0)
            let paid := paid0.setToken pool.token1 ((paid0.token pool.token1).credit provider take1)
            (.ok (if tokenA = pool.token0 then (take0, take1) else (take1, take0)),
              paid.setPool key
                { pool with
                  reserve0 := pool.reserve0 - take0
                  reserve1 := pool.reserve1 - take1
                  lpTotalSupply := pool.lpTotalSupply - lpAmount
                  lpBalances := pool.lpBalances.insert provider (held - lpAmount) })

/-! ### Swaps -/

/-- The pool of a pair. -/
def findPool (engine : TokenEngine) (tokenA tokenB : Bytes) : Except String Pool :=
  match engine.pools.lookup (poolKey tokenA tokenB) with
  | none => .error "pool not found"
  | some pool => .ok pool

/-- The reserves of a pool from the side of a token. -/
def Pool.sides (pool : Pool) (tokenIn : Bytes) : UInt64 × UInt64 :=
  if tokenIn = pool.token0 then (pool.reserve0, pool.reserve1) else (pool.reserve1, pool.reserve0)

/-- `quote_exact_in`. -/
def quoteExactIn (engine : TokenEngine) (tokenIn tokenOut : Bytes) (amountIn : UInt64) :
    Except String UInt64 := do
  ensure (decide (amountIn ≠ 0) && !tokenIn.isEmpty && !tokenOut.isEmpty && decide (tokenIn ≠ tokenOut))
    "invalid quote params"
  let pool ← findPool engine tokenIn tokenOut
  let (reserveIn, reserveOut) := pool.sides tokenIn
  ensure (decide (reserveIn ≠ 0) && decide (reserveOut ≠ 0)) "pool has no liquidity"
  let feeMultiplier := 10000 - pool.feeBps
  ensure (decide (amountIn ≤ wordMax / feeMultiplier)) "quote overflow"
  let amountInWithFee := amountIn * feeMultiplier
  ensure (decide (amountInWithFee ≠ 0)) "amount too small after fee"
  ensure (decide (amountInWithFee ≤ wordMax / reserveOut)) "quote overflow"
  let num := amountInWithFee * reserveOut
  ensure (decide (reserveIn ≤ wordMax / 10000)) "quote overflow"
  let baseDen := reserveIn * 10000
  ensure (decide (baseDen ≤ wordMax - amountInWithFee)) "quote overflow"
  let den := baseDen + amountInWithFee
  ensure (decide (den ≠ 0)) "quote denominator zero"
  let amountOut := num / den
  ensure (decide (amountOut ≠ 0) && decide (amountOut < reserveOut)) "insufficient output amount"
  pure amountOut

/-- The checks of `swap_exact_in` before a balance is looked up. -/
def swapQuote (engine : TokenEngine) (tokenIn tokenOut trader : Bytes) (amountIn minOut : UInt64) :
    Except String UInt64 := do
  ensure (!trader.isEmpty) "trader empty"
  let amountOut ← quoteExactIn engine tokenIn tokenOut amountIn
  ensure (decide (minOut ≤ amountOut)) "slippage exceeded"
  pure amountOut

/-- A pool after a swap of one token. -/
def Pool.swapped (pool : Pool) (tokenIn : Bytes) (amountIn amountOut : UInt64) : Pool :=
  if tokenIn = pool.token0 then
    { pool with reserve0 := pool.reserve0 + amountIn, reserve1 := pool.reserve1 - amountOut }
  else { pool with reserve1 := pool.reserve1 + amountIn, reserve0 := pool.reserve0 - amountOut }

/-- `swap_exact_in`. The two branches of the source differ in the side of the input. -/
def swapExactIn (engine : TokenEngine) (tokenIn tokenOut trader : Bytes) (amountIn minOut : UInt64) :
    Except String UInt64 × TokenEngine :=
  match swapQuote engine tokenIn tokenOut trader amountIn minOut with
  | .error message => (.error message, engine)
  | .ok amountOut =>
    match engine.pools.lookup (poolKey tokenIn tokenOut) with
    | none => (.error "pool not found", engine) -- never: the quote found it
    | some pool =>
      let touched := engine.setToken tokenIn ((engine.token tokenIn).touch trader)
      if (touched.token tokenIn).balance trader < amountIn then
        (.error "insufficient input token balance", touched)
      else
        let (reserveIn, reserveOut) := pool.sides tokenIn
        if reserveOut ≤ amountOut then (.error "insufficient pool reserve", touched)
        else
          let seen := touched.setToken tokenOut ((touched.token tokenOut).touch trader)
          if overflows ((seen.token tokenOut).balance trader) amountOut ∨
              overflows reserveIn amountIn then
            (.error "swap state overflow", seen)
          else
            let paid := seen.setToken tokenIn ((seen.token tokenIn).debit trader amountIn)
            let received := paid.setToken tokenOut ((paid.token tokenOut).credit trader amountOut)
            (.ok amountOut, received.setPool (poolKey tokenIn tokenOut)
              (pool.swapped tokenIn amountIn amountOut))

/-- A text with a number in it. -/
def hopMessage (front : String) (hop : Nat) (message : String) : String :=
  front ++ toString hop ++ " failed: " ++ message

/-- The hops of `quote_route_exact_in`. -/
def quoteHops (engine : TokenEngine) : Nat → List Bytes → UInt64 → Except String UInt64
  | hop, tokenIn :: tokenOut :: rest, running =>
    match quoteExactIn engine tokenIn tokenOut running with
    | .error message => .error (hopMessage "route hop " hop message)
    | .ok hopOut => quoteHops engine (hop + 1) (tokenOut :: rest) hopOut
  | _, _, running => .ok running

/-- `quote_route_exact_in`. -/
def quoteRouteExactIn (engine : TokenEngine) (route : List Bytes) (amountIn : UInt64) :
    Except String UInt64 := do
  ensure (decide (2 ≤ route.length)) "route must contain at least 2 tokens"
  ensure (decide (amountIn ≠ 0)) "amount_in must be > 0"
  quoteHops engine 0 route amountIn

/-- The hops of `swap_route_exact_in`. -/
def swapHops (trader : Bytes) (minOut : UInt64) :
    TokenEngine → Nat → List Bytes → UInt64 → Except String UInt64 × TokenEngine
  | engine, hop, tokenIn :: tokenOut :: rest, running =>
    match swapExactIn engine tokenIn tokenOut trader running (if rest.isEmpty then minOut else 1) with
    | (.error message, left) => (.error (hopMessage "route swap hop " hop message), left)
    | (.ok hopOut, left) => swapHops trader minOut left (hop + 1) (tokenOut :: rest) hopOut
  | engine, _, _, running => (.ok running, engine)

/-- The checks of `swap_route_exact_in` before a balance is looked up. -/
def routeQuote (engine : TokenEngine) (route : List Bytes) (trader : Bytes)
    (amountIn minOut : UInt64) : Except String Unit := do
  ensure (!trader.isEmpty) "trader empty"
  let quoted ← quoteRouteExactIn engine route amountIn
  ensure (decide (minOut ≤ quoted)) "slippage exceeded on route"

/-- `swap_route_exact_in`. A hop that fails restores the snapshot. -/
def swapRouteExactIn (engine : TokenEngine) (route : List Bytes) (trader : Bytes)
    (amountIn minOut : UInt64) : Except String UInt64 × TokenEngine :=
  match routeQuote engine route trader amountIn minOut with
  | .error message => (.error message, engine)
  | .ok () =>
    let front := route.headD []
    let snapshot := engine.setToken front ((engine.token front).touch trader)
    if (snapshot.token front).balance trader < amountIn then
      (.error "insufficient input token balance", snapshot)
    else
      match swapHops trader minOut snapshot 0 route amountIn with
      | (.error message, _) => (.error message, snapshot)
      | (.ok amountOut, left) => (.ok amountOut, left)

/-! ### Calls -/

/-- The operations of the engine. -/
inductive Operation
  | createToken (symbol owner : Bytes) (maxSupply initialMint : UInt64)
  | createTokenEx (symbol name owner : Bytes) (maxSupply initialMint : UInt64) (decimals : UInt32)
      (burnable : Bool) (devWallet : Bytes) (devAllocation : UInt64)
  | mint (symbol caller recipient : Bytes) (amount : UInt64)
  | transfer (symbol sender recipient : Bytes) (amount : UInt64)
  | burn (symbol sender : Bytes) (amount : UInt64)
  | setPolicy (symbol caller treasuryWallet : Bytes) (transferFeeBps burnFeeBps : UInt64)
      (paused : Bool)
  | setBlacklist (symbol caller wallet : Bytes) (blocked : Bool)
  | setFeeExempt (symbol caller wallet : Bytes) (exempt : Bool)
  | setLimits (symbol caller : Bytes) (maxTxAmount maxWalletAmount : UInt64)
  | createPool (tokenA tokenB : Bytes) (feeBps : UInt64)
  | addLiquidity (tokenA tokenB provider : Bytes) (amountA amountB : UInt64)
  | removeLiquidity (tokenA tokenB provider : Bytes) (lpAmount : UInt64)
  | swapExactIn (tokenIn tokenOut trader : Bytes) (amountIn minOut : UInt64)
  | swapRouteExactIn (route : List Bytes) (trader : Bytes) (amountIn minOut : UInt64)

/-- The engine after a call, when it returns. -/
def perform (engine : TokenEngine) : Operation → Option TokenEngine
  | .createToken symbol owner maxSupply initialMint =>
    some (createToken engine symbol owner maxSupply initialMint).2
  | .createTokenEx symbol name owner maxSupply initialMint decimals burnable devWallet devAllocation =>
    some (createTokenEx engine symbol name owner maxSupply initialMint decimals burnable devWallet
      devAllocation).2
  | .mint symbol caller recipient amount => some (mint engine symbol caller recipient amount).2
  | .transfer symbol sender recipient amount => some (transfer engine symbol sender recipient amount).2
  | .burn symbol sender amount => some (burn engine symbol sender amount).2
  | .setPolicy symbol caller treasuryWallet transferFeeBps burnFeeBps paused =>
    some (setPolicy engine symbol caller treasuryWallet transferFeeBps burnFeeBps paused).2
  | .setBlacklist symbol caller wallet blocked =>
    some (setBlacklist engine symbol caller wallet blocked).2
  | .setFeeExempt symbol caller wallet exempt => some (setFeeExempt engine symbol caller wallet exempt).2
  | .setLimits symbol caller maxTxAmount maxWalletAmount =>
    some (setLimits engine symbol caller maxTxAmount maxWalletAmount).2
  | .createPool tokenA tokenB feeBps => some (createPool engine tokenA tokenB feeBps).2
  | .addLiquidity tokenA tokenB provider amountA amountB =>
    (addLiquidity engine tokenA tokenB provider amountA amountB).map Prod.snd
  | .removeLiquidity tokenA tokenB provider lpAmount =>
    some (removeLiquidity engine tokenA tokenB provider lpAmount).2
  | .swapExactIn tokenIn tokenOut trader amountIn minOut =>
    some (swapExactIn engine tokenIn tokenOut trader amountIn minOut).2
  | .swapRouteExactIn route trader amountIn minOut =>
    some (swapRouteExactIn engine route trader amountIn minOut).2

/-- The engine after calls one after the other, when all of them return. -/
def performAll : TokenEngine → List Operation → Option TokenEngine
  | engine, [] => some engine
  | engine, operation :: rest => (perform engine operation).bind (fun left => performAll left rest)

end Tokens

end Addition
