import Addition.TokenDumps

/-!
# What calls put into the token engine

Calls on tokens and pools move amounts between users they name, and change nothing else that a
dump writes; the others put their own texts into a token or a collection. So whatever holds of
the texts of the calls holds of the texts of every state they reach.
-/

namespace Addition

namespace Tokens

open ByteStrings Checked FiniteTables TextLines Store

/-! ### Amounts that move -/

/-- A token whose texts are the same but for users of a kind. -/
structure Token.Within (user : Bytes → Prop) (token left : Token) : Prop where
  owner : left.owner = token.owner
  treasuryWallet : left.treasuryWallet = token.treasuryWallet
  blacklist : left.blacklist = token.blacklist
  feeExempt : left.feeExempt = token.feeExempt
  balances : ∀ holder amount, left.balances.lookup holder = some amount →
    user holder ∨ ∃ before, token.balances.lookup holder = some before

section Amounts

variable {user : Bytes → Prop}

theorem Token.Within.refl (token : Token) : token.Within user token :=
  ⟨rfl, rfl, rfl, rfl, fun _ amount found => .inr ⟨amount, found⟩⟩

variable {token : Token} {holder : Bytes} {engine left : TokenEngine} {symbol key : Bytes}
  {pool : Pool} {provider trader : Bytes}

theorem Token.Within.trans {between left : Token} (first : token.Within user between)
    (second : between.Within user left) : token.Within user left := by
  refine ⟨second.owner.trans first.owner, second.treasuryWallet.trans first.treasuryWallet,
    second.blacklist.trans first.blacklist, second.feeExempt.trans first.feeExempt, ?_⟩
  intro holder amount found
  rcases second.balances holder amount found with listed | ⟨before, found⟩
  · exact .inl listed
  · exact first.balances holder before found

theorem Token.Within.setBalance {left : Token} (within : token.Within user left)
    (listed : user holder) (amount : UInt64) :
    token.Within user (left.setBalance holder amount) := by
  refine within.trans ⟨rfl, rfl, rfl, rfl, fun other found stored => ?_⟩
  rw [Token.setBalance, lookup_insert] at stored
  split at stored
  · rename_i same
    exact .inl (same ▸ listed)
  · exact .inr ⟨found, stored⟩

/-- A change of the supply leaves the texts. -/
theorem Token.Within.supply {left : Token} (within : token.Within user left) (supply : UInt64) :
    token.Within user { left with totalSupply := supply } :=
  within.trans ⟨rfl, rfl, rfl, rfl, fun _ amount found => .inr ⟨amount, found⟩⟩

theorem mint_within (token : Token) (caller recipient : Bytes) (amount : UInt64)
    (listed : recipient ≠ [] → user recipient) :
    token.Within user (token.mint caller recipient amount).2 := by
  unfold Token.mint
  cases checked : mintChecks token caller recipient amount with
  | error message => exact .refl token
  | ok _ =>
    simp only [mintChecks, bind_ok, exists_unit, ensure_ok, Bool.and_eq_true, Bool.not_eq_true',
      List.isEmpty_eq_false_iff] at checked
    have member := listed checked.2.1.1
    dsimp only
    split
    · exact (Token.Within.refl token).setBalance member _
    · exact ((Token.Within.refl token).setBalance member _).supply _

theorem burn_within (token : Token) (sender : Bytes) (amount : UInt64)
    (listed : sender ≠ [] → user sender) : token.Within user (token.burn sender amount).2 := by
  unfold Token.burn
  split
  · exact .refl token
  split
  · exact .refl token
  rename_i valid
  rw [not_or, List.isEmpty_iff] at valid
  have member := listed valid.1
  split
  · exact (Token.Within.refl token).setBalance member _
  · exact ((Token.Within.refl token).setBalance member _).supply _

theorem burnFee_within {left : Token} (within : token.Within user left) (burnFee : UInt64) :
    token.Within user (left.burnFee burnFee).2 := by
  unfold Token.burnFee
  split
  · split
    · exact within
    · exact within.supply _
  · exact within

theorem transfer_within (token : Token) (sender recipient : Bytes) (amount : UInt64)
    (listed : ∀ holder, holder = sender ∨ holder = recipient ∨ holder = token.treasuryWallet →
      holder ≠ [] → user holder) :
    token.Within user (token.transfer sender recipient amount).2 := by
  unfold Token.transfer
  cases checked : transferFees token sender recipient amount with
  | error message => exact .refl token
  | ok fees =>
    obtain ⟨transferFee, burnFee⟩ := fees
    simp only [transferFees, bind_ok, exists_unit, ensure_ok, Bool.and_eq_true, Bool.not_eq_true',
      List.isEmpty_eq_false_iff] at checked
    have sends := listed sender (.inl rfl) checked.1.1.1
    have receives := listed recipient (.inr (.inl rfl)) checked.1.1.2
    have start : token.Within user token := .refl token
    have debited := start.setBalance sends (token.balance sender - amount)
    dsimp only
    split
    · exact start.setBalance sends _
    split
    · exact (debited.setBalance receives _).setBalance sends _
    split
    · exact ((debited.setBalance receives _).setBalance sends _).setBalance receives _
    · unfold Token.payTreasury
      split
      · rename_i treasury
        have paid := listed token.treasuryWallet (.inr (.inr rfl)) treasury.2
        split
        · exact (((debited.setBalance receives _).setBalance paid _).setBalance sends _).setBalance
            receives _
        · exact burnFee_within ((debited.setBalance receives _).setBalance paid _) burnFee
      · exact burnFee_within (debited.setBalance receives _) burnFee

/-- An engine with the same tokens and users of a kind. -/
structure Within (user : Bytes → Prop) (engine left : TokenEngine) : Prop where
  tokens : ∀ symbol token, left.tokens.lookup symbol = some token →
    ∃ before, engine.tokens.lookup symbol = some before ∧ before.Within user token
  there : ∀ symbol, (engine.tokens.lookup symbol).isSome = true →
    (left.tokens.lookup symbol).isSome = true
  pools : ∀ key pool, left.pools.lookup key = some pool →
    ∀ holder amount, pool.lpBalances.lookup holder = some amount → user holder ∨
      ∃ before old, engine.pools.lookup key = some before ∧ before.lpBalances.lookup holder = some old

theorem Within.refl (engine : TokenEngine) : Within user engine engine :=
  ⟨fun _ token found => ⟨token, found, .refl token⟩, fun _ => id,
    fun _ pool found _ amount share => .inr ⟨pool, amount, found, share⟩⟩

theorem Within.trans {between : TokenEngine} (first : Within user engine between)
    (second : Within user between left) : Within user engine left := by
  refine ⟨fun symbol token found => ?_, fun symbol exists0 => second.there symbol (first.there symbol
    exists0), fun key pool found holder amount share => ?_⟩
  · obtain ⟨middle, foundMiddle, later⟩ := second.tokens symbol token found
    obtain ⟨before, foundBefore, early⟩ := first.tokens symbol middle foundMiddle
    exact ⟨before, foundBefore, early.trans later⟩
  · rcases second.pools key pool found holder amount share with listed | ⟨middle, old, found', share'⟩
    · exact .inl listed
    · exact first.pools key middle found' holder old share'

/-- A token is replaced by one within it. -/
theorem Within.setToken (within : Within user engine left)
    (found : left.tokens.lookup symbol = some token) (after : Token)
    (changed : token.Within user after) : Within user engine (left.setToken symbol after) := by
  refine ⟨fun tested current lookup => ?_, fun tested exists0 =>
    listed_setToken left symbol tested after (within.there tested exists0), within.pools⟩
  rw [TokenEngine.setToken, lookup_insert] at lookup
  split at lookup
  · rename_i same
    obtain rfl := Option.some.inj lookup
    obtain ⟨before, early, inside⟩ := within.tokens symbol token found
    exact ⟨before, same ▸ early, inside.trans changed⟩
  · exact within.tokens tested current lookup

/-- A balance of a user of the kind is written in a token that exists. -/
theorem Within.setBalance (within : Within user engine left) (listed : user holder)
    (exists0 : (engine.tokens.lookup symbol).isSome = true) (amount : UInt64) :
    Within user engine (left.setToken symbol ((left.token symbol).setBalance holder amount)) := by
  obtain ⟨token, found⟩ := Option.isSome_iff_exists.mp (within.there symbol exists0)
  have current : left.token symbol = token := by
    rw [TokenEngine.token, found, Option.getD_some]
  rw [current]
  exact within.setToken found _ ((Token.Within.refl token).setBalance listed amount)

/-- A pool is replaced by one with the shares of that in its place and of users of the kind. -/
theorem Within.setPool (within : Within user engine left) (key : Bytes) (after : Pool)
    (shares : ∀ holder amount, after.lpBalances.lookup holder = some amount → user holder ∨
      ∃ before old, engine.pools.lookup key = some before ∧ before.lpBalances.lookup holder = some old) :
    Within user engine (left.setPool key after) := by
  refine ⟨within.tokens, within.there, fun tested pool found => ?_⟩
  rw [lookup_setPool] at found
  split at found
  · rename_i same
    obtain rfl := Option.some.inj found
    exact same ▸ shares
  · exact within.pools tested pool found

/-- The shares of a user of the kind are written. -/
theorem inserted_shares (found : engine.pools.lookup key = some pool) (listed : user provider)
    (amount : UInt64) : ∀ holder share, (pool.lpBalances.insert provider amount).lookup holder =
      some share → user holder ∨
        ∃ before old, engine.pools.lookup key = some before ∧ before.lpBalances.lookup holder = some old := by
  intro holder share stored
  rw [lookup_insert] at stored
  split at stored
  · rename_i same
    exact .inl (same ▸ listed)
  · exact .inr ⟨pool, share, found, stored⟩

/-- The tokens of a pair that has a pool exist. -/
theorem Lawful.pair_there (lawful : Lawful engine) {a b : Bytes}
    (found : engine.pools.lookup (poolKey a b) = some pool) :
    (engine.tokens.lookup a).isSome = true ∧ (engine.tokens.lookup b).isSome = true := by
  obtain ⟨exists0, exists1⟩ := lawful.listed _ pool found
  rcases (lawful.pools _ pool found).paired.pair.2 with ⟨rfl, rfl⟩ | ⟨rfl, rfl⟩
  · exact ⟨exists0, exists1⟩
  · exact ⟨exists1, exists0⟩

theorem createPool_within (engine : TokenEngine) (tokenA tokenB : Bytes) (feeBps : UInt64) :
    Within user engine (createPool engine tokenA tokenB feeBps).2 := by
  have start : Within user engine engine := .refl engine
  unfold createPool
  split
  · exact start
  repeat' split
  all_goals first
    | exact start
    | exact start.setPool _ _ (fun holder amount found => by simp at found)

/-- The balances of a provider in both tokens of a pool are looked up. -/
theorem touchBoth_within (lawful : Lawful engine)
    (found : engine.pools.lookup key = some pool) (listed : user provider) :
    Within user engine (engine.touchBoth pool provider) := by
  obtain ⟨exists0, exists1⟩ := lawful.listed key pool found
  exact ((Within.refl engine).setBalance listed exists0 _).setBalance listed exists1 _

theorem addToPool_within (lawful : Lawful engine) (key provider : Bytes)
    (pool : Pool) (add0 add1 : UInt64) (outcome : Except String Unit × TokenEngine)
    (found : engine.pools.lookup key = some pool) (listed : user provider)
    (done : addToPool engine key pool provider add0 add1 = some outcome) :
    Within user engine outcome.2 := by
  obtain ⟨exists0, exists1⟩ := lawful.listed key pool found
  have touched := touchBoth_within lawful found listed
  unfold addToPool at done
  dsimp only at done
  split at done
  · exact Option.some.inj done ▸ touched
  obtain ⟨shares, computed, rfl⟩ := Option.map_eq_some_iff.mp done
  cases shares with
  | error message => exact touched
  | ok minted =>
    dsimp only
    split
    · exact touched
    split
    · exact touched.setPool key _ (inserted_shares found listed _)
    · exact ((touched.setBalance listed exists0 _).setBalance listed exists1 _).setPool key _
        (inserted_shares found listed _)

theorem addLiquidity_within (lawful : Lawful engine)
    (tokenA tokenB provider : Bytes) (amountA amountB : UInt64)
    (outcome : Except String Unit × TokenEngine) (listed : provider ≠ [] → user provider)
    (done : addLiquidity engine tokenA tokenB provider amountA amountB = some outcome) :
    Within user engine outcome.2 := by
  unfold addLiquidity at done
  split at done
  · exact Option.some.inj done ▸ Within.refl engine
  rename_i valid
  rw [not_or, List.isEmpty_iff] at valid
  cases found : engine.pools.lookup (poolKey tokenA tokenB) with
  | none =>
    rw [found] at done
    exact Option.some.inj done ▸ Within.refl engine
  | some pool =>
    rw [found] at done
    dsimp only at done
    split at done
    · exact addToPool_within lawful _ provider pool _ _ outcome found (listed valid.1) done
    · exact addToPool_within lawful _ provider pool _ _ outcome found (listed valid.1) done

theorem removeLiquidity_within (lawful : Lawful engine)
    (tokenA tokenB provider : Bytes) (lpAmount : UInt64) (listed : provider ≠ [] → user provider) :
    Within user engine (removeLiquidity engine tokenA tokenB provider lpAmount).2 := by
  have start : Within user engine engine := .refl engine
  unfold removeLiquidity
  split
  · exact start
  rename_i valid
  rw [not_or, List.isEmpty_iff] at valid
  have member := listed valid.1
  dsimp only
  cases found : engine.pools.lookup (poolKey tokenA tokenB) with
  | none => exact start
  | some pool =>
    obtain ⟨exists0, exists1⟩ := lawful.listed _ pool found
    have touched := touchBoth_within lawful found member
    dsimp only
    split
    · exact start.setPool _ _ (inserted_shares found member _)
    split
    · exact start.setPool _ _ (inserted_shares found member _)
    split
    · exact (start.setBalance member exists0 _).setPool _ _ (inserted_shares found member _)
    split
    · exact touched.setPool _ _ (inserted_shares found member _)
    · exact ((touched.setBalance member exists0 _).setBalance member exists1 _).setPool _ _
        (inserted_shares found member _)

theorem swapExactIn_within (lawful : Lawful engine)
    (tokenIn tokenOut trader : Bytes) (amountIn minOut : UInt64) (listed : trader ≠ [] → user trader) :
    Within user engine (swapExactIn engine tokenIn tokenOut trader amountIn minOut).2 := by
  have start : Within user engine engine := .refl engine
  unfold swapExactIn
  cases checked : swapQuote engine tokenIn tokenOut trader amountIn minOut with
  | error message => exact start
  | ok amountOut =>
    simp only [swapQuote, bind_ok, exists_unit, ensure_ok, Bool.not_eq_true',
      List.isEmpty_eq_false_iff] at checked
    have member := listed checked.1
    dsimp only
    cases found : engine.pools.lookup (poolKey tokenIn tokenOut) with
    | none => exact start
    | some pool =>
      obtain ⟨existsIn, existsOut⟩ := lawful.pair_there found
      have touched := start.setBalance member existsIn ((engine.token tokenIn).balance trader)
      dsimp only
      split
      · exact touched
      split
      · exact touched
      have seen := touched.setBalance member existsOut
      split
      · exact seen _
      · refine ((((seen _).setBalance member existsIn _).setBalance member existsOut _)).setPool _ _ ?_
        intro holder share stored
        refine .inr ⟨pool, share, found, ?_⟩
        unfold Pool.swapped at stored
        split at stored <;> exact stored

theorem swapHops_within (minOut : UInt64) (member : user trader) (route : List Bytes) :
    ∀ {engine : TokenEngine}, Lawful engine → ∀ (hop : Nat) (running : UInt64),
      Within user engine (swapHops trader minOut engine hop route running).2 := by
  induction route with
  | nil => exact fun _ _ _ => .refl _
  | cons tokenIn rest ih =>
    intro engine lawful hop running
    cases rest with
    | nil => exact .refl engine
    | cons tokenOut rest =>
      have first := @swapExactIn_within user engine lawful tokenIn tokenOut trader running
        (if rest.isEmpty then minOut else 1) (fun _ => member)
      have after := lawful.step (swapExactIn_step Always engine tokenIn tokenOut trader running
        (if rest.isEmpty then minOut else 1))
      unfold swapHops
      cases swapped : swapExactIn engine tokenIn tokenOut trader running
          (if rest.isEmpty then minOut else 1) with
      | mk result left =>
        rw [swapped] at first after
        cases result with
        | error message => exact first
        | ok hopOut => exact first.trans (ih after (hop + 1) hopOut)

/-- A route that is quoted begins with a token of a pool. -/
theorem routeQuote_there (lawful : Lawful engine) {route : List Bytes} {amountIn minOut : UInt64}
    (quoted : routeQuote engine route trader amountIn minOut = .ok ()) :
    trader ≠ [] ∧ (engine.tokens.lookup (route.headD [])).isSome = true := by
  simp only [routeQuote, bind_ok, exists_unit, ensure_ok, Bool.not_eq_true',
    List.isEmpty_eq_false_iff] at quoted
  obtain ⟨some, total, quoted, _⟩ := quoted
  refine ⟨some, ?_⟩
  simp only [quoteRouteExactIn, bind_ok, exists_unit, ensure_ok, decide_eq_true_eq] at quoted
  obtain ⟨long, _, hops⟩ := quoted
  cases route with
  | nil => exact absurd long (by simp)
  | cons tokenIn after =>
    cases after with
    | nil => exact absurd long (by simp)
    | cons tokenOut rest =>
      unfold quoteHops at hops
      cases first : quoteExactIn engine tokenIn tokenOut amountIn with
      | error message => simp [first] at hops
      | ok hopOut =>
        simp only [quoteExactIn, bind_ok, exists_unit, ensure_ok] at first
        obtain ⟨_, pool, found, _⟩ := first
        unfold findPool at found
        split at found
        · simp at found
        · rename_i listed
          exact (lawful.pair_there listed).1

theorem swapRouteExactIn_within (lawful : Lawful engine) (route : List Bytes)
    (trader : Bytes) (amountIn minOut : UInt64) (listed : trader ≠ [] → user trader) :
    Within user engine (swapRouteExactIn engine route trader amountIn minOut).2 := by
  have start : Within user engine engine := .refl engine
  unfold swapRouteExactIn
  cases quoted : routeQuote engine route trader amountIn minOut with
  | error message => exact start
  | ok _ =>
    obtain ⟨some, front⟩ := routeQuote_there lawful quoted
    have member := listed some
    have snapshot := start.setBalance member front
      ((engine.token (route.headD [])).balance trader)
    have kept : Lawful (engine.setToken (route.headD [])
        ((engine.token (route.headD [])).touch trader)) :=
      lawful.step (.alike ((Alike.refl engine).touch (route.headD []) trader))
    dsimp only
    split
    · exact snapshot
    · have hops := @swapHops_within user trader minOut member route _ kept 0 amountIn
      split
      · exact snapshot
      · rename_i swapped
        rw [swapped] at hops
        exact snapshot.trans hops

end Amounts

/-! ### The texts of calls -/

/-- The texts of an operation that it may store as a name or a user. -/
def Operation.names : Operation → List Bytes
  | .createToken symbol owner _ _ => [symbol, owner]
  | .createTokenEx symbol name owner _ _ _ _ devWallet _ => [symbol, name, owner, devWallet]
  | .mint _ _ recipient _ => [recipient]
  | .transfer _ sender recipient _ => [sender, recipient]
  | .burn _ sender _ => [sender]
  | .setPolicy _ _ treasuryWallet _ _ _ => [treasuryWallet]
  | .addLiquidity _ _ provider _ _ => [provider]
  | .removeLiquidity _ _ provider _ => [provider]
  | .swapExactIn _ _ trader _ _ => [trader]
  | .swapRouteExactIn _ trader _ _ => [trader]
  | _ => []

/-- The wallets that an operation may put into a set. -/
def Operation.wallets : Operation → List Bytes
  | .setBlacklist _ _ wallet _ => [wallet]
  | .setFeeExempt _ _ wallet _ => [wallet]
  | _ => []

/-- The symbols and names of a call. -/
def Call.names : Call → List Bytes
  | .engine operation => operation.names
  | .mintNft collection id owner _ => [collection, id, owner]
  | .transferNft _ _ _ recipient => [recipient]

/-- The wallets of a call. -/
def Call.wallets : Call → List Bytes
  | .engine operation => operation.wallets
  | _ => []

/-- The metadata that a call may store. -/
def Call.texts : Call → List Bytes
  | .mintNft _ _ _ metadata => [metadata]
  | _ => []

/-- What the texts of a call satisfy, where it stores no empty wallet. -/
structure Call.Fits (free wallet rest : Bytes → Prop) (call : Call) : Prop where
  names : ∀ text ∈ call.names, free text
  wallets : ∀ text ∈ call.wallets, text ≠ [] → wallet text
  texts : ∀ text ∈ call.texts, rest text

/-! ### One call -/

section Steps

variable {user free wallet rest : Bytes → Prop}

variable {label : Label} {symbol : Bytes} {token : Token} {state : TokenState}
  {devWallet name owner : Bytes}

/-- A token that differs within users of the kind keeps to its texts. -/
theorem TokenSpelled.within {left : Token}
    (spelled : TokenSpelled user free wallet symbol token label) (within : token.Within user left) :
    TokenSpelled user free wallet symbol left label := by
  refine ⟨spelled.symbol, spelled.name, ?_, spelled.devWallet, ?_, fun holder amount found => ?_, ?_, ?_⟩
  · rw [within.owner]
    exact spelled.owner
  · rw [within.treasuryWallet]
    exact spelled.treasuryWallet
  · rcases within.balances holder amount found with listed | ⟨before, found⟩
    · exact listed
    · exact spelled.balances holder before found
  · rw [within.blacklist]
    exact spelled.blacklist
  · rw [within.feeExempt]
    exact spelled.feeExempt

theorem Spelled.within (spelled : Spelled user free wallet rest state)
    {left : TokenEngine} (within : Within user state.engine left) :
    Spelled user free wallet rest { state with engine := left } := by
  refine ⟨fun symbol token found => ?_, fun key pool found holder amount share => ?_, spelled.nfts⟩
  · obtain ⟨before, early, inside⟩ := within.tokens symbol token found
    exact (spelled.tokens symbol before early).within inside
  · rcases within.pools key pool found holder amount share with listed | ⟨before, old, early, share⟩
    · exact listed
    · exact spelled.pools key before early holder old share

/-- A call on one token that keeps to its texts. -/
theorem Spelled.onToken (spelled : Spelled user free wallet rest state)
    (symbol : Bytes) (call : Token → Except String Unit × Token)
    (keeps : ∀ token, TokenSpelled user free wallet symbol token (state.label symbol) →
      TokenSpelled user free wallet symbol (call token).2 (state.label symbol)) :
    Spelled user free wallet rest { state with engine := (onToken state.engine symbol call).2 } := by
  unfold Tokens.onToken
  cases found : state.engine.tokens.lookup symbol with
  | none => exact spelled
  | some token =>
    refine ⟨fun tested current lookup => ?_, spelled.pools, spelled.nfts⟩
    change (state.engine.tokens.insert symbol (call token).2).lookup tested = some current at lookup
    rw [lookup_insert] at lookup
    split at lookup
    · rename_i same
      obtain rfl := Option.some.inj lookup
      subst same
      exact keeps token (spelled.tokens _ token found)
    · exact spelled.tokens tested current lookup

/-- A setting keeps to the texts of a token when its change does. -/
theorem set_spelled (caller : Bytes)
    (refusal : String) (check : Except String Unit) (change : Token → Token)
    (spelled : TokenSpelled user free wallet symbol token label)
    (changed : check = .ok () → TokenSpelled user free wallet symbol (change token) label) :
    TokenSpelled user free wallet symbol (token.set caller refusal check change).2 label := by
  unfold Token.set
  split
  · exact spelled
  · rename_i passed
    simp only [bind_ok, exists_unit] at passed
    exact changed passed.2

/-- A wallet comes into a set of wallets of the kind, or leaves it. -/
theorem listed_spelled {wallets : Finset Bytes} {changed : Bytes} (inside : Bool)
    (all : ∀ text ∈ wallets, wallet text) (one : wallet changed) :
    ∀ text ∈ listed wallets changed inside, wallet text := by
  intro text member
  unfold listed at member
  split at member
  · rcases Finset.mem_insert.mp member with rfl | before
    · exact one
    · exact all text before
  · exact all text (Finset.mem_of_mem_erase member)

/-- The texts of a token that was created. -/
theorem newToken_spelled (named : ∀ text, free text → text ≠ [] → user text) (nothing : free [])
    {maxSupply initialMint devAllocation : UInt64} {decimals : UInt32} (burnable : Bool)
    (fits : free symbol ∧ free name ∧ free owner ∧ free devWallet)
    (checked : createChecks symbol name owner maxSupply initialMint decimals devWallet devAllocation =
      .ok ()) :
    TokenSpelled user free wallet symbol
      (newToken owner maxSupply initialMint burnable devWallet devAllocation)
      ⟨name, decimals, devWallet, devAllocation⟩ := by
  simp only [createChecks, bind_ok, exists_unit, ensure_ok, Bool.and_eq_true, Bool.not_eq_true',
    List.isEmpty_eq_false_iff, Bool.and_eq_false_iff, decide_eq_false_iff_not] at checked
  obtain ⟨⟨symbolSome, ownerSome⟩, nameSome, _, _, _, dev, _⟩ := checked
  have owns := named owner fits.2.2.1 ownerSome
  set bare : Token := { Token.empty with
    owner := owner
    burnable := burnable
    maxSupply := maxSupply
    totalSupply := initialMint + devAllocation } with shape
  have start : TokenSpelled user free wallet symbol bare ⟨name, decimals, devWallet, devAllocation⟩ :=
    ⟨named symbol fits.1 symbolSome, named name fits.2.1 nameSome, owns, fits.2.2.2, nothing,
      by simp [shape, Token.empty], by simp [shape, Token.empty], by simp [shape, Token.empty]⟩
  refine start.within ?_
  have minted : bare.Within user (if 0 < initialMint then bare.setBalance owner initialMint else bare) := by
    split
    · exact (Token.Within.refl bare).setBalance owns _
    · exact .refl bare
  unfold newToken
  dsimp only
  split
  · rename_i allocated
    refine minted.setBalance (named devWallet fits.2.2.2 ?_) _
    rcases dev with none | some
    · exact absurd allocated none
    · exact some
  · exact minted

theorem Spelled.createTokenEx (named : ∀ text, free text → text ≠ [] → user text) (nothing : free [])
    (spelled : Spelled user free wallet rest state) (maxSupply initialMint devAllocation : UInt64)
    (decimals : UInt32) (burnable : Bool)
    (fits : free symbol ∧ free name ∧ free owner ∧ free devWallet) :
    Spelled user free wallet rest { state with
      engine := (createTokenEx state.engine symbol name owner maxSupply initialMint decimals burnable
        devWallet devAllocation).2
      labels := if (createTokenEx state.engine symbol name owner maxSupply initialMint decimals burnable
          devWallet devAllocation).1.isOk then
        state.labels.insert symbol ⟨name, decimals, devWallet, devAllocation⟩ else state.labels } := by
  unfold Tokens.createTokenEx
  cases checked : createChecks symbol name owner maxSupply initialMint decimals devWallet
      devAllocation with
  | error message => exact spelled
  | ok _ =>
    dsimp only
    split
    · exact spelled
    · refine ⟨fun tested token found => ?_, spelled.pools, spelled.nfts⟩
      change (state.engine.tokens.insert symbol _).lookup tested = some token at found
      rw [lookup_insert] at found
      show TokenSpelled user free wallet tested token
        (((state.labels.insert symbol _).lookup tested).getD .empty)
      rw [lookup_insert]
      split at found
      · rename_i same
        obtain rfl := Option.some.inj found
        rw [same, if_pos rfl, Option.getD_some]
        exact newToken_spelled named nothing burnable fits checked
      · rename_i other
        rw [if_neg other]
        exact spelled.tokens tested token found

/-- A collectible in its place. -/
theorem Spelled.setNft (spelled : Spelled user free wallet rest state)
    {collection id : Bytes} {nft : NftAsset} (named : user collection)
    (fits : user id ∧ user nft.owner ∧ rest nft.metadata) :
    Spelled user free wallet rest (state.setNft collection id nft) := by
  refine ⟨spelled.tokens, spelled.pools, fun tested assets found => ?_⟩
  change (state.nfts.insert collection _).lookup tested = some assets at found
  rw [lookup_insert] at found
  split at found
  · rename_i same
    obtain rfl := Option.some.inj found
    refine ⟨same ▸ named, fun other asset stored => ?_⟩
    rw [lookup_insert] at stored
    split at stored
    · rename_i sameId
      obtain rfl := Option.some.inj stored
      exact sameId ▸ fits
    · unfold TokenState.assets at stored
      cases before : state.nfts.lookup collection with
      | none => simp [before] at stored
      | some old =>
        rw [before, Option.getD_some] at stored
        exact (spelled.nfts collection old before).2 other asset stored
  · exact spelled.nfts tested assets found

/-- What the texts of a call satisfy, those of the state after it satisfy. -/
theorem Spelled.step (named : ∀ text, free text → text ≠ [] → user text) (nothing : free [])
    {left : TokenState} (spelled : Spelled user free wallet rest state)
    (lawful : Lawful state.engine) (call : Call) (fits : call.Fits free wallet rest)
    (done : performCall state call = some left) : Spelled user free wallet rest left := by
  have listed : ∀ text ∈ call.names, text ≠ [] → user text :=
    fun text member => named text (fits.names text member)
  cases call with
  | mintNft collection id owner metadata =>
    obtain rfl := Option.some.inj done
    unfold mintNft
    split
    · exact spelled
    · rename_i filled
      simp only [List.isEmpty_iff, not_or] at filled
      split
      · exact spelled
      · exact spelled.setNft (listed collection (by simp [Call.names]) filled.1)
          ⟨listed id (by simp [Call.names]) filled.2.1, listed owner (by simp [Call.names]) filled.2.2,
            fits.texts metadata (by simp [Call.texts])⟩
  | transferNft collection id sender recipient =>
    obtain rfl := Option.some.inj done
    unfold transferNft
    cases found : state.nfts.lookup collection with
    | none => exact spelled
    | some assets =>
      dsimp only
      cases stored : assets.lookup id with
      | none => exact spelled
      | some nft =>
        dsimp only
        obtain ⟨collectionNamed, each⟩ := spelled.nfts collection assets found
        obtain ⟨idNamed, _, metadata⟩ := each id nft stored
        split
        · exact spelled
        · rename_i filled
          simp only [List.isEmpty_iff, not_or] at filled
          split
          · exact spelled
          · exact spelled.setNft collectionNamed
              ⟨idNamed, listed recipient (by simp [Call.names]) filled.2, metadata⟩
  | engine operation =>
    obtain ⟨engine, performed, rfl⟩ := Option.map_eq_some_iff.mp done
    cases operation with
    | createToken symbol owner maxSupply initialMint =>
      obtain rfl := Option.some.inj performed
      have symbolFree := fits.names symbol (by simp [Call.names, Operation.names])
      have ownerFree := fits.names owner (by simp [Call.names, Operation.names])
      exact spelled.createTokenEx named nothing maxSupply initialMint 0 18 false
        ⟨symbolFree, symbolFree, ownerFree, nothing⟩
    | createTokenEx symbol name owner maxSupply initialMint decimals burnable devWallet devAllocation =>
      obtain rfl := Option.some.inj performed
      exact spelled.createTokenEx named nothing maxSupply initialMint devAllocation decimals burnable
        ⟨fits.names symbol (by simp [Call.names, Operation.names]),
          fits.names name (by simp [Call.names, Operation.names]),
          fits.names owner (by simp [Call.names, Operation.names]),
          fits.names devWallet (by simp [Call.names, Operation.names])⟩
    | mint symbol caller recipient amount =>
      obtain rfl := Option.some.inj performed
      exact spelled.onToken symbol _ fun token before => before.within
        (mint_within token caller recipient amount (listed recipient (by simp [Call.names, Operation.names])))
    | transfer symbol sender recipient amount =>
      obtain rfl := Option.some.inj performed
      refine spelled.onToken symbol _ fun token before => before.within
        (transfer_within token sender recipient amount ?_)
      rintro holder (rfl | rfl | rfl)
      · exact listed holder (by simp [Call.names, Operation.names])
      · exact listed holder (by simp [Call.names, Operation.names])
      · exact named _ before.treasuryWallet
    | burn symbol sender amount =>
      obtain rfl := Option.some.inj performed
      exact spelled.onToken symbol _ fun token before => before.within
        (burn_within token sender amount (listed sender (by simp [Call.names, Operation.names])))
    | setPolicy symbol caller treasuryWallet transferFeeBps burnFeeBps paused =>
      obtain rfl := Option.some.inj performed
      have treasury := fits.names treasuryWallet (by simp [Call.names, Operation.names])
      exact spelled.onToken symbol _ fun token before => set_spelled caller _ _ _ before fun _ =>
        ⟨before.symbol, before.name, before.owner, before.devWallet, treasury, before.balances,
          before.blacklist, before.feeExempt⟩
    | setBlacklist symbol caller blocked inside =>
      obtain rfl := Option.some.inj performed
      refine spelled.onToken symbol _ fun token before => set_spelled caller _ _ _ before fun checked => ?_
      rw [ensure_ok, Bool.not_eq_true', List.isEmpty_eq_false_iff] at checked
      have one := fits.wallets blocked (by simp [Call.wallets, Operation.wallets]) checked
      exact ⟨before.symbol, before.name, before.owner, before.devWallet, before.treasuryWallet,
        before.balances, listed_spelled inside before.blacklist one, before.feeExempt⟩
    | setFeeExempt symbol caller exempt inside =>
      obtain rfl := Option.some.inj performed
      refine spelled.onToken symbol _ fun token before => set_spelled caller _ _ _ before fun checked => ?_
      rw [ensure_ok, Bool.not_eq_true', List.isEmpty_eq_false_iff] at checked
      have one := fits.wallets exempt (by simp [Call.wallets, Operation.wallets]) checked
      exact ⟨before.symbol, before.name, before.owner, before.devWallet, before.treasuryWallet,
        before.balances, before.blacklist, listed_spelled inside before.feeExempt one⟩
    | setLimits symbol caller maxTxAmount maxWalletAmount =>
      obtain rfl := Option.some.inj performed
      exact spelled.onToken symbol _ fun token before => set_spelled caller _ _ _ before fun _ =>
        ⟨before.symbol, before.name, before.owner, before.devWallet, before.treasuryWallet,
          before.balances, before.blacklist, before.feeExempt⟩
    | createPool tokenA tokenB feeBps =>
      obtain rfl := Option.some.inj performed
      exact spelled.within (createPool_within state.engine tokenA tokenB feeBps)
    | addLiquidity tokenA tokenB provider amountA amountB =>
      obtain ⟨outcome, returned, rfl⟩ := Option.map_eq_some_iff.mp performed
      exact spelled.within (addLiquidity_within lawful tokenA tokenB provider amountA amountB outcome
        (listed provider (by simp [Call.names, Operation.names])) returned)
    | removeLiquidity tokenA tokenB provider lpAmount =>
      obtain rfl := Option.some.inj performed
      exact spelled.within (removeLiquidity_within lawful tokenA tokenB provider lpAmount
        (listed provider (by simp [Call.names, Operation.names])))
    | swapExactIn tokenIn tokenOut trader amountIn minOut =>
      obtain rfl := Option.some.inj performed
      exact spelled.within (swapExactIn_within lawful tokenIn tokenOut trader amountIn minOut
        (listed trader (by simp [Call.names, Operation.names])))
    | swapRouteExactIn route trader amountIn minOut =>
      obtain rfl := Option.some.inj performed
      exact spelled.within (swapRouteExactIn_within lawful route trader amountIn minOut
        (listed trader (by simp [Call.names, Operation.names])))

end Steps

end Tokens

end Addition
