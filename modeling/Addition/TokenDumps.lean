import Addition.TokenFiles

/-!
# Dumps of the token engine

The lines of a dump, each read back on its own, then those of one token, collection or pool, and
then all of them. Of the engines that calls reach exactly those come back whose names, owners and
users have neither a bar nor the end of a line, and whose listed wallets and metadata have no end
of a line.
-/

namespace Addition

namespace Tokens

open ByteStrings Checked FiniteTables TextLines Store

/-! ### What is stored -/

/-- What the texts of a token satisfy: those that name somebody, those that may be empty, and
the wallets of its sets. -/
structure TokenSpelled (user free wallet : Bytes → Prop) (symbol : Bytes) (token : Token)
    (label : Label) : Prop where
  symbol : user symbol
  name : user label.name
  owner : user token.owner
  devWallet : free label.devWallet
  treasuryWallet : free token.treasuryWallet
  balances : ∀ holder amount, token.balances.lookup holder = some amount → user holder
  blacklist : ∀ blocked ∈ token.blacklist, wallet blocked
  feeExempt : ∀ exempt ∈ token.feeExempt, wallet exempt

/-- What all texts of a state satisfy. -/
structure Spelled (user free wallet rest : Bytes → Prop) (state : TokenState) : Prop where
  tokens : ∀ symbol token, state.engine.tokens.lookup symbol = some token →
    TokenSpelled user free wallet symbol token (state.label symbol)
  pools : ∀ key pool, state.engine.pools.lookup key = some pool →
    ∀ holder amount, pool.lpBalances.lookup holder = some amount → user holder
  nfts : ∀ collection assets, state.nfts.lookup collection = some assets → user collection ∧
    ∀ id nft, assets.lookup id = some nft → user id ∧ user nft.owner ∧ rest nft.metadata

/-- A text without the end of a line. -/
def OneLine (text : Bytes) : Prop := newline ∉ text

/-- No text of a state contains what delimits it in the file. -/
abbrev PlainState : TokenState → Prop := Spelled PlainField PlainField OneLine OneLine

/-- What every state that calls reach has: its names are not empty, a collection has something in
it, and a pool lies under the key of its pair. -/
structure Formed (state : TokenState) : Prop where
  filled : Spelled (· ≠ []) (fun _ => True) (· ≠ []) (fun _ => True) state
  collections : ∀ collection assets, state.nfts.lookup collection = some assets →
    ∃ id nft, assets.lookup id = some nft
  ordered : ∀ key pool, state.engine.pools.lookup key = some pool →
    orderedPair pool.token0 pool.token1 = some (pool.token0, pool.token1)
  named : ∀ key pool, state.engine.pools.lookup key = some pool →
    key = poolKey pool.token0 pool.token1

/-! ### The same state -/

/-- Tokens that differ in nothing but the order of their balances. -/
structure SameToken (token other : Token) : Prop where
  rest : { other with balances := ∅ } = { token with balances := ∅ }
  balances : ∀ user, other.balances.lookup user = token.balances.lookup user

/-- Pools that differ in nothing but the order of their shares. -/
structure SamePool (pool other : Pool) : Prop where
  rest : { other with lpBalances := ∅ } = { pool with lpBalances := ∅ }
  shares : ∀ user, other.lpBalances.lookup user = pool.lpBalances.lookup user

/-- States with the same tokens, collectibles and pools. -/
structure Same (state loaded : TokenState) : Prop where
  tokens : ∀ symbol, Option.Rel SameToken (state.engine.tokens.lookup symbol)
    (loaded.engine.tokens.lookup symbol)
  labels : ∀ symbol token, state.engine.tokens.lookup symbol = some token →
    loaded.label symbol = state.label symbol
  nfts : ∀ collection, Option.Rel (fun assets others => ∀ id, others.lookup id = assets.lookup id)
    (state.nfts.lookup collection) (loaded.nfts.lookup collection)
  pools : ∀ key, Option.Rel SamePool (state.engine.pools.lookup key) (loaded.engine.pools.lookup key)

/-- Whatever the order of a dump, the state comes back from it. -/
def RoundTrips (state : TokenState) : Prop :=
  ∀ order : DumpOrder, order.Of state →
    ∃ loaded, loadState (dumpState state order) = .ok loaded ∧ Same state loaded

/-! ### Fields of a line -/

theorem flag_plain (value : Bool) : PlainField (flag value) := by
  cases value
  · exact ⟨by decide, by decide⟩
  · exact ⟨by decide, by decide⟩

theorem number_plain (value : UInt64) : PlainField (number value) := plain_decimal _

/-- Fields come back as parts when none contains a bar and the last one is not empty. -/
theorem splitAll_fields (texts : List Bytes) (last : Bytes) (plain : ∀ text ∈ texts, bar ∉ text)
    (some : last ≠ []) (absent : bar ∉ last) :
    splitAll bar (fields (texts ++ [last])) = texts ++ [last] := by
  induction texts with
  | nil => simpa [fields_one] using splitAll_last bar last some absent
  | cons text rest ih =>
    have later := ih (fun other member => plain other (by simp [member]))
    obtain ⟨second, others, split⟩ : ∃ second others, rest ++ [last] = second :: others :=
      List.exists_cons_of_ne_nil (by simp)
    rw [List.cons_append, split, fields_cons, splitAll_append bar text _ (plain text (by simp)),
      ← split, later]

/-- A line with a tag of one letter. -/
theorem loadLine_tagLine (state : TokenState) (tag : Char) (texts : List Bytes)
    (other : byte tag ≠ bar) :
    loadLine state (tagLine tag texts) = loadTagged state [byte tag] (some (fields texts)) := by
  have cut : getline bar (some (tagLine tag texts)) [] = ([byte tag], some (fields texts), true) :=
    getline_append bar [byte tag] (fields texts) [] (by simpa using other.symm)
  have filled : (tagLine tag texts).isEmpty = false := rfl
  simp only [loadLine, filled, cut, Bool.false_eq_true, ↓reduceIte]

theorem parseU64Field_number (value : UInt64) : parseU64Field (number value) = some value := by
  have digits := decimal_digits value.toNat
  have back := stoull_decimal value
  unfold parseU64Field number
  obtain ⟨first, rest, shape⟩ := List.exists_cons_of_ne_nil (decimal_ne_nil value.toNat)
  rw [shape] at digits back ⊢
  have front := digits first (by simp)
  have space := isSpace_of_isDigit first front
  have minus : first ≠ byte '-' := by rintro rfl; exact absurd front (by decide)
  have plus : first ≠ byte '+' := by rintro rfl; exact absurd front (by decide)
  have whole : ∀ digit ∈ rest, isDigit digit = true := fun digit member => digits digit (by simp [member])
  simpa [List.dropWhile_cons, space, minus, plus, front, back] using whole

theorem numberOr_number (missing value : UInt64) : numberOr missing (number value) = some value := by
  simp [numberOr, number, decimal_ne_nil, stoull_decimal]

/-- The decimals of a token fit a word. -/
theorem numberOr_decimals (missing : UInt64) (value : UInt32) :
    numberOr missing (decimal value.toNat) = some (UInt64.ofNat value.toNat) := by
  have small := value.toNat_lt
  rw [numberOr, if_neg (by simp [decimal_ne_nil]), stoull_rendered, if_neg (by omega)]

theorem decimals_back (value : UInt32) : UInt32.ofNat (UInt64.ofNat value.toNat).toNat = value := by
  have small := value.toNat_lt
  rw [UInt64.toNat_ofNat_of_lt' (by rw [UInt64.size]; omega), UInt32.ofNat_toNat]

theorem flag_back (value : Bool) : decide (flag value = ascii "1") = value := by
  cases value <;> decide

/-! ### Lines of a token -/

/-- A token with its label at a symbol. -/
def TokenState.put (state : TokenState) (symbol : Bytes) (token : Token) (label : Label) :
    TokenState :=
  { state with engine := state.engine.setToken symbol token, labels := state.labels.insert symbol label }

theorem setToken_setToken (engine : TokenEngine) (symbol : Bytes) (token token' : Token) :
    (engine.setToken symbol token).setToken symbol token' = engine.setToken symbol token' := by
  unfold TokenEngine.setToken
  rw [AList.insert_insert]

/-- A change of a token that was put is a put of the changed one. -/
theorem put_change (state : TokenState) (symbol : Bytes) (token : Token) (label : Label)
    (changed : Token → Token) :
    (state.put symbol token label).change symbol changed = state.put symbol (changed token) label := by
  simp only [TokenState.change, TokenState.put, token_setToken_self, setToken_setToken]

theorem put_foldl {α : Type} (state : TokenState) (symbol : Bytes) (token : Token) (label : Label)
    (changed : α → Token → Token) (items : List α) :
    items.foldl (fun state item => state.change symbol (changed item)) (state.put symbol token label) =
      state.put symbol (items.foldl (fun token item => changed item token) token) label := by
  induction items generalizing token with
  | nil => rfl
  | cons item rest ih =>
    rw [List.foldl_cons, put_change, ih, List.foldl_cons]

section TokenBlock

variable {symbol : Bytes} {token : Token} {label : Label}

/-- A token without its balances and sets. -/
def Token.bare (token : Token) : Token := { token with balances := ∅, blacklist := ∅, feeExempt := ∅ }

/-- The fields of a token are read in the new form. -/
theorem currentForm_fields (named : label.name ≠ []) :
    currentForm (fun index => (tokenFields symbol token label ++ [number token.totalSupply]).getD index
      []) = some (token.bare, label) := by
  have maxSupply : stoull (number token.maxSupply) = some token.maxSupply := stoull_decimal _
  have totalSupply : stoull (number token.totalSupply) = some token.totalSupply := stoull_decimal _
  have filled : label.name.isEmpty = false := by simpa using named
  simp only [tokenFields, List.cons_append, List.nil_append, currentForm, sharedFields,
    List.getD_cons_succ, List.getD_cons_zero, numberOr_number, numberOr_decimals, Option.bind_eq_bind,
    Option.bind_some, Option.pure_def, decimals_back, flag_back, maxSupply, totalSupply, filled,
    Bool.false_eq_true, ↓reduceIte]
  rfl

/-- The line of a token puts it without its balances and sets. -/
theorem loadLine_tokenLine (state : TokenState)
    (filled : TokenSpelled (· ≠ []) (fun _ => True) (· ≠ []) symbol token label)
    (plain : TokenSpelled PlainField PlainField OneLine symbol token label) :
    loadLine state (tokenLine symbol token label) = .ok (state.put symbol token.bare label) := by
  have absent : ∀ text ∈ tokenFields symbol token label, bar ∉ text := by
    simp only [tokenFields, List.forall_mem_cons, List.not_mem_nil, false_implies, implies_true,
      and_true]
    exact ⟨plain.symbol.bar, plain.name.bar, plain.owner.bar, (plain_decimal _).bar,
      (flag_plain _).bar, plain.devWallet.bar, (number_plain _).bar, plain.treasuryWallet.bar,
      (number_plain _).bar, (number_plain _).bar, (flag_plain _).bar, (number_plain _).bar,
      (number_plain _).bar, (number_plain _).bar⟩
  have parts : partsOf (some (fields (tokenFields symbol token label ++ [number token.totalSupply]))) =
      tokenFields symbol token label ++ [number token.totalSupply] :=
    splitAll_fields _ _ absent (decimal_ne_nil _) (number_plain _).bar
  rw [tokenLine, loadLine_tagLine state 'T' _ (by decide)]
  show loadToken state (partsOf _) = _
  rw [parts]
  have begins : symbol.isEmpty = false := by simpa using filled.symbol
  have owned : token.bare.owner.isEmpty = false := by simpa [Token.bare] using filled.owner
  have many : 15 ≤ (tokenFields symbol token label ++ [number token.totalSupply]).length := by
    simp [tokenFields]
  have first : (tokenFields symbol token label ++ [number token.totalSupply]).getD 0 [] = symbol := rfl
  unfold loadToken
  dsimp only
  rw [if_pos many, currentForm_fields filled.name, first]
  simp [ensure, orThrow, begins, owned, bind, Except.bind, pure, Except.pure, TokenState.put, tokenFields]

theorem loadLine_balance (state : TokenState) (user : Bytes) (amount : UInt64)
    (named : symbol ≠ []) (plain : bar ∉ symbol) (some : user ≠ []) (absent : bar ∉ user) :
    loadLine state (tagLine 'B' [symbol, user, number amount]) =
      .ok (state.change symbol (fun token => token.setBalance user amount)) := by
  have read := readFields_fields [symbol, user] (number amount) (by simp [plain, absent])
    (number_plain amount).newline
  have back : stoull (number amount) = .some amount := stoull_decimal amount
  rw [loadLine_tagLine state 'B' _ (by decide)]
  show loadBalance state _ = _
  unfold loadBalance
  rw [show readFields 2 (.some (fields [symbol, user, number amount])) = [symbol, user, number amount]
    from read]
  simp [ensure, named, some, back, orThrow, bind, Except.bind, pure, Except.pure]

/-- The line of a wallet in one of the two sets. -/
theorem loadWallet_fields (state : TokenState) (wallet : Bytes) (message : String)
    (changed : Bytes → Token → Token) (named : symbol ≠ []) (plain : bar ∉ symbol)
    (some : wallet ≠ []) (whole : OneLine wallet) :
    loadWallet state (.some (fields [symbol, wallet])) message changed =
      .ok (state.change symbol (changed wallet)) := by
  have read := readFields_fields [symbol] wallet (by simp [plain]) whole
  unfold loadWallet
  rw [show readFields 1 (.some (fields [symbol, wallet])) = [symbol, wallet] from read]
  simp [ensure, named, some, bind, Except.bind, pure, Except.pure]

theorem loadLine_blacklist (state : TokenState) (wallet : Bytes) (named : symbol ≠ [])
    (plain : bar ∉ symbol) (some : wallet ≠ []) (whole : OneLine wallet) :
    loadLine state (tagLine 'X' [symbol, wallet]) = .ok (state.change symbol (Token.block wallet)) := by
  rw [loadLine_tagLine state 'X' _ (by decide)]
  exact loadWallet_fields state wallet "invalid blacklist line" Token.block named plain some whole

theorem loadLine_feeExempt (state : TokenState) (wallet : Bytes) (named : symbol ≠ [])
    (plain : bar ∉ symbol) (some : wallet ≠ []) (whole : OneLine wallet) :
    loadLine state (tagLine 'E' [symbol, wallet]) = .ok (state.change symbol (Token.exempt wallet)) := by
  rw [loadLine_tagLine state 'E' _ (by decide)]
  exact loadWallet_fields state wallet "invalid fee exempt line" Token.exempt named plain some whole

theorem setBalance_foldl (token : Token) (entries : List (Bytes × UInt64)) :
    entries.foldl (fun token balance => token.setBalance balance.1 balance.2) token =
      { token with balances := putAll token.balances entries } := by
  induction entries generalizing token with
  | nil => rfl
  | cons entry rest ih =>
    rw [List.foldl_cons, ih]
    rfl

theorem block_foldl (token : Token) (wallets : List Bytes) :
    wallets.foldl (fun token wallet => Token.block wallet token) token =
      { token with blacklist := token.blacklist ∪ wallets.toFinset } := by
  rw [← insertAll]
  induction wallets generalizing token with
  | nil => rfl
  | cons wallet rest ih =>
    rw [List.foldl_cons, ih]
    rfl

theorem exempt_foldl (token : Token) (wallets : List Bytes) :
    wallets.foldl (fun token wallet => Token.exempt wallet token) token =
      { token with feeExempt := token.feeExempt ∪ wallets.toFinset } := by
  rw [← insertAll]
  induction wallets generalizing token with
  | nil => rfl
  | cons wallet rest ih =>
    rw [List.foldl_cons, ih]
    rfl

/-- A token that is put together from the lines of a dump. -/
def rebuilt (order : DumpOrder) (entry : Bytes × Token) : Token :=
  { entry.2 with balances := putAll ∅ (order.balances entry.1) }

/-- The lines of a token bring it back. -/
theorem load_tokenLines (state whole : TokenState) (order : DumpOrder)
    (filled : TokenSpelled (· ≠ []) (fun _ => True) (· ≠ []) symbol token (whole.label symbol))
    (plain : TokenSpelled PlainField PlainField OneLine symbol token (whole.label symbol))
    (balances : Lists (order.balances symbol) token.balances)
    (blacklist : ListsSet (order.blacklist symbol) token.blacklist)
    (feeExempt : ListsSet (order.feeExempt symbol) token.feeExempt) :
    readLines loadLine state (tokenLines whole order (symbol, token)) =
      .ok (state.put symbol (rebuilt order (symbol, token)) (whole.label symbol)) := by
  have balanceLines : readLines loadLine (state.put symbol token.bare (whole.label symbol))
      ((order.balances symbol).map (fun balance => tagLine 'B' [symbol, balance.1, number balance.2])) =
      .ok (state.put symbol { token.bare with balances := putAll ∅ (order.balances symbol) }
        (whole.label symbol)) := by
    rw [readLines_items loadLine _ (fun state (balance : Bytes × UInt64) =>
      state.change symbol (fun token => token.setBalance balance.1 balance.2)), put_foldl]
    · rw [setBalance_foldl]
      rfl
    · intro state balance member
      have found := (balances.entries balance.1 balance.2).mp member
      exact loadLine_balance state balance.1 balance.2 filled.symbol plain.symbol.bar
        (filled.balances _ _ found) (plain.balances _ _ found).bar
  have walletLines : ∀ (tag : Char) (changed : Bytes → Token → Token) (order : List Bytes)
      (before after : Token), order.foldl (fun token wallet => changed wallet token) before = after →
      (∀ state, ∀ wallet ∈ order, loadLine state (tagLine tag [symbol, wallet]) =
        .ok (state.change symbol (changed wallet))) →
      readLines loadLine (state.put symbol before (whole.label symbol))
        (order.map (fun wallet => tagLine tag [symbol, wallet])) =
          .ok (state.put symbol after (whole.label symbol)) := by
    intro tag changed order before after same each
    rw [readLines_items loadLine _ (fun state wallet => state.change symbol (changed wallet)) order _
      each, put_foldl, same]
  have blocked := walletLines 'X' Token.block (order.blacklist symbol)
    { token.bare with balances := putAll ∅ (order.balances symbol) }
    { token.bare with balances := putAll ∅ (order.balances symbol), blacklist := token.blacklist }
    (by rw [block_foldl, blacklist.toFinset]; simp [Token.bare])
    (fun state wallet member => loadLine_blacklist state wallet filled.symbol plain.symbol.bar
      (filled.blacklist _ ((blacklist.members _).mp member))
      (plain.blacklist _ ((blacklist.members _).mp member)))
  have exempted := walletLines 'E' Token.exempt (order.feeExempt symbol)
    { token.bare with balances := putAll ∅ (order.balances symbol), blacklist := token.blacklist }
    (rebuilt order (symbol, token))
    (by rw [exempt_foldl, feeExempt.toFinset]; simp [Token.bare, rebuilt])
    (fun state wallet member => loadLine_feeExempt state wallet filled.symbol plain.symbol.bar
      (filled.feeExempt _ ((feeExempt.members _).mp member))
      (plain.feeExempt _ ((feeExempt.members _).mp member)))
  unfold tokenLines
  rw [readLines_cons, loadLine_tokenLine state filled plain]
  show readLines loadLine (state.put symbol token.bare (whole.label symbol)) _ = _
  rw [readLines_append, balanceLines]
  show readLines loadLine (state.put symbol _ (whole.label symbol)) _ = _
  rw [readLines_append, blocked]
  exact exempted

end TokenBlock

/-! ### Lines of a collection -/

/-- A collection in its place. -/
def TokenState.setAssets (state : TokenState) (collection : Bytes) (assets : Table Bytes NftAsset) :
    TokenState := { state with nfts := state.nfts.insert collection assets }

theorem loadLine_nft (state : TokenState) (collection id : Bytes) (nft : NftAsset)
    (some : collection ≠ [] ∧ id ≠ [] ∧ nft.owner ≠ [])
    (plain : bar ∉ collection ∧ bar ∉ id ∧ bar ∉ nft.owner) (whole : OneLine nft.metadata) :
    loadLine state (tagLine 'N' [collection, id, nft.owner, nft.metadata]) =
      .ok (state.setNft collection id nft) := by
  have read := readFields_fields [collection, id, nft.owner] nft.metadata (by simp [plain]) whole
  rw [loadLine_tagLine state 'N' _ (by decide)]
  show loadNft state _ = _
  unfold loadNft
  rw [show readFields 3 (.some (fields [collection, id, nft.owner, nft.metadata])) =
    [collection, id, nft.owner, nft.metadata] from read]
  simp [ensure, some, bind, Except.bind, pure, Except.pure]

theorem setNft_foldl (state : TokenState) (collection : Bytes) (assets : Table Bytes NftAsset)
    (entries : List (Bytes × NftAsset)) :
    entries.foldl (fun state entry => state.setNft collection entry.1 entry.2)
      (state.setAssets collection assets) = state.setAssets collection (putAll assets entries) := by
  induction entries generalizing assets with
  | nil => rfl
  | cons entry rest ih =>
    have first : (state.setAssets collection assets).setNft collection entry.1 entry.2 =
        state.setAssets collection (assets.insert entry.1 entry.2) := by
      simp only [TokenState.setNft, TokenState.setAssets, TokenState.assets, lookup_insert, ↓reduceIte,
        Option.getD_some, AList.insert_insert]
    rw [List.foldl_cons, first, ih, putAll_cons]

/-- The lines of a collection bring it back. -/
theorem load_collectionLines (state : TokenState) (order : DumpOrder) (collection : Bytes)
    (filled : order.assets collection ≠ [])
    (each : ∀ id nft, (id, nft) ∈ order.assets collection → ∀ state : TokenState,
      loadLine state (tagLine 'N' [collection, id, nft.owner, nft.metadata]) =
        .ok (state.setNft collection id nft)) (assets : Table Bytes NftAsset) :
    readLines loadLine state (collectionLines order (collection, assets)) =
      .ok (state.setAssets collection (putAll (state.assets collection) (order.assets collection))) := by
  rw [collectionLines, readLines_items loadLine _
    (fun state (entry : Bytes × NftAsset) => state.setNft collection entry.1 entry.2) _ _
    (fun state entry member => each entry.1 entry.2 member state)]
  obtain ⟨first, rest, shape⟩ := List.exists_cons_of_ne_nil filled
  rw [shape, List.foldl_cons, putAll_cons]
  exact congrArg Except.ok (setNft_foldl state collection _ rest)

/-! ### Lines of a pool -/

/-- A pool in its place. -/
def TokenState.setPool (state : TokenState) (key : Bytes) (pool : Pool) : TokenState :=
  { state with engine := state.engine.setPool key pool }

variable {t0 t1 : Bytes}

/-- Pools of an ordered pair have a key. -/
theorem poolKey_ne_nil (ordered : orderedPair t0 t1 = some (t0, t1)) :
    poolKey t0 t1 ≠ [] := by
  simp [poolKey, ordered, ascii]

/-- The names of a pair have neither a bar nor an end of a line. -/
theorem ordered_plain (ordered : orderedPair t0 t1 = some (t0, t1)) :
    PlainField t0 ∧ PlainField t1 := by
  have plain : ∀ name, tokenNameOk name = true → PlainField name := by
    intro name ok
    refine ⟨tokenNameOk_bar name ok, fun member => ?_⟩
    simp only [tokenNameOk, Bool.and_eq_true, List.all_eq_true] at ok
    exact absurd (ok.2 newline member) (by decide)
  unfold orderedPair at ordered
  split at ordered
  · simp at ordered
  · rename_i passes
    simp only [Bool.or_eq_true, Bool.not_eq_true', not_or, Bool.not_eq_false] at passes
    exact ⟨plain _ passes.1.1, plain _ passes.1.2⟩

section PoolBlock

variable {pool : Pool}

theorem loadLine_pool (state : TokenState)
    (ordered : orderedPair pool.token0 pool.token1 = some (pool.token0, pool.token1)) :
    loadLine state (tagLine 'P' (poolFields pool ++ [number pool.lpTotalSupply])) =
      .ok (state.setPool (poolKey pool.token0 pool.token1) { pool with lpBalances := ∅ }) := by
  obtain ⟨plain0, plain1⟩ := ordered_plain ordered
  have absent : ∀ text ∈ poolFields pool, bar ∉ text := by
    simp only [poolFields, List.forall_mem_cons, List.not_mem_nil, false_implies, implies_true,
      and_true]
    exact ⟨plain0.bar, plain1.bar, (number_plain _).bar, (number_plain _).bar, (number_plain _).bar⟩
  have parts : partsOf (some (fields (poolFields pool ++ [number pool.lpTotalSupply]))) =
      poolFields pool ++ [number pool.lpTotalSupply] :=
    splitAll_fields _ _ absent (decimal_ne_nil _) (number_plain _).bar
  have key := poolKey_ne_nil ordered
  rw [loadLine_tagLine state 'P' _ (by decide)]
  show loadPool state (partsOf _) = _
  rw [parts]
  simp [loadPool, poolFields, parseU64Field_number, orRefuse, ensure, key, bind, Except.bind, pure,
    Except.pure, TokenState.setPool]

theorem loadLine_share (state : TokenState)
    (ordered : orderedPair pool.token0 pool.token1 = some (pool.token0, pool.token1))
    (before : Pool) (user : Bytes) (amount : UInt64) (some : user ≠ []) (absent : bar ∉ user) :
    loadLine (state.setPool (poolKey pool.token0 pool.token1) before)
      (tagLine 'L' [pool.token0, pool.token1, user, number amount]) =
      .ok (state.setPool (poolKey pool.token0 pool.token1)
        (before.setShare user amount)) := by
  obtain ⟨plain0, plain1⟩ := ordered_plain ordered
  have parts : partsOf (.some (fields [pool.token0, pool.token1, user, number amount])) =
      [pool.token0, pool.token1, user, number amount] :=
    splitAll_fields [pool.token0, pool.token1, user] (number amount)
      (by simp [plain0.bar, plain1.bar, absent]) (decimal_ne_nil _) (number_plain _).bar
  have key := poolKey_ne_nil ordered
  have there : (state.setPool (poolKey pool.token0 pool.token1) before).engine.pools.lookup
      (poolKey pool.token0 pool.token1) = .some before := by
    simp [TokenState.setPool, TokenEngine.setPool]
  have read : ∀ state : TokenState,
      state.engine.pools.lookup (poolKey pool.token0 pool.token1) = .some before →
      loadShare state [pool.token0, pool.token1, user, number amount] =
        .ok (state.setPool (poolKey pool.token0 pool.token1)
          (before.setShare user amount)) := by
    intro state found
    have current : state.engine.pool (poolKey pool.token0 pool.token1) = before := by
      rw [TokenEngine.pool, found, Option.getD_some]
    simp [loadShare, current, parseU64Field_number, orRefuse, ensure, key, some, bind, Except.bind,
      pure, Except.pure, TokenState.setPool]
  rw [loadLine_tagLine _ 'L' _ (by decide)]
  show loadShare _ (partsOf _) = _
  rw [parts, read _ there]
  simp [TokenState.setPool, TokenEngine.setPool, AList.insert_insert]

/-- A pool that is put together from the lines of a dump. -/
def rebuiltPool (order : DumpOrder) (entry : Bytes × Pool) : Pool :=
  { entry.2 with lpBalances := putAll ∅ (order.shares entry.1) }

/-- The lines of a pool bring it back. -/
theorem load_poolLines (state : TokenState) (order : DumpOrder) (key : Bytes)
    (ordered : orderedPair pool.token0 pool.token1 = some (pool.token0, pool.token1))
    (named : key = poolKey pool.token0 pool.token1)
    (plain : ∀ user amount, (user, amount) ∈ order.shares key → user ≠ [] ∧ bar ∉ user) :
    readLines loadLine state (poolLines order (key, pool)) =
      .ok (state.setPool key (rebuiltPool order (key, pool))) := by
  subst named
  have shares : ∀ (entries : List (Bytes × UInt64)) (before : Pool),
      (∀ user amount, (user, amount) ∈ entries → user ≠ [] ∧ bar ∉ user) →
      readLines loadLine (state.setPool (poolKey pool.token0 pool.token1) before)
        (entries.map (fun share => tagLine 'L' [pool.token0, pool.token1, share.1, number share.2])) =
      .ok (state.setPool (poolKey pool.token0 pool.token1)
        { before with lpBalances := putAll before.lpBalances entries }) := by
    intro entries
    induction entries with
    | nil => exact fun before _ => rfl
    | cons entry rest ih =>
      intro before plain
      obtain ⟨some, absent⟩ := plain entry.1 entry.2 (List.mem_cons_self ..)
      rw [List.map_cons, readLines_cons, loadLine_share state ordered before _ _ some absent]
      exact ih _ (fun user amount member =>
        plain user amount (List.mem_cons_of_mem _ member))
  rw [poolLines, readLines_cons, loadLine_pool state ordered]
  exact shares (order.shares (poolKey pool.token0 pool.token1)) _ plain

end PoolBlock

/-! ### The whole dump -/

section Whole

variable {state : TokenState} {order : DumpOrder}

/-- What the lines of the tokens leave. -/
theorem tokens_foldl (start : TokenState) (items : List (Bytes × Token)) :
    items.foldl (fun left entry => left.put entry.1 (rebuilt order entry) (state.label entry.1)) start =
      { start with
        engine := { start.engine with
          tokens := putAll start.engine.tokens (items.map (fun entry => (entry.1, rebuilt order entry))) }
        labels := putAll start.labels (items.map (fun entry => (entry.1, state.label entry.1))) } := by
  induction items generalizing start with
  | nil => rfl
  | cons entry rest ih =>
    rw [List.foldl_cons, ih]
    rfl

/-- What the lines of the collections leave, where each comes once. -/
theorem nfts_foldl (start : TokenState) (items : List (Bytes × Table Bytes NftAsset))
    (distinct : (items.map Prod.fst).Nodup)
    (absent : ∀ entry ∈ items, start.nfts.lookup entry.1 = none) :
    items.foldl (fun left entry => left.setAssets entry.1
      (putAll (left.assets entry.1) (order.assets entry.1))) start =
      { start with
        nfts := putAll start.nfts
          (items.map (fun entry => (entry.1, putAll ∅ (order.assets entry.1)))) } := by
  induction items generalizing start with
  | nil => rfl
  | cons entry rest ih =>
    obtain ⟨once, others⟩ := List.nodup_cons.mp distinct
    have fresh : start.assets entry.1 = ∅ := by
      rw [TokenState.assets, absent entry (List.mem_cons_self ..), Option.getD_none]
    rw [List.foldl_cons, fresh, ih _ others]
    · rfl
    · intro other member
      show (start.nfts.insert entry.1 _).lookup other.1 = none
      rw [lookup_insert, if_neg]
      · exact absent other (List.mem_cons_of_mem _ member)
      · rintro same
        exact once (List.mem_map.mpr ⟨other, member, same⟩)

/-- What the lines of the pools leave. -/
theorem pools_foldl (start : TokenState) (items : List (Bytes × Pool)) :
    items.foldl (fun left entry => left.setPool entry.1 (rebuiltPool order entry)) start =
      { start with
        engine := { start.engine with
          pools := putAll start.engine.pools
            (items.map (fun entry => (entry.1, rebuiltPool order entry))) } } := by
  induction items generalizing start with
  | nil => rfl
  | cons entry rest ih =>
    rw [List.foldl_cons, ih]
    rfl

/-- The state that a dump leaves. -/
def reloaded (state : TokenState) (order : DumpOrder) : TokenState where
  engine := {
    tokens := putAll ∅ (order.tokens.map (fun entry => (entry.1, rebuilt order entry)))
    pools := putAll ∅ (order.pools.map (fun entry => (entry.1, rebuiltPool order entry))) }
  labels := putAll ∅ (order.tokens.map (fun entry => (entry.1, state.label entry.1)))
  nfts := putAll ∅ (order.nfts.map (fun entry => (entry.1, putAll ∅ (order.assets entry.1))))

/-- No line of a dump has an end inside. -/
theorem dumpLines_whole (formed : Formed state) (plain : PlainState state) (listed : order.Of state) :
    ∀ text ∈ dumpLines state order, newline ∉ text := by
  intro text member
  simp only [dumpLines, List.mem_append, List.mem_flatMap] at member
  obtain ⟨⟨symbol, token⟩, inside, member⟩ | ⟨⟨collection, assets⟩, inside, member⟩ |
    ⟨⟨key, pool⟩, inside, member⟩ := member
  · have spelled := plain.tokens symbol token ((listed.tokens.entries _ _).mp inside)
    simp only [tokenLines, List.mem_cons, List.mem_append, List.mem_map] at member
    obtain rfl | ⟨balance, there, rfl⟩ | ⟨wallet, there, rfl⟩ | ⟨wallet, there, rfl⟩ := member
    · refine tagLine_whole _ _ (by decide) ?_
      simp only [tokenFields, List.cons_append, List.nil_append, List.forall_mem_cons,
        List.not_mem_nil, false_implies, implies_true, and_true]
      exact ⟨spelled.symbol.newline, spelled.name.newline, spelled.owner.newline,
        (plain_decimal _).newline, (flag_plain _).newline, spelled.devWallet.newline,
        (number_plain _).newline, spelled.treasuryWallet.newline, (number_plain _).newline,
        (number_plain _).newline, (flag_plain _).newline, (number_plain _).newline,
        (number_plain _).newline, (number_plain _).newline, (number_plain _).newline⟩
    · have found := ((listed.balances symbol token inside).entries _ _).mp there
      refine tagLine_whole _ _ (by decide) ?_
      simpa using ⟨spelled.symbol.newline, (spelled.balances _ _ found).newline,
        (number_plain balance.2).newline⟩
    · refine tagLine_whole _ _ (by decide) ?_
      simpa using ⟨spelled.symbol.newline,
        spelled.blacklist _ (((listed.blacklist symbol token inside).members _).mp there)⟩
    · refine tagLine_whole _ _ (by decide) ?_
      simpa using ⟨spelled.symbol.newline,
        spelled.feeExempt _ (((listed.feeExempt symbol token inside).members _).mp there)⟩
  · obtain ⟨named, each⟩ := plain.nfts collection assets ((listed.nfts.entries _ _).mp inside)
    simp only [collectionLines, List.mem_map] at member
    obtain ⟨asset, there, rfl⟩ := member
    obtain ⟨id, owner, metadata⟩ :=
      each _ _ (((listed.assets collection assets inside).entries _ _).mp there)
    refine tagLine_whole _ _ (by decide) ?_
    simpa using ⟨named.newline, id.newline, owner.newline, metadata⟩
  · have found := (listed.pools.entries _ _).mp inside
    obtain ⟨plain0, plain1⟩ := ordered_plain (formed.ordered key pool found)
    simp only [poolLines, List.mem_cons, List.mem_map] at member
    obtain rfl | ⟨share, there, rfl⟩ := member
    · refine tagLine_whole _ _ (by decide) ?_
      simpa [poolFields] using ⟨plain0.newline, plain1.newline, (number_plain pool.reserve0).newline,
        (number_plain pool.reserve1).newline, (number_plain pool.feeBps).newline,
        (number_plain pool.lpTotalSupply).newline⟩
    · have holder := plain.pools key pool found _ _
        (((listed.shares key pool inside).entries _ _).mp there)
      refine tagLine_whole _ _ (by decide) ?_
      simpa using ⟨plain0.newline, plain1.newline, holder.newline, (number_plain share.2).newline⟩

/-- A dump of a plain state is read back. -/
theorem loadState_dumpState (formed : Formed state) (plain : PlainState state)
    (listed : order.Of state) : loadState (dumpState state order) = .ok (reloaded state order) := by
  have tokens : ∀ start, ∀ entry ∈ order.tokens,
      readLines loadLine start (tokenLines state order entry) =
        .ok (start.put entry.1 (rebuilt order entry) (state.label entry.1)) := by
    rintro start ⟨symbol, token⟩ member
    have found := (listed.tokens.entries symbol token).mp member
    exact load_tokenLines start state order (formed.filled.tokens symbol token found)
      (plain.tokens symbol token found) (listed.balances symbol token member)
      (listed.blacklist symbol token member) (listed.feeExempt symbol token member)
  have nfts : ∀ start, ∀ entry ∈ order.nfts,
      readLines loadLine start (collectionLines order entry) =
        .ok (start.setAssets entry.1 (putAll (start.assets entry.1) (order.assets entry.1))) := by
    rintro start ⟨collection, assets⟩ member
    have found := (listed.nfts.entries collection assets).mp member
    have assetsListed := listed.assets collection assets member
    obtain ⟨id, nft, there⟩ := formed.collections collection assets found
    obtain ⟨named, filled⟩ := formed.filled.nfts collection assets found
    obtain ⟨namedPlain, plainly⟩ := plain.nfts collection assets found
    refine load_collectionLines start order collection ?_ ?_ assets
    · intro none
      have inside := (assetsListed.entries id nft).mpr there
      rw [none] at inside
      exact List.not_mem_nil inside
    · intro id nft inside left
      have asset := (assetsListed.entries id nft).mp inside
      obtain ⟨idFilled, ownerFilled, _⟩ := filled id nft asset
      obtain ⟨idPlain, ownerPlain, metadata⟩ := plainly id nft asset
      exact loadLine_nft left collection id nft ⟨named, idFilled, ownerFilled⟩
        ⟨namedPlain.bar, idPlain.bar, ownerPlain.bar⟩ metadata
  have pools : ∀ start, ∀ entry ∈ order.pools,
      readLines loadLine start (poolLines order entry) =
        .ok (start.setPool entry.1 (rebuiltPool order entry)) := by
    rintro start ⟨key, pool⟩ member
    have found := (listed.pools.entries key pool).mp member
    refine load_poolLines start order key (formed.ordered key pool found) (formed.named key pool found)
      ?_
    intro user amount inside
    have share := ((listed.shares key pool member).entries user amount).mp inside
    exact ⟨formed.filled.pools key pool found user amount share,
      (plain.pools key pool found user amount share).bar⟩
  rw [loadState, dumpState, splitLines_lines _ (dumpLines_whole formed plain listed), dumpLines,
    readLines_append, readLines_groups loadLine _ _ _ _ tokens, tokens_foldl]
  simp only [bind, Except.bind]
  rw [readLines_append, readLines_groups loadLine _ _ _ _ nfts, nfts_foldl]
  · simp only [bind, Except.bind]
    rw [readLines_groups loadLine _ _ _ _ pools, pools_foldl]
    rfl
  · exact listed.nfts.distinct
  · intro entry _
    simp [TokenState.initial]

/-- What was read back is the same. -/
theorem same_reloaded (listed : order.Of state) : Same state (reloaded state order) := by
  refine ⟨fun symbol => ?_, fun symbol token found => ?_, fun collection => ?_, fun key => ?_⟩
  · show Option.Rel SameToken _ ((putAll ∅ _).lookup symbol)
    rw [listed.tokens.lookup_map (rebuilt order) symbol]
    cases found : state.engine.tokens.lookup symbol with
    | none => exact .none
    | some token =>
      refine .some ⟨rfl, fun user => ?_⟩
      exact (listed.balances symbol token ((listed.tokens.entries _ _).mpr found)).lookup user
  · rw [TokenState.label]
    show ((putAll ∅ _).lookup symbol).getD _ = _
    rw [listed.tokens.lookup_map (fun entry => state.label entry.1) symbol, found]
    rfl
  · show Option.Rel _ _ ((putAll ∅ _).lookup collection)
    rw [listed.nfts.lookup_map (fun entry => putAll ∅ (order.assets entry.1)) collection]
    cases found : state.nfts.lookup collection with
    | none => exact .none
    | some assets =>
      refine .some fun id => ?_
      exact (listed.assets collection assets ((listed.nfts.entries _ _).mpr found)).lookup id
  · show Option.Rel SamePool _ ((putAll ∅ _).lookup key)
    rw [listed.pools.lookup_map (rebuiltPool order) key]
    cases found : state.engine.pools.lookup key with
    | none => exact .none
    | some pool =>
      refine .some ⟨rfl, fun user => ?_⟩
      exact (listed.shares key pool ((listed.pools.entries _ _).mpr found)).lookup user

end Whole

end Tokens

end Addition
