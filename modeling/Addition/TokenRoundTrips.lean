import Addition.TokenStoring

/-!
# Dumps that come back

Whatever a dump was made of, what is loaded from it keeps to the form of its lines: no field but
the last of a line contains a bar, and none an end. So a state that comes back keeps to it, and a
formed state that keeps to it comes back. Every state that calls reach is formed.
-/

namespace Addition

namespace Tokens

open ByteStrings Checked FiniteTables TextLines Store

/-! ### What is loaded -/

/-- A loaded state, also with the labels of symbols without a token. -/
structure Clean (state : TokenState) : Prop where
  plain : PlainState state
  labels : ∀ symbol, PlainField (state.label symbol).name ∧ PlainField (state.label symbol).devWallet

theorem Clean.initial : Clean .initial := by
  refine ⟨⟨?_, ?_, ?_⟩, fun symbol => ⟨plain_nil, plain_nil⟩⟩
  · intro symbol token found
    simp [TokenState.initial, TokenEngine.initial] at found
  · intro key pool found
    simp [TokenState.initial, TokenEngine.initial] at found
  · intro collection assets found
    simp [TokenState.initial] at found

variable {label : Label} {symbol : Bytes} {state : TokenState}

/-- A token with nothing in it. -/
theorem empty_plain (named : PlainField symbol)
    (name : PlainField label.name) (devWallet : PlainField label.devWallet) :
    TokenSpelled PlainField PlainField OneLine symbol .empty label :=
  ⟨named, name, plain_nil, devWallet, plain_nil, by simp [Token.empty], by simp [Token.empty],
    by simp [Token.empty]⟩

/-- The token at a symbol of the form. -/
theorem Clean.token (clean : Clean state)
    (named : PlainField symbol) : TokenSpelled PlainField PlainField OneLine symbol
      (state.engine.token symbol) (state.label symbol) := by
  unfold TokenEngine.token
  cases found : state.engine.tokens.lookup symbol with
  | none => exact empty_plain named (clean.labels symbol).1 (clean.labels symbol).2
  | some token => exact clean.plain.tokens symbol token found

theorem Clean.change (clean : Clean state) {changed : Token → Token}
    (spelled : TokenSpelled PlainField PlainField OneLine symbol (changed (state.engine.token symbol))
      (state.label symbol)) : Clean (state.change symbol changed) := by
  refine ⟨⟨fun tested token found => ?_, clean.plain.pools, clean.plain.nfts⟩, clean.labels⟩
  change (state.engine.tokens.insert symbol _).lookup tested = some token at found
  rw [lookup_insert] at found
  split at found
  · rename_i same
    obtain rfl := Option.some.inj found
    exact same ▸ spelled
  · exact clean.plain.tokens tested token found

theorem Clean.put (clean : Clean state) {token : Token}
    (spelled : TokenSpelled PlainField PlainField OneLine symbol token label) :
    Clean (state.put symbol token label) := by
  have labels : ∀ tested, (state.put symbol token label).label tested =
      if tested = symbol then label else state.label tested := by
    intro tested
    show ((state.labels.insert symbol label).lookup tested).getD .empty = _
    rw [lookup_insert]
    split <;> rfl
  refine ⟨⟨fun tested current found => ?_, clean.plain.pools, clean.plain.nfts⟩, fun tested => ?_⟩
  · change (state.engine.tokens.insert symbol token).lookup tested = some current at found
    rw [lookup_insert] at found
    rw [labels]
    split at found
    · rename_i same
      obtain rfl := Option.some.inj found
      rw [if_pos same, same]
      exact spelled
    · rename_i other
      rw [if_neg other]
      exact clean.plain.tokens tested current found
  · rw [labels]
    split
    · exact ⟨spelled.name, spelled.devWallet⟩
    · exact clean.labels tested

theorem Clean.setPool (clean : Clean state) (key : Bytes) {pool : Pool}
    (shares : ∀ holder amount, pool.lpBalances.lookup holder = some amount → PlainField holder) :
    Clean (state.setPool key pool) := by
  refine ⟨⟨clean.plain.tokens, fun tested current found => ?_, clean.plain.nfts⟩, clean.labels⟩
  change (state.engine.setPool key pool).pools.lookup tested = some current at found
  rw [lookup_setPool] at found
  split at found
  · obtain rfl := Option.some.inj found
    exact shares
  · exact clean.plain.pools tested current found

/-! ### One line -/

/-- A field up to a bar, in a stream without an end of a line. -/
theorem field_plain (stream : Option Bytes) (avoids : Avoids newline stream) :
    PlainField (getline bar stream []).1 ∧ Avoids newline (getline bar stream []).2.1 := by
  obtain ⟨whole, rest⟩ := getline_avoids bar newline stream [] avoids (by simp)
  exact ⟨⟨getline_absent bar stream [] (by simp), whole⟩, rest⟩

theorem partsOf_plain (stream : Option Bytes) (avoids : Avoids newline stream) (index : Nat) :
    PlainField ((partsOf stream).getD index []) := by
  rw [List.getD_eq_getElem?_getD]
  cases found : (partsOf stream)[index]? with
  | none => exact plain_nil
  | some part =>
    have member := List.mem_of_getElem? found
    cases stream with
    | none => simp [partsOf] at member
    | some text =>
      change part ∈ splitAll bar text at member
      exact ⟨splitAll_absent bar text part member,
        fun inside => avoids text rfl (splitAll_subset bar text part member newline inside)⟩

section Lines

variable {state left : TokenState}

/-- The token and label of a form whose fields are plain. -/
theorem forms_plain {part : Nat → Bytes} (plain : ∀ index, PlainField (part index)) (length : Nat)
    (token : Token) (label : Label)
    (read : (if 15 ≤ length then currentForm part
      else if 13 ≤ length then previousForm part else legacyForm part) = some (token, label)) :
    TokenSpelled PlainField PlainField OneLine (part 0) token label := by
  have shared : ∀ token label, sharedFields part = some (token, label) →
      TokenSpelled PlainField PlainField OneLine (part 0) token label := by
    intro token label read
    simp only [sharedFields, Option.bind_eq_bind, Option.bind_eq_some_iff, Option.pure_def,
      Option.some.injEq, Prod.mk.injEq] at read
    obtain ⟨_, _, _, _, _, _, _, _, rfl, rfl⟩ := read
    refine ⟨plain 0, ?_, plain 2, plain 5, plain 7, by simp [Token.empty], by simp [Token.empty],
      by simp [Token.empty]⟩
    dsimp only
    split
    · exact plain 0
    · exact plain 1
  split at read
  · simp only [currentForm, Option.bind_eq_bind, Option.bind_eq_some_iff, Option.pure_def,
      Option.some.injEq, Prod.mk.injEq] at read
    obtain ⟨⟨before, label'⟩, found, _, _, _, _, _, _, _, _, rfl, rfl⟩ := read
    have spelled := shared before label' found
    exact ⟨spelled.symbol, spelled.name, spelled.owner, spelled.devWallet, spelled.treasuryWallet,
      spelled.balances, spelled.blacklist, spelled.feeExempt⟩
  split at read
  · simp only [previousForm, Option.bind_eq_bind, Option.bind_eq_some_iff, Option.pure_def,
      Option.some.injEq, Prod.mk.injEq] at read
    obtain ⟨⟨before, label'⟩, found, _, _, _, _, rfl, rfl⟩ := read
    have spelled := shared before label' found
    exact ⟨spelled.symbol, spelled.name, spelled.owner, spelled.devWallet, spelled.treasuryWallet,
      spelled.balances, spelled.blacklist, spelled.feeExempt⟩
  · simp only [legacyForm, Option.bind_eq_bind, Option.bind_eq_some_iff, Option.pure_def,
      Option.some.injEq, Prod.mk.injEq] at read
    obtain ⟨_, _, _, _, rfl, rfl⟩ := read
    exact ⟨plain 0, plain 0, plain 1, plain_nil, plain_nil, by simp [Token.empty],
      by simp [Token.empty], by simp [Token.empty]⟩

theorem orThrow_ok {α : Type} (read : Option α) (value : α) :
    orThrow read = .ok value ↔ read = some value := by
  cases read <;> simp [orThrow]

theorem orRefuse_ok {α : Type} (read : Option α) (message : String) (value : α) :
    orRefuse read message = .ok value ↔ read = some value := by
  cases read <;> simp [orRefuse]

theorem loadToken_clean (clean : Clean state) {parts : List Bytes}
    (plain : ∀ index, PlainField (parts.getD index [])) (loaded : loadToken state parts = .ok left) :
    Clean left := by
  simp only [loadToken, bind_ok, exists_unit, ensure_ok, pure_ok, orThrow_ok] at loaded
  obtain ⟨_, ⟨token, label⟩, read, _, rfl⟩ := loaded
  exact clean.put (forms_plain plain _ token label read)

theorem loadBalance_clean (clean : Clean state) (stream : Option Bytes) (avoids : Avoids newline stream)
    (loaded : loadBalance state stream = .ok left) : Clean left := by
  obtain ⟨named, rest⟩ := field_plain stream avoids
  obtain ⟨held, _⟩ := field_plain _ rest
  simp only [loadBalance, readFields, bind_ok, exists_unit, ensure_ok, pure_ok, orThrow_ok] at loaded
  obtain ⟨_, amount, _, rfl⟩ := loaded
  have spelled := clean.token named
  exact clean.change (spelled.within ((Token.Within.refl _).setBalance held amount))

theorem loadWallet_clean (clean : Clean state) (stream : Option Bytes) (avoids : Avoids newline stream)
    (message : String) (changed : Bytes → Token → Token)
    (keeps : ∀ symbol token label wallet, OneLine wallet →
      TokenSpelled PlainField PlainField OneLine symbol token label →
        TokenSpelled PlainField PlainField OneLine symbol (changed wallet token) label)
    (loaded : loadWallet state stream message changed = .ok left) : Clean left := by
  obtain ⟨named, rest⟩ := field_plain stream avoids
  have whole := (getline_avoids newline newline _ [] rest (by simp)).1
  simp only [loadWallet, readFields, bind_ok, exists_unit, ensure_ok, pure_ok] at loaded
  obtain ⟨_, rfl⟩ := loaded
  exact clean.change (keeps _ _ _ _ whole (clean.token named))

theorem loadNft_clean (clean : Clean state) (stream : Option Bytes) (avoids : Avoids newline stream)
    (loaded : loadNft state stream = .ok left) : Clean left := by
  obtain ⟨collection, rest⟩ := field_plain stream avoids
  obtain ⟨id, rest'⟩ := field_plain _ rest
  obtain ⟨owner, rest''⟩ := field_plain _ rest'
  have whole := (getline_avoids newline newline _ [] rest'' (by simp)).1
  simp only [loadNft, readFields, bind_ok, exists_unit, ensure_ok, pure_ok] at loaded
  obtain ⟨_, rfl⟩ := loaded
  exact ⟨clean.plain.setNft collection ⟨id, owner, whole⟩, clean.labels⟩

theorem loadPool_clean (clean : Clean state) (parts : List Bytes)
    (loaded : loadPool state parts = .ok left) : Clean left := by
  unfold loadPool at loaded
  dsimp only at loaded
  split at loaded
  · simp at loaded
  · simp only [bind_ok, exists_unit, ensure_ok, pure_ok, orRefuse_ok] at loaded
    obtain ⟨_, _, _, _, _, _, _, _, _, rfl⟩ := loaded
    exact clean.setPool _ (by simp)

theorem loadShare_clean (clean : Clean state) (parts : List Bytes)
    (plain : ∀ index, PlainField (parts.getD index [])) (loaded : loadShare state parts = .ok left) :
    Clean left := by
  simp only [loadShare, bind_ok, exists_unit, ensure_ok, pure_ok, orRefuse_ok] at loaded
  obtain ⟨_, amount, _, _, rfl⟩ := loaded
  refine clean.setPool _ fun holder share stored => ?_
  rw [Pool.setShare, lookup_insert] at stored
  split at stored
  · rename_i same
    exact same ▸ plain 2
  · unfold TokenEngine.pool at stored
    cases found : state.engine.pools.lookup (poolKey (parts.getD 0 []) (parts.getD 1 [])) with
    | none => simp [found, Pool.empty] at stored
    | some pool =>
      rw [found, Option.getD_some] at stored
      exact clean.plain.pools _ pool found holder share stored

theorem loadLine_clean (clean : Clean state) {text : Bytes} (whole : newline ∉ text)
    (loaded : loadLine state text = .ok left) : Clean left := by
  have starts : Avoids newline (some text) := fun found same => Option.some.inj same ▸ whole
  obtain ⟨_, avoids⟩ := field_plain (some text) starts
  have parts := partsOf_plain _ avoids
  unfold loadLine at loaded
  split at loaded
  · exact Except.ok.inj loaded ▸ clean
  unfold loadTagged at loaded
  dsimp only at loaded
  split at loaded
  · exact loadToken_clean clean parts loaded
  split at loaded
  · exact loadBalance_clean clean _ avoids loaded
  split at loaded
  · exact loadNft_clean clean _ avoids loaded
  split at loaded
  · exact loadPool_clean clean _ loaded
  split at loaded
  · exact loadShare_clean clean _ parts loaded
  split at loaded
  · refine loadWallet_clean clean _ avoids _ _ (fun symbol token label wallet one before => ?_) loaded
    exact ⟨before.symbol, before.name, before.owner, before.devWallet, before.treasuryWallet,
      before.balances, listed_spelled true before.blacklist one, before.feeExempt⟩
  split at loaded
  · refine loadWallet_clean clean _ avoids _ _ (fun symbol token label wallet one before => ?_) loaded
    exact ⟨before.symbol, before.name, before.owner, before.devWallet, before.treasuryWallet,
      before.balances, before.blacklist, listed_spelled true before.feeExempt one⟩
  · exact Except.ok.inj loaded ▸ clean

end Lines

variable {loaded left : TokenState} {free rest user wallet : Bytes → Prop}

/-- Whatever a file says, what is loaded from it keeps to the form of its lines. -/
theorem loadState_clean {text : Bytes} (read : loadState text = .ok loaded) :
    Clean loaded :=
  readLines_keeps loadLine Clean (splitLines text)
    (fun _ _ line member clean done => loadLine_clean clean (splitLines_absent text line member) done)
    .initial loaded .initial read

/-! ### States that come back -/

/-- Every state can be written in some order. -/
theorem order_of (state : TokenState) : ∃ order : DumpOrder, order.Of state := by
  have sets : ∀ values : Finset Bytes, ListsSet values.toList values :=
    fun values => ⟨values.nodup_toList, fun value => Finset.mem_toList⟩
  have token : ∀ symbol token, (symbol, token) ∈
      state.engine.tokens.entries.map (fun entry => (entry.1, entry.2)) →
        state.engine.token symbol = token := by
    intro symbol token member
    rw [TokenEngine.token, ((lists_entries state.engine.tokens).entries symbol token).mp member,
      Option.getD_some]
  refine ⟨⟨_, fun symbol => (state.engine.token symbol).balances.entries.map (fun entry =>
      (entry.1, entry.2)), fun symbol => (state.engine.token symbol).blacklist.toList,
    fun symbol => (state.engine.token symbol).feeExempt.toList, _,
    fun collection => (state.assets collection).entries.map (fun entry => (entry.1, entry.2)), _,
    fun key => (state.engine.pool key).lpBalances.entries.map (fun entry => (entry.1, entry.2))⟩,
    lists_entries state.engine.tokens, ?_, ?_, ?_, lists_entries state.nfts, ?_,
    lists_entries state.engine.pools, ?_⟩
  · exact fun symbol found member => token symbol found member ▸ lists_entries _
  · exact fun symbol found member => token symbol found member ▸ sets _
  · exact fun symbol found member => token symbol found member ▸ sets _
  · intro collection assets member
    have found := ((lists_entries state.nfts).entries collection assets).mp member
    dsimp only
    rw [TokenState.assets, found, Option.getD_some]
    exact lists_entries assets
  · intro key pool member
    have found := ((lists_entries state.engine.pools).entries key pool).mp member
    dsimp only
    rw [TokenEngine.pool, found, Option.getD_some]
    exact lists_entries pool.lpBalances

/-- What is the same keeps to the same form. -/
theorem Same.plain (same : Same state loaded) (plain : PlainState loaded) :
    PlainState state := by
  refine ⟨fun symbol token found => ?_, fun key pool found holder amount share => ?_,
    fun collection assets found => ?_⟩
  · have related := same.tokens symbol
    rw [found] at related
    cases back : loaded.engine.tokens.lookup symbol with
    | none => rw [back] at related; cases related
    | some other =>
      rw [back] at related
      obtain ⟨rest, balances⟩ : SameToken token other := by cases related; assumption
      have spelled := plain.tokens symbol other back
      rw [same.labels symbol token found] at spelled
      obtain ⟨owner, -, treasury, -, -, -, -, -, -, -, -, blacklist, feeExempt⟩ := Token.mk.inj rest
      exact ⟨spelled.symbol, spelled.name, owner ▸ spelled.owner, spelled.devWallet,
        treasury ▸ spelled.treasuryWallet,
        fun holder amount held => spelled.balances holder amount ((balances holder).trans held),
        blacklist ▸ spelled.blacklist, feeExempt ▸ spelled.feeExempt⟩
  · have related := same.pools key
    rw [found] at related
    cases back : loaded.engine.pools.lookup key with
    | none => rw [back] at related; cases related
    | some other =>
      rw [back] at related
      obtain ⟨_, shares⟩ : SamePool pool other := by cases related; assumption
      exact plain.pools key other back holder amount ((shares holder).trans share)
  · have related := same.nfts collection
    rw [found] at related
    cases back : loaded.nfts.lookup collection with
    | none => rw [back] at related; cases related
    | some others =>
      rw [back] at related
      have lookups : ∀ id, others.lookup id = assets.lookup id := by cases related; assumption
      obtain ⟨named, each⟩ := plain.nfts collection others back
      exact ⟨named, fun id nft stored => each id nft ((lookups id).trans stored)⟩

/-- A formed state comes back exactly when none of its texts contains what delimits it. -/
theorem roundTrips_iff (formed : Formed state) :
    RoundTrips state ↔ PlainState state := by
  constructor
  · intro returns
    obtain ⟨order, listed⟩ := order_of state
    obtain ⟨loaded, read, same⟩ := returns order listed
    exact same.plain (loadState_clean read).plain
  · intro plain order listed
    exact ⟨reloaded state order, loadState_dumpState formed plain listed, same_reloaded listed⟩

/-! ### Runs -/

/-- What every call keeps, calls one after the other keep. -/
theorem performCalls_keeps (kept : TokenState → Prop) (calls : List Call)
    (each : ∀ state left, ∀ call ∈ calls, kept state → performCall state call = some left → kept left)
    (state left : TokenState) (start : kept state) (done : performCalls state calls = some left) :
    kept left := by
  induction calls generalizing state with
  | nil => exact Option.some.inj done ▸ start
  | cons call rest ih =>
    obtain ⟨next, first, later⟩ := Option.bind_eq_some_iff.mp done
    refine ih (fun state left other member => each state left other (by simp [member]))
      next ?_ later
    exact each state next call (by simp) start first

theorem performCall_lawful (lawful : Lawful state.engine) (call : Call)
    (done : performCall state call = some left) : Lawful left.engine := by
  cases call with
  | engine operation =>
    obtain ⟨engine, performed, rfl⟩ := Option.map_eq_some_iff.mp done
    exact lawful.perform operation engine performed
  | mintNft collection id owner metadata =>
    obtain rfl := Option.some.inj done
    unfold mintNft
    split
    · exact lawful
    split
    · exact lawful
    · exact lawful
  | transferNft collection id sender recipient =>
    obtain rfl := Option.some.inj done
    unfold transferNft
    repeat' split
    all_goals exact lawful

/-- No collection is empty. -/
def Collected (state : TokenState) : Prop :=
  ∀ collection assets, state.nfts.lookup collection = some assets →
    ∃ id nft, assets.lookup id = some nft

theorem Collected.setNft (collected : Collected state) (collection id : Bytes)
    (nft : NftAsset) : Collected (state.setNft collection id nft) := by
  intro tested assets found
  change (state.nfts.insert collection _).lookup tested = some assets at found
  rw [lookup_insert] at found
  split at found
  · obtain rfl := Option.some.inj found
    exact ⟨id, nft, by rw [lookup_insert, if_pos rfl]⟩
  · exact collected tested assets found

theorem performCall_collected (collected : Collected state) (call : Call)
    (done : performCall state call = some left) : Collected left := by
  cases call with
  | engine operation =>
    obtain ⟨engine, performed, rfl⟩ := Option.map_eq_some_iff.mp done
    exact collected
  | mintNft collection id owner metadata =>
    obtain rfl := Option.some.inj done
    unfold mintNft
    split
    · exact collected
    split
    · exact collected
    · exact collected.setNft collection id _
  | transferNft collection id sender recipient =>
    obtain rfl := Option.some.inj done
    unfold transferNft
    repeat' split
    all_goals first | exact collected | exact collected.setNft collection id _

/-- The states that calls reach. -/
def ReachableState (state : TokenState) : Prop :=
  ∃ calls, performCalls .initial calls = some state

theorem Spelled.initial : Spelled user free wallet rest .initial := by
  refine ⟨?_, ?_, ?_⟩
  · intro symbol token found
    simp [TokenState.initial, TokenEngine.initial] at found
  · intro key pool found
    simp [TokenState.initial, TokenEngine.initial] at found
  · intro collection assets found
    simp [TokenState.initial] at found

/-- What the texts of all calls satisfy, those of the states they reach satisfy. -/
theorem Spelled.run
    (named : ∀ text, free text → text ≠ [] → user text) (nothing : free []) (calls : List Call)
    (fits : ∀ call ∈ calls, call.Fits free wallet rest) (state : TokenState)
    (done : performCalls .initial calls = some state) : Spelled user free wallet rest state := by
  have both := performCalls_keeps (fun state => Lawful state.engine ∧ Spelled user free wallet rest state)
    calls (fun state left call member kept step => ⟨performCall_lawful kept.1 call step,
      kept.2.step named nothing kept.1 call (fits call member) step⟩)
    .initial state ⟨Lawful.initial, .initial⟩ done
  exact both.2

/-- Whatever calls say, the state they reach is formed. -/
theorem ReachableState.formed (reachable : ReachableState state) : Formed state := by
  obtain ⟨calls, done⟩ := reachable
  have lawful := performCalls_keeps (fun state => Lawful state.engine) calls
    (fun _ _ call _ kept step => performCall_lawful kept call step) .initial state Lawful.initial done
  have collected := performCalls_keeps Collected calls
    (fun _ _ call _ kept step => performCall_collected kept call step) .initial state
    (by intro collection assets found; simp [TokenState.initial] at found) done
  have filled : Spelled (· ≠ []) (fun _ => True) (· ≠ []) (fun _ => True) state :=
    Spelled.run (fun _ _ some => some) trivial calls
      (fun call _ => ⟨fun _ _ => trivial, fun _ _ some => some, fun _ _ => trivial⟩) state done
  exact ⟨filled, collected, fun key pool found => (lawful.pools key pool found).paired.ordered,
    fun key pool found => (lawful.pools key pool found).paired.named⟩

/-- A reachable state comes back exactly when its names, owners and users have neither a bar nor the
end of a line, and its listed wallets and metadata no end of a line; and the states of all runs do
whose calls say nothing else. -/
theorem dumps_exact (state : TokenState) :
    (ReachableState state → (RoundTrips state ↔ PlainState state)) ∧
      ∀ calls, (∀ call ∈ calls, call.Fits PlainField OneLine OneLine) →
        performCalls .initial calls = some state → RoundTrips state := by
  refine ⟨fun reachable => roundTrips_iff reachable.formed, fun calls fits done => ?_⟩
  have plain : PlainState state := Spelled.run (fun text whole _ => whole) plain_nil calls fits state done
  exact (roundTrips_iff (ReachableState.formed ⟨calls, done⟩)).mpr plain

/-- A token, a listed wallet with a bar, and a collectible whose metadata have one. -/
def plainCalls : List Call :=
  [.engine (.createTokenEx (ascii "A") (ascii "Token A") (ascii "owner") 1000 100 8 true (ascii "dev") 50),
    .engine (.transfer (ascii "A") (ascii "owner") (ascii "user") 30),
    .engine (.setBlacklist (ascii "A") (ascii "owner") (ascii "x|y") true),
    .mintNft (ascii "art") (ascii "1") (ascii "user") (ascii "a|b")]

set_option maxRecDepth 100000 in
/-- The state of plain calls comes back from its file. -/
theorem plainCalls_come_back : ∃ state, performCalls .initial plainCalls = some state ∧
    RoundTrips state := by
  have reached : (performCalls .initial plainCalls).isSome = true := by decide +kernel
  obtain ⟨state, done⟩ := Option.isSome_iff_exists.mp reached
  have fits : ∀ call ∈ plainCalls, call.Fits PlainField OneLine OneLine := by
    have parts : ∀ call ∈ plainCalls, (∀ text ∈ call.names, bar ∉ text ∧ newline ∉ text) ∧
        (∀ text ∈ call.wallets, newline ∉ text) ∧ ∀ text ∈ call.texts, newline ∉ text := by
      decide +kernel
    intro call member
    obtain ⟨names, wallets, texts⟩ := parts call member
    exact ⟨fun text inside => ⟨(names text inside).1, (names text inside).2⟩,
      fun text inside _ => wallets text inside, texts⟩
  exact ⟨state, done, (dumps_exact state).2 plainCalls fits done⟩

set_option maxRecDepth 100000 in
/-- A token whose name has a bar does not come back. -/
theorem barred_name_lost : ∃ calls state,
    (∀ call ∈ calls, ∀ text ∈ call.names ++ call.wallets ++ call.texts, text ≠ []) ∧
      performCalls .initial calls = some state ∧ ¬ RoundTrips state := by
  let calls : List Call :=
    [.engine (.createTokenEx (ascii "S") (ascii "a|b") (ascii "o") 1000 100 8 true (ascii "dev") 50)]
  have reading : (performCalls .initial calls).bind (fun state =>
      (state.engine.tokens.lookup (ascii "S")).map (fun _ => (state.label (ascii "S")).name)) =
      some (ascii "a|b") := by
    decide +kernel
  obtain ⟨state, done, rest⟩ := Option.bind_eq_some_iff.mp reading
  obtain ⟨token, found, name⟩ := Option.map_eq_some_iff.mp rest
  refine ⟨calls, state, by decide +kernel, done, fun returns => ?_⟩
  have plain := (roundTrips_iff (ReachableState.formed ⟨calls, done⟩)).mp returns
  have named := (plain.tokens _ token found).name
  rw [name] at named
  exact absurd named.bar (by decide)

end Tokens

end Addition
