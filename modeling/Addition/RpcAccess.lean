import Addition.Foundations.StreamWords

/-!
# Requests to the public port

What arrives at the public port is a line of text or an HTTP request: a path with a query, or a body in
JSON. Whatever its form, a command is taken out of it, and the first word of the command decides
whether it is run. The parsers are written by hand; a text is read from its front, which is what the
positions of the source denote.

The commands themselves are an argument. What is recorded besides a reply are the calls of
`handle_command`, each with its line and whether it is trusted.
-/

namespace Addition

namespace Rpc

open ByteStrings StreamWords TextLines

/-! ### The commands -/

/-- The commands that `is_public_read_command` knows. -/
def publicReadCommands : List Bytes :=
  [ascii "getinfo", ascii "monetary_info", ascii "crypto_selftest", ascii "tx_status", ascii "peers",
    ascii "getblock", ascii "getblockhash", ascii "getblockraw"]

/-- `is_public_read_command`. -/
def isPublicReadCommand (cmd : Bytes) : Bool := decide (cmd ∈ publicReadCommands)

/-- `is_remote_allowed_command`. -/
def isRemoteAllowedCommand (cmd : Bytes) : Bool :=
  isPublicReadCommand cmd || decide (cmd ∈
    [ascii "protocol_status", ascii "fee_info", ascii "node_pubkey", ascii "getbalance",
      ascii "getbalance_instant", ascii "staked", ascii "stake_claimable", ascii "token_balance",
      ascii "token_info", ascii "swap_quote", ascii "swap_pool_info", ascii "swap_quote_route",
      ascii "swap_best_route", ascii "nft_owner", ascii "nft_info", ascii "swap_tvl",
      ascii "privacy_status", ascii "bridge_balance", ascii "bridge_attestor",
      ascii "pouw_storage_deal_status", ascii "pouw_storage_worker_status",
      ascii "pouw_compute_job_status", ascii "pouw_compute_worker_status", ascii "pm_inbox",
      ascii "pm_status", ascii "pm_fetch", ascii "verify_message", ascii "ai_status"])

/-- `first_command_token`, and how `handle_command` reads the name of its command. -/
def firstCommandToken (line : Bytes) : Bytes := wordOr line []

/-! ### HTTP -/

/-- `is_http_rpc_request`. -/
def isHttpRpcRequest (raw : Bytes) : Bool :=
  (ascii "GET ").isPrefixOf raw || (ascii "POST ").isPrefixOf raw ||
    (ascii "OPTIONS ").isPrefixOf raw || (ascii "HEAD ").isPrefixOf raw

/-- `hex_value`. -/
def hexValue (octet : UInt8) : Option Nat :=
  if isDigit octet then some (octet.toNat - 48)
  else if 97 ≤ octet.toNat ∧ octet.toNat ≤ 102 then some (octet.toNat - 87)
  else if 65 ≤ octet.toNat ∧ octet.toNat ≤ 70 then some (octet.toNat - 55)
  else none

/-- The octet of two digits. -/
def hexPair (high low : UInt8) : Option UInt8 := do
  let upper ← hexValue high
  let lower ← hexValue low
  return UInt8.ofNat (16 * upper + lower)

/-- `url_decode`. -/
def urlDecode : Bytes → Bytes
  | [] => []
  | octet :: rest =>
    if octet = byte '+' then byte ' ' :: urlDecode rest
    else if octet = byte '%' then
      match rest with
      | high :: low :: tail =>
        match hexPair high low with
        | some decoded => decoded :: urlDecode tail
        | none => octet :: urlDecode (high :: low :: tail)
      | short => octet :: urlDecode short
    else octet :: urlDecode rest

/-- `query_param`. -/
def queryParam (query key : Bytes) : Bytes :=
  let named := fun part => decide (urlDecode (cutAt (byte '=') part).1 = key)
  match (splitAll (byte '&') query).find? named with
  | none => []
  | some part => ((cutAt (byte '=') part).2.map urlDecode).getD []

/-- The first line of a request. -/
structure RequestLine where
  method : Bytes
  path : Bytes
  query : Bytes

/-- `request_path_query`. -/
def requestPathQuery (raw : Bytes) : Option RequestLine := do
  let (method, rest) ← word raw
  let (target, rest) ← word rest
  let _ ← word rest
  return ⟨method, (cutAt (byte '?') target).1, (cutAt (byte '?') target).2.getD []⟩

/-- What follows the first occurrence of a text. -/
def behind (part : Bytes) : Bytes → Option Bytes
  | [] => if part.isEmpty then some [] else none
  | octet :: rest =>
    if part.isPrefixOf (octet :: rest) then some ((octet :: rest).drop part.length) else behind part rest

/-- `http_body`. -/
def httpBody (raw : Bytes) : Bytes :=
  match behind [13, 10, 13, 10] raw with
  | some body => body
  | none => (behind [10, 10] raw).getD []

/-- An octet that is taken off the end of a command. -/
def trails (octet : UInt8) : Bool := octet == 10 || octet == 13 || octet == 32

/-- `parse_http_rpc_command`. A request without an answer of its own gives the empty command. -/
def parseHttpRpcCommand (raw : Bytes) : Except String Bytes :=
  match requestPathQuery raw with
  | none => .error "malformed request line"
  | some request =>
    if request.method = ascii "OPTIONS" ∨ request.method = ascii "HEAD" then .ok []
    else if request.path ≠ ascii "/rpc" ∧ request.path ≠ ascii "/rpc/" then .error "not an RPC path"
    else
      let asked := queryParam request.query (ascii "cmd")
      let cmd :=
        if asked.isEmpty ∧ request.method = ascii "POST" then ((httpBody raw).reverse.dropWhile trails).reverse else asked
      if cmd.isEmpty then .error "missing cmd" else .ok cmd

/-- The reason of a status. -/
def reasonOf (status : Nat) : Bytes :=
  match status with
  | 200 => ascii "OK"
  | 204 => ascii "No Content"
  | 400 => ascii "Bad Request"
  | 403 => ascii "Forbidden"
  | 404 => ascii "Not Found"
  | 405 => ascii "Method Not Allowed"
  | _ => ascii "Error"

/-- The end of a line of HTTP. -/
def crlf : Bytes := [13, 10]

/-- `http_rpc_response` with a type of content. -/
def typedResponse (status : Nat) (body contentType : Bytes) : Bytes :=
  ascii "HTTP/1.1 " ++ decimal status ++ ascii " " ++ reasonOf status ++ crlf ++
    ascii "Content-Type: " ++ contentType ++ crlf ++
    ascii "Content-Length: " ++ decimal body.length ++ crlf ++
    ascii "Access-Control-Allow-Origin: *" ++ crlf ++
    ascii "Access-Control-Allow-Methods: GET, OPTIONS" ++ crlf ++
    ascii "Access-Control-Allow-Headers: Content-Type" ++ crlf ++
    ascii "Cache-Control: no-store" ++ crlf ++
    ascii "Connection: close" ++ crlf ++ crlf ++ body

/-- `http_rpc_response`. -/
def httpRpcResponse (status : Nat) (body : Bytes) : Bytes :=
  typedResponse status body (ascii "text/plain; charset=utf-8")

/-- A response in JSON. -/
def jsonResponse (body : Bytes) : Bytes := typedResponse 200 body (ascii "application/json")

/-! ### JSON -/

/-- What `json_escape` makes of an octet. -/
def escapeOctet (octet : UInt8) : Bytes :=
  if octet = 34 then [92, 34]
  else if octet = 92 then [92, 92]
  else if octet = 10 then [92, byte 'n']
  else if octet = 13 then [92, byte 'r']
  else if octet = 9 then [92, byte 't']
  else if octet < 32 then
    [92, byte 'u', byte '0', byte '0', hexDigit (octet.toNat / 16), hexDigit (octet.toNat % 16)]
  else [octet]

/-- `json_escape`. -/
def jsonEscape (text : Bytes) : Bytes := text.flatMap escapeOctet

/-- A text between quotation marks. -/
def quoted (text : Bytes) : Bytes := 34 :: jsonEscape text ++ [34]

/-- `jsonrpc_result_body`. -/
def jsonrpcResultBody (id result : Bytes) : Bytes :=
  ascii "\x7b\"jsonrpc\":\"2.0\",\"id\":" ++ id ++ ascii ",\"result\":" ++ quoted result ++ ascii "\x7d"

/-- `jsonrpc_error_body`. All codes are negative; the number is given without its sign. -/
def jsonrpcErrorBody (id : Bytes) (code : Nat) (message : Bytes) : Bytes :=
  ascii "\x7b\"jsonrpc\":\"2.0\",\"id\":" ++ id ++ ascii ",\"error\":\x7b\"code\":-" ++ decimal code ++
    ascii ",\"message\":" ++ quoted message ++ ascii "\x7d\x7d"

/-- White space of JSON. -/
def isJsonSpace (octet : UInt8) : Bool := octet == 32 || octet == 9 || octet == 10 || octet == 13

/-- `skip_ws`. -/
def skipWs (text : Bytes) : Bytes := text.dropWhile isJsonSpace

/-- What an escape stands for. -/
def unescape (octet : UInt8) : Option UInt8 :=
  if octet = 34 ∨ octet = 92 ∨ octet = byte '/' then some octet
  else if octet = byte 'n' then some 10
  else if octet = byte 'r' then some 13
  else if octet = byte 't' then some 9
  else none

/-- The rest of a string, behind its first quotation mark. -/
def readString : Bytes → Option (Bytes × Bytes)
  | [] => none
  | octet :: rest =>
    if octet = 34 then some ([], rest)
    else if octet = 92 then
      match rest with
      | [] => none
      | escape :: tail =>
        match unescape escape with
        | none => none
        | some meant => (readString tail).map (fun (text, left) => (meant :: text, left))
    else (readString rest).map (fun (text, left) => (octet :: text, left))

/-- `parse_json_string`. -/
def parseJsonString (text : Bytes) : Option (Bytes × Bytes) :=
  match skipWs text with
  | [] => none
  | octet :: rest => if octet = 34 then readString rest else none

/-- The digits of a number behind its sign. -/
def signedDigits (sign text : Bytes) : Option (Bytes × Bytes) :=
  if (text.takeWhile isDigit).isEmpty then none
  else some (sign ++ text.takeWhile isDigit, text.dropWhile isDigit)

/-- `parse_json_number_token`. -/
def parseJsonNumberToken (text : Bytes) : Option (Bytes × Bytes) :=
  match skipWs text with
  | [] => none
  | octet :: rest =>
    if octet = byte '-' then signedDigits [octet] rest else signedDigits [] (octet :: rest)

/-! #### What is read is taken off the text -/

theorem skipWs_length (text : Bytes) : (skipWs text).length ≤ text.length :=
  (List.dropWhile_suffix _).length_le

variable {left text value : Bytes}

theorem readString_length (read : readString text = some (value, left)) :
    left.length < text.length := by
  fun_induction readString text generalizing value left with
  | case1 => exact absurd read (by simp)
  | case2 rest =>
    obtain ⟨rfl, rfl⟩ : [] = value ∧ rest = left := by simpa using read
    exact Nat.lt_succ_self _
  | case3 => exact absurd read (by simp)
  | case4 => exact absurd read (by simp)
  | case5 escape tail meant known other ih =>
    obtain ⟨⟨text, left'⟩, inner, same⟩ := Option.map_eq_some_iff.mp read
    obtain ⟨-, rfl⟩ := Prod.mk.inj same
    have shorter := ih inner
    simp only [List.length_cons]
    omega
  | case6 octet rest ends escapes ih =>
    obtain ⟨⟨text, left'⟩, inner, same⟩ := Option.map_eq_some_iff.mp read
    obtain ⟨-, rfl⟩ := Prod.mk.inj same
    have shorter := ih inner
    simp only [List.length_cons]
    omega

theorem parseJsonString_length
    (read : parseJsonString text = some (value, left)) : left.length < text.length := by
  have skipped := skipWs_length text
  unfold parseJsonString at read
  split at read
  · exact absurd read (by simp)
  · rename_i octet rest same
    split at read
    · have shorter := readString_length read
      rw [same, List.length_cons] at skipped
      omega
    · exact absurd read (by simp)

theorem signedDigits_length {sign : Bytes}
    (read : signedDigits sign text = some (value, left)) : left.length < text.length := by
  unfold signedDigits at read
  split at read
  · exact absurd read (by simp)
  · rename_i some'
    obtain ⟨-, rfl⟩ : _ ∧ text.dropWhile isDigit = left := by simpa using read
    have whole := congrArg List.length (List.takeWhile_append_dropWhile (p := isDigit) (l := text))
    rw [List.length_append] at whole
    have positive := List.length_pos_iff.mpr fun none' => some' (List.isEmpty_iff.mpr none')
    omega

theorem parseJsonNumberToken_length
    (read : parseJsonNumberToken text = some (value, left)) : left.length < text.length := by
  have skipped := skipWs_length text
  unfold parseJsonNumberToken at read
  split at read
  · exact absurd read (by simp)
  · rename_i octet rest same
    rw [same, List.length_cons] at skipped
    split at read
    · have shorter := signedDigits_length read
      omega
    · have shorter := signedDigits_length read
      rw [List.length_cons] at shorter
      omega

/-! #### A request -/

/-- The entry of the parameters at the front of a text. -/
def element (text : Bytes) : Except String (Bytes × Bytes) :=
  match skipWs text with
  | [] => .error "truncated params"
  | octet :: _ =>
    if octet = 34 then
      match parseJsonString text with
      | some read => .ok read
      | none => .error "invalid params string"
    else
      match parseJsonNumberToken text with
      | some read => .ok read
      | none => .error "params entries must be strings or integers"

theorem element_length (read : element text = .ok (value, left)) :
    left.length < text.length := by
  unfold element at read
  split at read
  · exact absurd read (by simp)
  split at read
  · split at read
    · rename_i found same
      obtain rfl := Except.ok.inj read
      exact parseJsonString_length same
    · exact absurd read (by simp)
  · split at read
    · rename_i found same
      obtain rfl := Except.ok.inj read
      exact parseJsonNumberToken_length same
    · exact absurd read (by simp)

/-- What follows an entry and its mark is shorter. -/
theorem element_behind {behind : Bytes} {mark : UInt8}
    (read : element text = .ok (value, left)) (marked : skipWs left = mark :: behind) :
    behind.length < text.length := by
  have shorter := element_length read
  have skipped := skipWs_length left
  rw [marked, List.length_cons] at skipped
  omega

/-- The parameters behind the opening bracket, after some that were read. -/
def elements (params : List Bytes) (text : Bytes) : Except String (List Bytes × Bytes) :=
  match text with
  | [] => .error "unterminated params array"
  | octet :: rest =>
    if octet = byte ']' then .ok (params, rest)
    else
      match _read : element (octet :: rest) with
      | .error refusal => .error refusal
      | .ok (value, left) =>
        match _same : skipWs left with
        | [] => .error "invalid params array"
        | mark :: behind =>
          if mark = byte ',' then elements (params ++ [value]) behind
          else if mark = byte ']' then .ok (params ++ [value], behind)
          else .error "invalid params array"
termination_by text.length
decreasing_by exact element_behind _read _same

/-- What was read of a request. -/
structure JsonRequest where
  method : Bytes
  params : List Bytes
  id : Bytes
  jsonrpc : Bytes
  haveMethod : Bool

/-- The request before its first member. -/
def JsonRequest.empty : JsonRequest := ⟨[], [], ascii "null", [], false⟩

/-- The value of a field. -/
def field (request : JsonRequest) (key text : Bytes) : Except String (JsonRequest × Bytes) :=
  if key = ascii "jsonrpc" then
    match parseJsonString text with
    | some (value, left) => .ok ({ request with jsonrpc := value }, left)
    | none => .error "jsonrpc must be a string"
  else if key = ascii "method" then
    match parseJsonString text with
    | some (value, left) => .ok ({ request with method := value, haveMethod := true }, left)
    | none => .error "method must be a string"
  else if key = ascii "id" then
    if text.head? = some 34 then
      match parseJsonString text with
      | some (value, left) => .ok ({ request with id := quoted value }, left)
      | none => .error "invalid id string"
    else if (ascii "null").isPrefixOf text then .ok ({ request with id := ascii "null" }, text.drop 4)
    else
      match parseJsonNumberToken text with
      | some (value, left) => .ok ({ request with id := value }, left)
      | none => .error "id must be string, number, or null"
  else if key = ascii "params" then
    match text with
    | [] => .error "params must be a positional array"
    | octet :: rest =>
      if octet = byte '[' then
        (elements request.params (skipWs rest)).map fun (params, left) =>
          ({ request with params := params }, left)
      else .error "params must be a positional array"
  else .error "unknown JSON-RPC field"

theorem elements_length {params found : List Bytes}
    (read : elements params text = .ok (found, left)) : left.length ≤ text.length := by
  fun_induction elements params text with
  | case1 => exact absurd read (by simp)
  | case2 params rest =>
    obtain ⟨-, rfl⟩ : params = found ∧ rest = left := by simpa using read
    exact Nat.le_succ _
  | case3 => exact absurd read (by simp)
  | case4 => exact absurd read (by simp)
  | case5 params octet rest other value unread entry behind mark ih =>
    have shorter := element_behind entry mark
    exact (ih read).trans shorter.le
  | case6 params octet rest other value unread entry behind mark =>
    obtain ⟨-, rfl⟩ := Prod.mk.inj (Except.ok.inj read)
    exact (element_behind entry mark).le
  | case7 => exact absurd read (by simp)

theorem field_length {request read : JsonRequest} {key : Bytes}
    (fields : field request key text = .ok (read, left)) : left.length ≤ text.length := by
  unfold field at fields
  split at fields
  · split at fields
    · rename_i parsed
      obtain ⟨-, rfl⟩ := Prod.mk.inj (Except.ok.inj fields)
      exact (parseJsonString_length parsed).le
    · exact absurd fields (by simp)
  split at fields
  · split at fields
    · rename_i parsed
      obtain ⟨-, rfl⟩ := Prod.mk.inj (Except.ok.inj fields)
      exact (parseJsonString_length parsed).le
    · exact absurd fields (by simp)
  split at fields
  · split at fields
    · split at fields
      · rename_i parsed
        obtain ⟨-, rfl⟩ := Prod.mk.inj (Except.ok.inj fields)
        exact (parseJsonString_length parsed).le
      · exact absurd fields (by simp)
    split at fields
    · obtain ⟨-, rfl⟩ := Prod.mk.inj (Except.ok.inj fields)
      rw [List.length_drop]
      exact Nat.sub_le _ _
    · split at fields
      · rename_i parsed
        obtain ⟨-, rfl⟩ := Prod.mk.inj (Except.ok.inj fields)
        exact (parseJsonNumberToken_length parsed).le
      · exact absurd fields (by simp)
  split at fields
  · split at fields
    · exact absurd fields (by simp)
    · rename_i octet rest
      split at fields
      · cases read' : elements request.params (skipWs rest) with
        | error refusal =>
          rw [read'] at fields
          exact absurd fields (by simp [Except.map])
        | ok found =>
          rw [read'] at fields
          obtain ⟨-, rfl⟩ := Prod.mk.inj (Except.ok.inj fields)
          have taken := elements_length read'
          have skipped := skipWs_length rest
          rw [List.length_cons]
          omega
      · exact absurd fields (by simp)
  · exact absurd fields (by simp)

/-- The members of an object from one on, with what they were read to. The identifier goes along with a
refusal. -/
def members (request : JsonRequest) (text : Bytes) : Except (String × Bytes) JsonRequest :=
  match text with
  | [] => .ok request
  | octet :: rest =>
    if (skipWs (octet :: rest)).head? = some (byte '\x7d') then .ok request
    else
      match _key : parseJsonString (octet :: rest) with
      | none => .error ("invalid JSON key", request.id)
      | some (key, left) =>
        match _colon : skipWs left with
        | [] => .error ("expected ':'", request.id)
        | colon :: value =>
          if colon = byte ':' then
            if (skipWs value).isEmpty then .error ("truncated JSON-RPC object", request.id)
            else
              match _field : field request key (skipWs value) with
              | .error refusal => .error (refusal, request.id)
              | .ok (read, unread) =>
                match _mark : skipWs unread with
                | [] => .error ("invalid JSON-RPC object", read.id)
                | mark :: behind =>
                  if mark = byte ',' then members read behind
                  else if mark = byte '\x7d' then .ok read
                  else .error ("invalid JSON-RPC object", read.id)
          else .error ("expected ':'", request.id)
termination_by text.length
decreasing_by
  have named := parseJsonString_length _key
  have before := skipWs_length left
  have ahead := skipWs_length value
  have taken := field_length _field
  have after := skipWs_length unread
  rw [_colon, List.length_cons] at before
  rw [_mark, List.length_cons] at after
  omega

/-- `parse_jsonrpc_request`: the request, or a refusal with the identifier that was read. -/
def parseJsonrpcRequest (body : Bytes) : Except (String × Bytes) JsonRequest :=
  match skipWs body with
  | [] => .error ("JSON-RPC body must be an object", ascii "null")
  | octet :: rest =>
    if octet = byte '\x7b' then
      match members .empty rest with
      | .error refusal => .error refusal
      | .ok request =>
        if request.jsonrpc ≠ ascii "2.0" then .error ("jsonrpc must be 2.0", request.id)
        else if request.haveMethod = false ∨ request.method = [] then
          .error ("method must be a string", request.id)
        else .ok request
    else .error ("JSON-RPC body must be an object", ascii "null")

/-! ### Dispatching -/

/-- A reply, and the calls of `handle_command` that were made for it: the line and whether it is
trusted. -/
structure Served where
  reply : Bytes
  calls : List (Bytes × Bool)

/-- What `handle_command` replies to a line. -/
abbrev Handle := Bytes → Bool → Bytes

/-- A reply without a call. -/
def Served.plain (reply : Bytes) : Served := ⟨reply, []⟩

/-- A call, and what is made of its reply. -/
def Served.call (handle : Handle) (line : Bytes) (wrap : Bytes → Bytes) : Served :=
  ⟨wrap (handle line false), [(line, false)]⟩

/-- The reply is wrapped. -/
def Served.map (served : Served) (wrap : Bytes → Bytes) : Served := { served with reply := wrap served.reply }

/-- `join_text_command`. -/
def joinTextCommand (method : Bytes) (params : List Bytes) : Bytes :=
  method ++ params.flatMap (fun param => byte ' ' :: param)

/-- What is made of the reply to a JSON-RPC command. -/
def jsonrpcReply (id reply : Bytes) : Bytes :=
  if (ascii "error:").isPrefixOf reply then jsonrpcErrorBody id 32000 reply else jsonrpcResultBody id reply

/-- The octets that no parameter may have. -/
def breaksParam (octet : UInt8) : Bool := octet == 32 || octet == 10 || octet == 13

/-- `dispatch_public_jsonrpc`. -/
def dispatchPublicJsonrpc (handle : Handle) (method : Bytes) (params : List Bytes) (id : Bytes) : Served :=
  if method.contains 32 ∨ method.contains 10 then
    .plain (jsonrpcErrorBody id 32600 (ascii "method must be a single TEXT RPC command name"))
  else if isPublicReadCommand method = false then
    .plain (jsonrpcErrorBody id 32601 (ascii "error: command disabled on public RPC"))
  else if params.any (fun param => param.any breaksParam) then
    .plain (jsonrpcErrorBody id 32602 (ascii "params must be single TEXT RPC tokens"))
  else .call handle (joinTextCommand method params) (jsonrpcReply id)

/-- `split_query_params`. -/
def splitQueryParams (raw : Bytes) : List Bytes :=
  (splitAll (byte ',') raw).filter (fun part => !part.isEmpty)

/-- The identifier of a query: a number, or a text. -/
def queryId (asked : Bytes) : Bytes :=
  if asked.isEmpty then ascii "1" else if asked.all isDigit then asked else quoted asked

/-- A JSON-RPC request in a query. -/
def serveQuery (handle : Handle) (query : Bytes) : Served :=
  let method := queryParam query (ascii "method")
  let params := splitQueryParams (queryParam query (ascii "params"))
  let id := queryId (queryParam query (ascii "id"))
  let served : Served :=
    if method.isEmpty then .plain (jsonrpcErrorBody (ascii "null") 32600 (ascii "missing method"))
    else dispatchPublicJsonrpc handle method params id
  served.map jsonResponse

/-- A JSON-RPC request in a body. -/
def serveBody (handle : Handle) (body : Bytes) : Served :=
  let served : Served :=
    match parseJsonrpcRequest body with
    | .error (refusal, id) =>
      .plain (jsonrpcErrorBody (if id.isEmpty then ascii "null" else id) 32600 (ascii refusal))
    | .ok request => dispatchPublicJsonrpc handle request.method request.params request.id
  served.map jsonResponse

/-- A line of text, or a command taken out of a request. -/
def serveLine (handle : Handle) (line refused : Bytes) (wrap : Bytes → Bytes) : Served :=
  if isPublicReadCommand (firstCommandToken line) then .call handle line wrap else .plain refused

/-- A request that is neither for the banner nor in JSON. -/
def serveCommand (handle : Handle) (raw method : Bytes) : Served :=
  match parseHttpRpcCommand raw with
  | .error refusal =>
    if refusal = "not an RPC path" then
      .plain (httpRpcResponse 404 (ascii "error: use /rpc?cmd=getinfo or /jsonrpc?method=getinfo"))
    else .plain (httpRpcResponse 400 (ascii "error: " ++ ascii refusal))
  | .ok cmd =>
    if method = ascii "HEAD" then .plain (httpRpcResponse 200 [])
    else
      serveLine handle cmd (httpRpcResponse 403 (ascii "error: command disabled on public RPC"))
        (httpRpcResponse 200)

/-- `public_rpc_banner_text`. -/
def publicRpcBannerText (networkMode : Bytes) : Bytes := ascii "addition-public-rpc read-only " ++ networkMode

/-- An HTTP request. -/
def serveRequest (handle : Handle) (networkMode raw : Bytes) (request : RequestLine) : Served :=
  if request.method = ascii "OPTIONS" then .plain (httpRpcResponse 204 [])
  else if request.path = ascii "/" ∨ request.path = ascii "/health" then
    .plain (httpRpcResponse 200 (publicRpcBannerText networkMode))
  else if request.path = ascii "/jsonrpc" ∨ request.path = ascii "/jsonrpc/" then
    if request.method = ascii "HEAD" then .plain (jsonResponse [])
    else if request.method = ascii "GET" then serveQuery handle request.query
    else if request.method = ascii "POST" then serveBody handle (httpBody raw)
    else .plain (httpRpcResponse 405 (ascii "error: method not allowed"))
  else serveCommand handle raw request.method

/-- `dispatch_public_read_rpc`. -/
def dispatchPublicReadRpc (handle : Handle) (networkMode raw : Bytes) : Served :=
  if isHttpRpcRequest raw then
    match requestPathQuery raw with
    | none => .plain (httpRpcResponse 400 (ascii "error: malformed HTTP request"))
    | some request => serveRequest handle networkMode raw request
  else serveLine handle raw (ascii "error: command disabled on public RPC") id

end Rpc

end Addition
