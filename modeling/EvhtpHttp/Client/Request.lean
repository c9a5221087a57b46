import EvhtpHttp.Client.Libevent

/-!
# Client requests

`src/clt/clt.c`: one TCP connection and the HTTP requests made on it one after
the other.  The owner is told what happens through a callback; every function
that may call it takes the callback and the owner's state as arguments and
returns the new state of both.  A result `none` means that the process died on
a `NULL` pointer.

The memory of libevhtp is explicit.  All the requests ever made on a connection
are kept in one list, a pointer to a request is an index into it, and each
entry says whether its hooks are still registered and how often it was freed.
-/

namespace EvhtpHttp.Client

/-- `clt_notify_cmd_t`. -/
inductive CltNotifyCmd
  | none
  | connected
  | connectError
  | requestStart
  | requestDoneOk
  | requestDoneError
  | requestTimeout
  | connClosing
  | connDestroying
  | reqDestroying
deriving Repr, DecidableEq

/-- `clt_notify_cb`, for an owner with state `σ`. -/
abbrev CltNotifyCb (σ : Type) := CltNotifyCmd → ℤ → σ → Option σ

def bevEventTimeout : ℕ := 0x40

/-! ## libevhtp objects -/

/-- `evhtp_request_t *`: an index into the requests of the connection. -/
abbrev ReqPtr := ℕ

/-- The part of `evhtp_request_t` the client uses.  `hooks` tells whether the
six hooks set by `clt_req_create` are registered, `freed` how often the request
was released. -/
structure EvhtpRequest where
  headersOut : List (String × String)
  uri : String
  hooks : Bool
  freed : ℕ
deriving Repr, DecidableEq

/-- The part of `evhtp_connection_t` the client uses.  `finiHook` tells whether
the hook `evhtp_hook_on_connection_fini` is registered. -/
structure EvhtpConnection where
  addr : String
  port : ℤ
  finiHook : Bool
  request : Option ReqPtr
deriving Repr, DecidableEq

/-- The two orders in which `evhtp_connection_free` may release the request of
the connection and run the connection's own hook. -/
inductive FreeOrder
  | requestFirst
  | connectionFirst
deriving Repr, DecidableEq

/-- The messages `clt.c` prints when something goes wrong. -/
inductive CltMessage
  | reqNotNull
  | connIsNull
  | strdupFailed
  | requestNewFailed
  | differentReq
deriving Repr, DecidableEq

/-- `struct client_req`, with the requests made for it, how often a request was
used after it was freed, and the messages printed. -/
structure ClientReq where
  con : Option EvhtpConnection
  req : Option ReqPtr
  evTimeout : EventPtr
  hostIp : String
  hostHdr : String
  port : ℤ
  uri : Option String
  isKeepalive : ℤ
  requests : List EvhtpRequest
  staleUses : ℕ
  messages : List CltMessage
deriving Repr, DecidableEq

namespace ClientReq

/-- Was the request freed?  An index that was never allocated counts as freed. -/
def isFreed (r : ClientReq) (q : ReqPtr) : Bool :=
  match r.requests[q]? with
  | some x => decide (0 < x.freed)
  | none => true

/-- Are the hooks of the request registered? -/
def hooked (r : ClientReq) (q : ReqPtr) : Bool :=
  match r.requests[q]? with
  | some x => x.hooks
  | none => false

/-- Memory of the request is read or written. -/
def use (q : ReqPtr) (r : ClientReq) : ClientReq :=
  if r.isFreed q then { r with staleUses := r.staleUses + 1 } else r

/-- The request's memory is released. -/
def release (q : ReqPtr) (r : ClientReq) : ClientReq :=
  { r with requests := r.requests.modify q fun x => { x with freed := x.freed + 1 } }

end ClientReq

/-- `evhtp_unset_all_hooks` on the hooks of a request. -/
def evhtpUnsetAllHooks (q : ReqPtr) (r : ClientReq) : ClientReq :=
  { r.use q with requests := r.requests.modify q fun x => { x with hooks := false } }

/-! ## Notifications and the request timer -/

section Callback

variable {σ : Type} (cb : CltNotifyCb σ)

/-- `clt_call_notify`; the callback of a connection is never `NULL`. -/
def cltCallNotify (ct : CltNotifyCmd) (data : ℤ) (s : σ) : Option σ :=
  cb ct data s

def cltConnTimeoutRearm (r : ClientReq) : Option ClientReq := do
  let ev ← eventAdd r.evTimeout
  return { r with evTimeout := ev }

def cltConnTimeoutStop (r : ClientReq) : Option ClientReq := do
  let ev ← eventDel r.evTimeout
  return { r with evTimeout := ev }

/-! ## Teardown -/

/-- `clt_req_destroy`.  The hooks are gone when the request is freed, so
`evhtp_request_free` calls nothing back. -/
def cltReqDestroy (r : ClientReq) (s : σ) : Option (ClientReq × σ) := do
  let s ← cltCallNotify cb .reqDestroying 0 s
  let r := match r.req with
    | some q => { (evhtpUnsetAllHooks q r).release q with req := none }
    | none => r
  return ({ r with uri := none }, s)

/-- `clt_upstream_conn_fini`: the connection is being freed by libevhtp. -/
def cltUpstreamConnFini (r : ClientReq) (s : σ) : Option (ClientReq × σ) := do
  let r := match r.req with
    | some q => evhtpUnsetAllHooks q r
    | none => r
  let r := { r with con := none, req := none }
  let r ← cltConnTimeoutRearm r
  let s ← cltCallNotify cb .connClosing 0 s
  return (r, s)

/-- `clt_upstream_error`: called upon a socket error. -/
def cltUpstreamError (errtype : ℕ) (r : ClientReq) (s : σ) :
    Option (ClientReq × σ) := do
  let s ←
    if errtype &&& bevEventTimeout ≠ 0 then
      cltCallNotify cb .requestTimeout 0 s
    else
      cltCallNotify cb .requestDoneError 0 s
  let r ← cltConnTimeoutStop r
  return (r, s)

/-- `clt_upstream_fini`: the request is being freed by libevhtp. -/
def cltUpstreamFini (r : ClientReq) (s : σ) : Option (ClientReq × σ) := do
  let q ← r.req
  let r := evhtpUnsetAllHooks q r
  let r ← cltConnTimeoutStop r
  cltReqDestroy cb { r with req := none } s

/-- `evhtp_request_free`: the hook for the end of the request is called if it
is registered. -/
def evhtpRequestFree (q : ReqPtr) (r : ClientReq) (s : σ) :
    Option (ClientReq × σ) := do
  let (r, s) ← if r.hooked q then cltUpstreamFini cb r s else some (r, s)
  return (r.release q, s)

/-- The part of `evhtp_connection_free` that frees the request in progress. -/
def evhtpFreeConnRequest (con : EvhtpConnection) (r : ClientReq) (s : σ) :
    Option (ClientReq × σ) :=
  match con.request with
  | some q => evhtpRequestFree cb q r s
  | none => some (r, s)

/-- The part of `evhtp_connection_free` that calls the connection's hook. -/
def evhtpConnFiniHook (con : EvhtpConnection) (r : ClientReq) (s : σ) :
    Option (ClientReq × σ) :=
  if con.finiHook then cltUpstreamConnFini cb r s else some (r, s)

/-- `evhtp_connection_free` on the connection of `r`. -/
def evhtpConnectionFree (order : FreeOrder) (r : ClientReq) (s : σ) :
    Option (ClientReq × σ) :=
  match r.con with
  | none => some (r, s)
  | some con =>
    match order with
    | .requestFirst => do
      let (r, s) ← evhtpFreeConnRequest cb con r s
      evhtpConnFiniHook cb con r s
    | .connectionFirst => do
      let (r, s) ← evhtpConnFiniHook cb con r s
      evhtpFreeConnRequest cb con r s

/-- `clt_conn_destroy`: the request as it is just before its memory is
released, and the owner's state. -/
def cltConnDestroy (order : FreeOrder) (r : ClientReq) (s : σ) :
    Option (ClientReq × σ) := do
  let r := match r.req with
    | some q => evhtpUnsetAllHooks q r
    | none => r
  let (r, s) ←
    match r.con, r.req with
    | some con, some q =>
      if con.request = some q then some (r, s)
      else evhtpRequestFree cb q { r with messages := r.messages ++ [.differentReq] } s
    | none, some q => evhtpRequestFree cb q r s
    | _, none => some (r, s)
  let (r, s) ← evhtpConnectionFree cb order r s
  match r.evTimeout with
  | none => return (r, s)
  | some _ =>
    let ev ← eventDel r.evTimeout
    let ev ← eventFree ev
    return ({ r with evTimeout := ev }, s)

/-! ## Completion, timeout and incoming data -/

/-- `clt_req_cb`: the response of request `q` is complete. -/
def cltReqCb (q : ReqPtr) (status : ℤ) (r : ClientReq) (s : σ) :
    Option (ClientReq × σ) := do
  let r := r.use q
  let s ← cltCallNotify cb .requestDoneOk status s
  let r ← cltConnTimeoutStop r
  let p ← r.req
  let r := evhtpUnsetAllHooks p r
  let con ← r.con
  cltReqDestroy cb { r with con := some { con with request := none } } s

/-- `clt_conn_timeout`: the client's own timer has expired. -/
def cltConnTimeout (s : σ) : Option σ :=
  cltCallNotify cb .requestTimeout 0 s

end Callback

/-- The hooks libevhtp calls while a response arrives. -/
inductive DataHook
  | headersStart
  | newChunk
  | chunkDone
  | chunksDone
deriving Repr, DecidableEq

/-- `clt_upstream_headers_start`, `clt_upstream_new_chunk`,
`clt_upstream_chunk_done` and `clt_upstream_chunks_done`.  The two hooks for one
chunk look at the buffers of the request, and all of them restart the timer. -/
def cltUpstreamData (hook : DataHook) (r : ClientReq) : Option ClientReq :=
  match hook with
  | .headersStart => cltConnTimeoutRearm r
  | .chunksDone => cltConnTimeoutRearm r
  | .newChunk => do
    let q ← r.req
    cltConnTimeoutRearm (r.use q)
  | .chunkDone => do
    let q ← r.req
    cltConnTimeoutRearm (r.use q)

/-! ## Creating a connection and a request -/

/-- The allocations made for one connection. -/
inductive Block
  | mgrConn
  | clientReq
  | hostIp
  | hostHdr
  | evhtpConn
  | evTimeout
  | evNewHttpReq
  | evConnDestroy
deriving Repr, DecidableEq

/-- The allocation and release of one block. -/
inductive MemOp
  | alloc (b : Block)
  | free (b : Block)
deriving Repr, DecidableEq

/-- The outcome of every allocation of one attempt to make a connection. -/
abbrev AllocOk := Block → Bool

/-- Every allocation succeeds. -/
def allocAll : AllocOk := fun _ => true

/-- The memory operation of an allocation that may fail. -/
def allocOp (ok : AllocOk) (b : Block) : List MemOp :=
  if ok b then [.alloc b] else []

/-- `clt_conn_create`: the new connection, if there is one, and the memory
operations on the way.  The `Host` header is copied from `host_ip`. -/
def cltConnCreate (ok : AllocOk) (hostIp _hostHdr : String) (port : ℤ) :
    Option ClientReq × List MemOp :=
  if !ok .clientReq then (none, [])
  else if !ok .hostIp then
    (none, [.alloc .clientReq, .free .clientReq])
  else if !ok .hostHdr then
    (none, [.alloc .clientReq, .alloc .hostIp, .free .hostIp, .free .clientReq])
  else if !ok .evhtpConn then
    (none, [.alloc .clientReq, .alloc .hostIp, .alloc .hostHdr,
      .free .hostIp, .free .hostHdr, .free .clientReq])
  else
    (some
      { con := some { addr := hostIp, port := port, finiHook := true, request := none }
        req := none
        evTimeout := eventNew (ok .evTimeout)
        hostIp := hostIp
        hostHdr := hostIp
        port := port
        uri := none
        isKeepalive := 0
        requests := []
        staleUses := 0
        messages := [] },
     [.alloc .clientReq, .alloc .hostIp, .alloc .hostHdr, .alloc .evhtpConn] ++
       allocOp ok .evTimeout)

/-- The headers `clt_req_create` adds to a request. -/
def reqHeaders (hostHdr : String) (keepalive : ℤ) : List (String × String) :=
  [("Host", hostHdr), ("User-Agent", "client"),
    ("Connection", if keepalive ≠ 0 then "keep-alive" else "close")]

/-- `clt_req_create`: the request and the return code.  `strdupOk` and `newOk`
are the outcomes of the two allocations; `strdup(NULL)` kills the process. -/
def cltReqCreate (strdupOk newOk : Bool) (uri : Option String) (keepalive : ℤ)
    (r : ClientReq) : Option (ClientReq × ℤ) :=
  match r.req, r.con, uri with
  | some _, _, _ =>
    some ({ r with messages := r.messages ++ [.reqNotNull] }, -1)
  | none, none, _ =>
    some ({ r with messages := r.messages ++ [.connIsNull] }, -1)
  | none, some _, none => none
  | none, some con, some uri =>
    if !strdupOk then
      some ({ r with uri := none, messages := r.messages ++ [.strdupFailed] }, -1)
    else if !newOk then
      some ({ r with uri := some uri, messages := r.messages ++ [.requestNewFailed] }, -1)
    else
      let q := r.requests.length
      let request : EvhtpRequest :=
        { headersOut := reqHeaders r.hostHdr keepalive
          uri := uri
          hooks := true
          freed := 0 }
      some
        ({ r with
            uri := some uri
            req := some q
            isKeepalive := keepalive
            requests := r.requests ++ [request]
            con := some { con with request := some q } }, 0)

end EvhtpHttp.Client
