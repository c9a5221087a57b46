import EvhtpHttp.Server.Req
import EvhtpHttp.Support.Transition

/-!
# Responses

`src/srv/http.c` on one keep-alive connection, from the request handlers
`linecb` and `sizecb` on, together with what it uses of libevhtp.  A result
`none` means that the process died on a `NULL` pointer or that the event cannot
be delivered.

The memory of the requests is explicit.  Every `struct req` ever made is a cell
of one list, a pointer to it is an index into that list, and a cell says how
often its memory and its buffer were freed.  A hook that runs with a `struct
req` that was freed finds what the memory held before.
-/

namespace EvhtpHttp.Server

open EvhtpHttp.Support

/-- `struct req *`: an index into the cells of the server. -/
abbrev ReqPtr := ℕ

/-- The memory of one `struct req`.  `freed` and `bufFreed` tell how often the
structure and its buffer were freed, `ended` how often its error or fini hook
has run. -/
structure Cell where
  req : Req
  freed : ℕ
  bufFreed : ℕ
  ended : ℕ
deriving Repr, DecidableEq

/-- The part of `evhtp_request_t` the server uses.  `hooks` is the argument of
the five hooks that `req_start_response` registers on a request. -/
structure EvhtpRequest where
  id : EvhtpPtr
  hooks : Option ReqPtr
  finished : Bool
deriving Repr, DecidableEq

/-- The part of `evhtp_connection_t` the server uses.  `onWrite` is the argument
of the hook `evhtp_hook_on_write`. -/
structure EvhtpConnection where
  onWrite : Option ReqPtr
  request : Option EvhtpRequest
deriving Repr, DecidableEq

/-- What is handed to libevhtp for a request: the start of a chunked reply, a
chunk, the end of the chunks, or a whole reply with `EVHTP_RES_ERROR`. -/
inductive Reply
  | chunkStart
  | chunk (data : List UInt8)
  | chunkEnd
  | error
deriving Repr, DecidableEq

/-- `evhtp_res`, as far as it is returned by the hooks. -/
inductive EvhtpRes
  | ok
  | error
deriving Repr, DecidableEq

/-- The server with one connection.  `refs` are the arguments of the release
callbacks still to come, one for each chunk added by reference, `sent` is all
that was handed to libevhtp, and `staleUses` counts the hooks that ran with a
`struct req` that was freed. -/
structure ServerState where
  conn : Option EvhtpConnection
  heap : List Cell
  refs : List ReqPtr
  sent : List (EvhtpPtr × Reply)
  nextId : EvhtpPtr
  staleUses : ℕ
deriving Repr, DecidableEq

/-- A new connection. -/
def ServerState.start : ServerState where
  conn := some ⟨none, none⟩
  heap := []
  refs := []
  sent := []
  nextId := 0
  staleUses := 0

namespace ServerState

def setCell (p : ReqPtr) (c : Cell) (s : ServerState) : ServerState :=
  { s with heap := s.heap.set p c }

/-- A hook runs with the argument `p`. -/
def use (p : ReqPtr) (s : ServerState) : ServerState :=
  match s.heap[p]? with
  | some c => if c.freed = 0 then s else { s with staleUses := s.staleUses + 1 }
  | none => s

/-- The connection and its request in progress, if that is the request `q`. -/
def inProgress (q : EvhtpPtr) (s : ServerState) : Option (EvhtpConnection × EvhtpRequest) := do
  let conn ← s.conn
  let x ← conn.request
  if x.id = q then some (conn, x) else none

end ServerState

/-! ## libevhtp -/

def evhtpSendReplyChunkStart (q : EvhtpPtr) (s : ServerState) : Option ServerState := do
  let _ ← s.inProgress q
  return { s with sent := s.sent ++ [(q, .chunkStart)] }

def evhtpSendReplyChunk (q : EvhtpPtr) (data : List UInt8) (s : ServerState) :
    Option ServerState := do
  let _ ← s.inProgress q
  return { s with sent := s.sent ++ [(q, .chunk data)] }

def evhtpSendReplyChunkEnd (q : EvhtpPtr) (s : ServerState) : Option ServerState := do
  let (conn, x) ← s.inProgress q
  return { s with
    conn := some { conn with request := some { x with finished := true } }
    sent := s.sent ++ [(q, .chunkEnd)] }

/-- `evhtp_send_reply` with `EVHTP_RES_ERROR`. -/
def evhtpSendReply (q : EvhtpPtr) (s : ServerState) : Option ServerState := do
  let (conn, x) ← s.inProgress q
  return { s with
    conn := some { conn with request := some { x with finished := true } }
    sent := s.sent ++ [(q, .error)] }

/-- `evhtp_unset_hook` for `evhtp_hook_on_write` on the connection of `q`. -/
def evhtpUnsetOnWrite (q : EvhtpPtr) (s : ServerState) : Option ServerState := do
  let (conn, _) ← s.inProgress q
  return { s with conn := some { conn with onWrite := none } }

/-- `evhtp_unset_all_hooks` on the hooks of the request `q`. -/
def evhtpUnsetAllHooks (q : EvhtpPtr) (s : ServerState) : Option ServerState := do
  let (conn, x) ← s.inProgress q
  return { s with conn := some { conn with request := some { x with hooks := none } } }

/-- The calls of `evhtp_set_hook` in `req_start_response`. -/
def evhtpSetHooks (q : EvhtpPtr) (p : ReqPtr) (s : ServerState) : Option ServerState := do
  let (_, x) ← s.inProgress q
  return { s with
    conn := some { onWrite := some p, request := some { x with hooks := some p } } }

/-! ## One request -/

/-- `req_free` on the memory of the request. -/
def Cell.drop (c : Cell) : Cell :=
  let r := { c.req with refcnt := int32 (c.req.refcnt - 1) }
  if r.refcnt > 0 then { c with req := r }
  else
    { c with
      req := r
      freed := c.freed + 1
      bufFreed := if r.buf = none then c.bufFreed else c.bufFreed + 1 }

def reqFree (p : ReqPtr) (s : ServerState) : Option ServerState := do
  let c ← s.heap[p]?
  return s.setCell p c.drop

/-- The static string that `req_write_line` sends, `"foobar\r\n"`. -/
def replyLine : List UInt8 :=
  [102, 111, 111, 98, 97, 114, 13, 10]

def reqWriteLine (p : ReqPtr) (s : ServerState) : Option ServerState := do
  let c ← s.heap[p]?
  let q ← c.req.req
  let s ← evhtpSendReplyChunk q replyLine s
  let r := { c.req with curCount := int32 (c.req.curCount + 1) }
  let s := s.setCell p { c with req := r }
  if r.curCount ≥ r.maxCount then
    let s ← evhtpUnsetOnWrite q s
    evhtpSendReplyChunkEnd q s
  else
    return s

/-- How much of the reply `req_write_buf` writes next. -/
def Req.writeSize (r : Req) : ℕ :=
  let writeSize := uint64Sub r.replySize (uint64OfInt r.currentOfs)
  if writeSize > r.bufSize then r.bufSize else writeSize

def reqWriteBuf (p : ReqPtr) (s : ServerState) : Option ServerState := do
  let c ← s.heap[p]?
  let writeSize := c.req.writeSize
  let data ← c.req.buf
  let r := { c.req with refcnt := int32 (c.req.refcnt + 1) }
  let s := { s with refs := s.refs ++ [p] }
  let q ← c.req.req
  let s ← evhtpSendReplyChunk q (data.take writeSize) s
  let r := { r with currentOfs := int64 (r.currentOfs + writeSize) }
  let s := s.setCell p { c with req := r }
  if uint64OfInt r.currentOfs ≥ r.replySize then
    let s ← evhtpUnsetOnWrite q s
    evhtpSendReplyChunkEnd q s
  else
    return s

/-- The memory of a request whose error or fini hook runs. -/
def Cell.endReq (c : Cell) : Cell :=
  { c with req := { c.req with req := none }, ended := c.ended + 1 }

/-- `send_upstream_error`, called for the request `q`. -/
def sendUpstreamError (q : EvhtpPtr) (p : ReqPtr) (s : ServerState) : Option ServerState := do
  let s := s.use p
  let s ← evhtpUnsetAllHooks q s
  let c ← s.heap[p]?
  reqFree p (s.setCell p c.endReq)

def sendUpstreamOnWrite (p : ReqPtr) (s : ServerState) : Option (ServerState × EvhtpRes) := do
  let s := s.use p
  let c ← s.heap[p]?
  match c.req.reqType with
  | .line => do
    let s ← reqWriteLine p s
    return (s, .ok)
  | .size => do
    let s ← reqWriteBuf p s
    return (s, .ok)
  | .none => return (s, .error)

def sendUpstreamFini (p : ReqPtr) (s : ServerState) : Option ServerState := do
  let s := s.use p
  let c ← s.heap[p]?
  let q ← c.req.req
  let s ← evhtpUnsetAllHooks q s
  reqFree p (s.setCell p c.endReq)

def reqStartResponse (p : ReqPtr) (s : ServerState) : Option ServerState := do
  let c ← s.heap[p]?
  let q ← c.req.req
  let s ← evhtpSetHooks q p s
  match c.req.reqType with
  | .line => do
    let s ← evhtpSendReplyChunkStart q s
    reqWriteLine p s
  | .size => do
    let s ← evhtpSendReplyChunkStart q s
    reqWriteBuf p s
  | .none => evhtpSendReply q s

/-- A new `struct req` has come to its place in memory. -/
def ServerState.alloc (r : Req) (s : ServerState) : ServerState :=
  { s with heap := s.heap ++ [⟨r, 0, 0, 0⟩] }

def linecb (createOk : Bool) (junk : Req) (q : EvhtpPtr) (s : ServerState) : Option ServerState :=
  match reqCreate createOk junk q with
  | none => evhtpSendReply q s
  | some r =>
    let (r, _) := reqSetTypeLine 16 r
    reqStartResponse s.heap.length (s.alloc r)

/-- `sizecb`.  `val` is the value that `evhtp_kvs_find_kv` finds under `size`. -/
def sizecb (val : Option String) (createOk bufOk : Bool) (junk : Req) (q : EvhtpPtr)
    (s : ServerState) : Option ServerState :=
  match val with
  | none => evhtpSendReply q s
  | some f =>
    let reqsize := strtoull f.toList
    if reqsize = ullongMax then evhtpSendReply q s
    else
      match reqCreate createOk junk q with
      | none => evhtpSendReply q s
      | some r =>
        let (r, _) := reqSetTypeBuf bufOk reqsize r
        reqStartResponse s.heap.length (s.alloc r)

/-! ## The connection -/

/-- libevhtp frees the request in progress, after running its fini hook. -/
def evhtpRequestFree (s : ServerState) : Option ServerState := do
  let conn ← s.conn
  let x ← conn.request
  let s ← match x.hooks with
    | some p => sendUpstreamFini p s
    | none => some s
  let conn ← s.conn
  return { s with conn := some { conn with request := none } }

/-- libevhtp frees the connection, its request first. -/
def evhtpConnectionFree (s : ServerState) : Option ServerState := do
  let conn ← s.conn
  let s ← match conn.request with
    | some _ => evhtpRequestFree s
    | none => some s
  return { s with conn := none }

/-- The next request begins, when none is in progress. -/
def evhtpRequestNew (s : ServerState) : Option ServerState := do
  let conn ← s.conn
  match conn.request with
  | some _ => none
  | none => return { s with
      conn := some { conn with request := some ⟨s.nextId, none, false⟩ }
      nextId := s.nextId + 1 }

/-- libevhtp answers a request for which no callback is set. -/
def evhtpAnswer (s : ServerState) : Option ServerState := do
  let conn ← s.conn
  let x ← conn.request
  return { s with conn := some { conn with request := some { x with finished := true } } }

/-- What libevhtp and libevent may do next: a request for `/line`, for `/size` or
for another path begins, output was written, a chunk added by reference is no
longer needed, the socket has an error, after which the connection is kept or
not, a finished reply is over and its request is freed, or the connection is
freed. -/
inductive ServerEvent
  | line (createOk : Bool) (junk : Req)
  | size (val : Option String) (createOk bufOk : Bool) (junk : Req)
  | other
  | onWrite
  | release (p : ReqPtr)
  | error (keep : Bool)
  | requestDone
  | close
deriving Repr, DecidableEq

/-- libevhtp calls the write hook of the connection, if a request is in progress. -/
def deliverOnWrite (s : ServerState) : Option ServerState := do
  let conn ← s.conn
  let _ ← conn.request
  let p ← conn.onWrite
  let (s, _) ← sendUpstreamOnWrite p s
  return s

/-- A chunk is released: `req_evbuf_free`. -/
def deliverRelease (p : ReqPtr) (s : ServerState) : Option ServerState :=
  if p ∈ s.refs then reqFree p { s with refs := s.refs.erase p } else none

/-- libevhtp calls the error hook of the request in progress. -/
def evhtpErrorHook (s : ServerState) : Option ServerState := do
  let conn ← s.conn
  let x ← conn.request
  match x.hooks with
  | some p => sendUpstreamError x.id p s
  | none => some s

/-- libevhtp frees the request in progress after its reply is over. -/
def deliverRequestDone (s : ServerState) : Option ServerState := do
  let conn ← s.conn
  let x ← conn.request
  if x.finished then evhtpRequestFree s else none

/-- Deliver one event. -/
def serverStep : ServerEvent → ServerState → Option ServerState
  | .line createOk junk, s => do
    let s' ← evhtpRequestNew s
    linecb createOk junk s.nextId s'
  | .size val createOk bufOk junk, s => do
    let s' ← evhtpRequestNew s
    sizecb val createOk bufOk junk s.nextId s'
  | .other, s => do
    let s ← evhtpRequestNew s
    evhtpAnswer s
  | .onWrite, s => deliverOnWrite s
  | .release p, s => deliverRelease p s
  | .error keep, s => do
    let s ← evhtpErrorHook s
    if keep then return s else evhtpConnectionFree s
  | .requestDone, s => deliverRequestDone s
  | .close, s => evhtpConnectionFree s

/-- The server on one connection. -/
def serverSystem : System ServerState ServerEvent where
  init := ServerState.start
  step := serverStep

end EvhtpHttp.Server
