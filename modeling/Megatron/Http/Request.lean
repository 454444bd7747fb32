import Megatron.Http.Text
import Megatron.Lib.Machine
import Megatron.Lib.OrdMap
import Megatron.Lib.OrdSet

/-!
# `HTTP::Service::on_StreamRead`

A connection keeps one `HTTP::Request` among the `additions` of its
`epoll_socket_info` and what was received and not read yet in `m_inBuffer`.
Each `StreamRead` takes up the request where the last one left it: first the
head, up to the empty line, then for a `POST` the body.  When both are there
`RequestIncoming` is sent and the connection starts with a new request.

The request is filled field by field, and the handler is left from many
places, by `return` or by the exception of `substr`; what was filled until
then stays.  Such a piece of the handler gives an `Outcome`: the request as it
is left, and the way it is left.

The memory that the parts of a connection share with the socket, the sending
of the event and the time stamps are not modelled.
-/

namespace Megatron.Http

open Megatron.Corelib (Bytes)
open Megatron.Lib

/-- `HTTP::Request`, as far as `on_StreamRead` reads and writes it. -/
structure Request where
  headers : OrdMap Bytes Bytes := ∅
  inCookies : OrdMap Bytes Bytes := ∅
  params : OrdMap Bytes Bytes := ∅
  vParams : OrdMap Bytes (List Bytes) := ∅
  method : Bytes := []
  url : Bytes := []
  originalUrl : Bytes := []
  originalParams : Bytes := []
  postContent : Bytes := []
  parseState : OrdSet Nat := ∅
  isKeepAlive : Bool := false
  sendRequestIncomingIsSent : Bool := false
  deriving DecidableEq

/-- `new HTTP::Request`. -/
def Request.fresh : Request := {}

/-- What `HTTP::Service` is built with: `m_maxPost`, and the bytes in front of
`u_table` (see `unescapeURL`). -/
structure Service where
  mMaxPost : Nat
  stray : UInt8 → UInt8

/-- How a piece of the handler is left: at its end, by `return true`, or by
`std::out_of_range`. -/
inductive Exit where
  | passed
  | returned
  | thrown
  deriving DecidableEq, Repr

/-- The request and the way a piece of the handler is left. -/
structure Outcome where
  w : Request
  exit : Exit
  deriving DecidableEq

/-- What follows a piece of the handler. -/
def Outcome.andThen (o : Outcome) (next : Request → Outcome) : Outcome :=
  if o.exit = .passed then next o.w else o

/-- `__gets$`: the bytes in front of the delimiter and those behind it. -/
def gets (delim data : Bytes) : Option (Bytes × Bytes) := data.dropInfix? delim

/-- `__readbuf$`. -/
def readbuf (sz : Nat) (data : Bytes) : Option (Bytes × Bytes) :=
  if sz ≤ data.length then some (data.take sz, data.drop sz) else none

/-! ## The head -/

section Head

variable (svc : Service)

def get : Bytes := text "GET"

def post : Bytes := text "POST"

/-- The url of a request line, behind its first space. -/
def urlOf (behind : Bytes) : Bytes :=
  unescapeURL svc.stray (((behind.dropInfix? (text " ")).map Prod.fst).getD behind)

/-- The first line of a head. -/
def requestLine (fl : Bytes) (w : Request) : Outcome :=
  match fl.dropInfix? (text " ") with
  | none => ⟨w, .returned⟩
  | some (m, behind) =>
      let w := { w with method := strupper m }
      if w.method ≠ get ∧ w.method ≠ post then ⟨w, .returned⟩
      else
        let w := { w with url := urlOf svc behind }
        if (w.url.dropInfix? (text "..")).isSome then ⟨w, .returned⟩ else ⟨w, .passed⟩

/-- The header lines.  The value begins two characters behind the name; in a
line that ends with the colon `substr` throws. -/
def headerLines : List Bytes → Request → Outcome
  | [], w => ⟨w, .passed⟩
  | line :: dq, w =>
      match line.dropInfix? (text ":") with
      | none => ⟨w, .returned⟩
      | some (_, []) => ⟨w, .thrown⟩
      | some (k, _ :: v) => headerLines dq { w with headers := w.headers.insert (strupper k) v }

/-- One cookie; a piece without `=` is left out. -/
def readCookie (w : Request) (q : Bytes) : Request :=
  match q.dropInfix? (text "=") with
  | none => w
  | some (k, v) => { w with inCookies := w.inCookies.insert k v }

def readCookies (w : Request) : Request :=
  match w.headers.get? (text "COOKIE") with
  | none => w
  | some v => (splitString (text "; ") v).foldl readCookie w

/-- One parameter of `split_params`. -/
def splitParam (w : Request) (p : Bytes) : Request :=
  match p.dropInfix? (text "=") with
  | none => w
  | some (key, v) =>
      let val := unescapeURL svc.stray v
      { w with
        params := w.params.insert key val
        vParams := w.vParams.insert key (w.vParams.at' key ++ [val]) }

/-- `HTTP::Request::split_params`. -/
def splitParams (s : Bytes) (w : Request) : Request :=
  (splitString (text "&") s).foldl (splitParam svc) w

/-- The parameters behind the `?` of the url. -/
def readQuery (w : Request) : Request :=
  let w := { w with originalUrl := w.url }
  match w.url.dropInfix? (text "?") with
  | none => w
  | some (path, query) =>
      { splitParams svc query { w with originalParams := query } with url := path }

/-- What is read off the lines of a head once they are stored. -/
def readHead (w : Request) : Request :=
  let w := readQuery svc (readCookies w)
  { w with parseState := w.parseState.insert 1 }

/-- The lines of a head, the first of them the request line; without a line
there is nothing to test. -/
def headLines : List Bytes → Request → Outcome
  | [], w => ⟨w, .passed⟩
  | fl :: dq, w => (requestLine svc fl w).andThen (headerLines dq)

/-- What is done with a complete head. -/
def parseHead (head : Bytes) (w : Request) : Outcome :=
  (headLines svc (splitString crlf head) w).andThen fun w => ⟨readHead svc w, .passed⟩

/-- The first half of `on_StreamRead`, with the bytes it leaves in
`m_inBuffer`. -/
def takeHead (w : Request) (inBuffer : Bytes) : Outcome × Bytes :=
  if 1 ∈ w.parseState then (⟨w, .passed⟩, inBuffer)
  else
    match gets (crlf ++ crlf) inBuffer with
    | none => (⟨w, .returned⟩, inBuffer)
    | some (head, rest) => (parseHead svc head w, rest)

end Head

/-! ## Multipart bodies -/

/-- The loop that takes a text apart at every `delim`, until nothing is left. -/
def piecesFrom (delim : Bytes) : Nat → Bytes → List Bytes
  | 0, _ => []
  | fuel + 1, s =>
      if s = [] then []
      else
        match s.dropInfix? delim with
        | none => [s]
        | some (p, rest) => p :: piecesFrom delim fuel rest

/-- The pieces of a text between its delimiters; the last one is left out when
it is empty.  Every round takes something off the text. -/
def pieces (delim s : Bytes) : List Bytes := piecesFrom delim s.length s

/-- The lines of a part up to the empty one, and the content behind it without
its last two bytes; `none` is `bad multipart`. -/
def partLines : Nat → Bytes → OrdMap Bytes Bytes → Option (OrdMap Bytes Bytes × Bytes)
  | 0, _, _ => none
  | fuel + 1, s, lparams =>
      match s.dropInfix? crlf with
      | none => none
      | some (sloc, rest) =>
          if sloc = [] then
            some (lparams, if rest.length < 2 then rest else rest.take (rest.length - 2))
          else
            match sloc.dropInfix? (text ": ") with
            | none => none
            | some (key, val) => partLines fuel rest (lparams.insert key val)

/-- The parameters and the content of a part; every round takes a line off it. -/
def readPart (s : Bytes) : Option (OrdMap Bytes Bytes × Bytes) := partLines (s.length + 1) s ∅

/-- A value in quotes, without them. -/
def unquote (val : Bytes) : Bytes :=
  let val :=
    if 2 < val.length ∧ val.head? = some 34 ∧ val.getLast? = some 34 then
      (val.drop 1).take (val.length - 2)
    else val
  if val = [34, 34] then [] else val

/-- One field of `Content-Disposition`, onto the name and the file name. -/
def dispositionField (found : Bytes × Bytes) (fld : Bytes) : Bytes × Bytes :=
  match fld.dropInfix? (text "=") with
  | none => found
  | some (key, v) =>
      let val := unquote v
      (if key = text "name" then val else found.1, if key = text "filename" then val else found.2)

/-- What a part says, as parameters of the request. -/
def storePart (w : Request) (lparams : OrdMap Bytes Bytes) (content : Bytes) : Request :=
  match lparams.get? (text "Content-Disposition") with
  | none => w
  | some cd =>
      let (name, filename) := (pieces (text "; ") cd).foldl dispositionField ([], [])
      let params := w.params.insert name content
      let params :=
        if filename = [] then params else params.insert (name ++ text "_FILENAME") filename
      { w with
        params := lparams.toList.foldl
          (fun params i => params.insert (name ++ text "_" ++ strupper i.1) i.2) params }

/-- A part without the line end in front of it. -/
def skipCrlf (s : Bytes) : Bytes := if crlf.isPrefixOf s then s.drop 2 else s

/-- The parts of a body; a bad one ends the handler, with the parts before it
stored. -/
def storeParts : List Bytes → Request → Outcome
  | [], w => ⟨w, .passed⟩
  | s :: parts, w =>
      if skipCrlf s = [] then storeParts parts w
      else
        match readPart (skipCrlf s) with
        | none => ⟨w, .returned⟩
        | some (lparams, content) => storeParts parts (storePart w lparams content)

/-! ## The body -/

def contentType : Bytes := text "CONTENT-TYPE"

def contentLength : Bytes := text "CONTENT-LENGTH"

/-- `CONTENT-TYPE` names a multipart form. -/
def Request.Multipart (w : Request) : Prop :=
  ((w.headers.at' contentType).dropInfix? (text "multipart/form")).isSome

instance (w : Request) : Decidable w.Multipart := inferInstanceAs (Decidable (_ = true))

/-- `size_t clen = atoi(...)`. -/
def Request.clen (w : Request) : Nat := (atoi (w.headers.at' contentLength) % 2 ^ 64).toNat

/-- The delimiter of a multipart body: the boundary behind two dashes. -/
def Request.bound (w : Request) : Option Bytes :=
  ((w.headers.at' contentType).dropInfix? (text "boundary=")).map fun c => [45, 45] ++ c.2

/-- The delimiter that ends a multipart body. -/
def ebound (bound : Bytes) : Bytes := bound ++ [45, 45]

/-- The headers after the look at `CONTENT-TYPE` and, without a multipart form,
at `CONTENT-LENGTH`: `operator[]` makes what it does not find. -/
def Request.consult (w : Request) : Request :=
  let headers := w.headers.touch contentType
  { w with headers := if w.Multipart then headers else headers.touch contentLength }

section Body

variable (svc : Service)

/-- The body of a `POST`. -/
def takePost (w : Request) (inBuffer : Bytes) : Outcome × Bytes :=
  if ¬ w.Multipart then
    if w.clen = 0 ∨ svc.mMaxPost < w.clen then (⟨w.consult, .returned⟩, inBuffer)
    else
      match readbuf w.clen inBuffer with
      | none => (⟨{ w.consult with postContent := [] }, .returned⟩, inBuffer)
      | some (content, rest) =>
          (⟨splitParams svc content { w.consult with postContent := content }, .passed⟩, rest)
  else
    match w.bound with
    | none => (⟨w.consult, .returned⟩, inBuffer)
    | some bound =>
        match gets (ebound bound) inBuffer with
        | none => (⟨w.consult, .returned⟩, inBuffer)
        | some (sbuf, rest) => (storeParts (pieces bound sbuf) w.consult, rest)

/-- `parse_state.insert(2)` at the end of the second half. -/
def markBody (w : Request) : Outcome := ⟨{ w with parseState := w.parseState.insert 2 }, .passed⟩

/-- The second half of `on_StreamRead`. -/
def takeBody (w : Request) (inBuffer : Bytes) : Outcome × Bytes :=
  if 2 ∈ w.parseState then (⟨w, .passed⟩, inBuffer)
  else if w.method = post then
    let (o, rest) := takePost svc w inBuffer
    (o.andThen markBody, rest)
  else (markBody w, inBuffer)

/-- A request: its head, and where that has passed its body. -/
def parse (w : Request) (inBuffer : Bytes) : Outcome × Bytes :=
  let (o, rest) := takeHead svc w inBuffer
  if o.exit = .passed then takeBody svc o.w rest else (o, rest)

end Body

/-! ## The connection -/

/-- What `on_StreamRead` uses of an `epoll_socket_info`: the request in its
`additions` and `m_inBuffer`. -/
structure EpollSocketInfo where
  data : Option Request := none
  mInBuffer : Bytes := []
  deriving DecidableEq

/-- `isKeepAlive` as the headers say. -/
def keepAlive (w : Request) : Request :=
  match w.headers.get? (text "CONNECTION") with
  | none => w
  | some v => { w with isKeepAlive := strlower v = text "keep-alive" }

/-- The request as `RequestIncoming` carries it. -/
def sent (w : Request) : Request := { keepAlive w with sendRequestIncomingIsSent := true }

section Run

variable (svc : Service)

/-- `HTTP::Service::on_StreamRead`, with the `RequestIncoming` it passes on.
`getData` makes the request that is missing, `clearData` erases it. -/
def onStreamRead (esi : EpollSocketInfo) : EpollSocketInfo × Option Request :=
  let (o, rest) := parse svc (esi.data.getD .fresh) esi.mInBuffer
  if o.exit ≠ .passed then (⟨some o.w, rest⟩, none)
  else if o.w.sendRequestIncomingIsSent then (⟨some (keepAlive o.w), rest⟩, none)
  else (⟨none, rest⟩, some (sent o.w))

/-- A connection with what it has received and the requests it has passed on. -/
structure Connection where
  esi : EpollSocketInfo := {}
  received : Bytes := []
  incoming : List Request := []
  deriving DecidableEq

/-- A chunk arrives, and its `StreamRead` is handled. -/
def Connection.streamRead (c : Connection) (chunk : Bytes) : Connection :=
  let r := onStreamRead svc ⟨c.esi.data, c.esi.mInBuffer ++ chunk⟩
  ⟨r.1, c.received ++ chunk, c.incoming ++ r.2.toList⟩

/-- A connection over all its chunks.  Several chunks may arrive before the
first `StreamRead` is handled: that is one chunk, and empty ones behind it. -/
def machine : Machine Connection Bytes where
  init c := c = {}
  enabled _ _ := True
  apply := Connection.streamRead svc

end Run

end Megatron.Http
