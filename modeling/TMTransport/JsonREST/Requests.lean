import TMTransport.JsonREST.Documents

/-!
# Requests to the JSON REST server

What `onRead` makes of a request: a path and a map of queries, a login or a refusal, and
then a call of the handler, or a document. Handlers are found by port and path; whom a
port lets in is found in two tables, one for each kind of authentication.
-/

namespace RestServer

open PosixPath (Path)
open Documents
open Tokens (Bytes ascii)

inductive Method where
  | get
  | post
  | head
  | other
  deriving DecidableEq

/-- A request, as far as `onRead` looks at it. A header field that is not there is empty. -/
structure Request where
  method : Method
  target : Bytes
  authorization : Bytes := []
  contentType : Bytes := []
  body : Bytes := []

/-- `queryMap`. Each name is there once, with its values in the order they came in. -/
abbrev QueryMap := List (Bytes × List Bytes)

/-! ## Queries -/

def ampersand : UInt8 := '&'.toUInt8

def equals : UInt8 := '='.toUInt8

def percent : UInt8 := '%'.toUInt8

def plus : UInt8 := '+'.toUInt8

def space : UInt8 := ' '.toUInt8

def hexValue (c : UInt8) : Option Nat :=
  if 'a'.toUInt8 ≤ c ∧ c ≤ 'f'.toUInt8 then some (c.toNat - 'a'.toNat + 10)
  else if 'A'.toUInt8 ≤ c ∧ c ≤ 'F'.toUInt8 then some (c.toNat - 'A'.toNat + 10)
  else if '0'.toUInt8 ≤ c ∧ c ≤ '9'.toUInt8 then some (c.toNat - '0'.toNat)
  else none

/-- It stops at what is no escape. -/
def unescape : Bytes → Bytes
  | [] => []
  | c :: s =>
    if c = plus then space :: unescape s
    else if c = percent then
      match s with
      | hi :: lo :: rest =>
        match hexValue hi, hexValue lo with
        | some x, some y => UInt8.ofNat (x * 16 + y) :: unescape rest
        | _, _ => []
      | _ => []
    else c :: unescape s

def addValue (n v : Bytes) : QueryMap → QueryMap
  | [] => [(n, [v])]
  | (n', vs) :: m => if n' = n then (n', vs ++ [v]) :: m else (n', vs) :: addValue n v m

/-- One part of a query. What is not a name and a value is passed over. -/
def addPart (m : QueryMap) (q : Bytes) : QueryMap :=
  match q.splitOn equals with
  | [n, v] => addValue (unescape n) (unescape v) m
  | _ => m

def addQuery (m : QueryMap) (queryStr : Bytes) : QueryMap :=
  (queryStr.splitOn ampersand).foldl addPart m

/-- `queryStr`: what stands in the target between the first question mark and the next `#`. -/
def queryStr (target : Bytes) : Bytes :=
  ((target.dropWhile (· ≠ questionMark)).drop 1).takeWhile (· ≠ '#'.toUInt8)

def formType : Bytes := ascii "x-www-form-urlencoded"

def Request.isSimplePost (req : Request) : Bool := req.contentType == formType

def Request.queryMap (req : Request) : QueryMap :=
  let m := if questionMark ∈ req.target then addQuery [] (queryStr req.target) else []
  if req.isSimplePost then addQuery m req.body else m

/-! ## The server -/

/-- `JsonRESTComponentImpl`, with handlers of the type `H`. Port, path and login are what its maps
go by. -/
structure Server (H : Type) where
  tokens : Tokens.Server
  /-- `allPasswords_`. A login without a password has `none`. -/
  allPasswords : Int → Option (Bytes → Option (Option Bytes))
  handlerMap : Int → Option (Bytes → Option H)
  docRootMap : Int → Option Path

/-- What a server finds on its disk. -/
structure Disk where
  there : Path → Bool
  opens : Path → Bool

/-- What is in an `Authorization` field. -/
structure Credentials where
  login : Bytes := []
  password : Bytes := []
  authToken : Bytes := []
  deriving DecidableEq

def isSpace (c : UInt8) : Bool := c == 32 || (9 ≤ c && c ≤ 13)

def trim (s : Bytes) : Bytes := (s.dropWhile isSpace).rdropWhile isSpace

def colon : UInt8 := ':'.toUInt8

def basicScheme : Bytes := ascii "Basic "

def bearerScheme : Bytes := ascii "Bearer "

/-- A login and, behind the first colon, a password. -/
def Credentials.ofBasic (basicAuthStr : Bytes) : Credentials where
  login := basicAuthStr.takeWhile (· ≠ colon)
  password := (basicAuthStr.dropWhile (· ≠ colon)).drop 1

def Credentials.read (kit : Tokens.Toolkit) (authStr : Bytes) : Credentials :=
  if basicScheme.isPrefixOf authStr then
    .ofBasic (kit.base64Decode (trim (authStr.drop basicScheme.length)))
  else if bearerScheme.isPrefixOf authStr then
    { authToken := trim (authStr.drop bearerScheme.length) }
  else {}

inductive Scheme where
  | basic
  | bearer
  deriving DecidableEq

/-- What `onRead` ends with. -/
inductive Outcome (H : Type) where
  | badRequest
  /-- `scheduleCreateAuthToken` -/
  | createAuthToken (body : Bytes)
  | unauthorized (scheme : Scheme)
  | notFound
  | file (doc : Path × Bytes)
  | invoked (handler : H) (login body : Bytes) (queryMap : QueryMap)

namespace Server

variable {H : Type} (srv : Server H)

def getHandler (port : Int) (path : Bytes) : Option H :=
  match srv.handlerMap port with
  | none => none
  | some handlers => handlers path

def checkBasicAuthentication (port : Int) (login password : Bytes) : Bool :=
  match srv.allPasswords port with
  | none => true
  | some passwords =>
    match passwords login with
    | none => false
    | some none => true
    | some (some hashed) => srv.tokens.kit.pwhashVerify hashed password

def requiresTokenAuthentication (port : Int) : Bool := (srv.tokens.tokenPasswords port).isSome

/-- The login, or the scheme that is asked for. `handled` says that there is a handler. -/
def authorize (port now : Int) (authStr : Bytes) (handled : Bool) : Except Scheme Bytes :=
  let c := Credentials.read srv.tokens.kit authStr
  if c.authToken ≠ [] then
    match srv.tokens.checkTokenAuthentication port now c.authToken with
    | some login => .ok login
    | none => .error .bearer
  else if srv.requiresTokenAuthentication port then
    if handled then .error .bearer else .ok c.login
  else if srv.checkBasicAuthentication port c.login c.password then .ok c.login
  else .error .basic

def handlerFor (port : Int) (req : Request) : Option H :=
  if req.method = .post ∨ req.method = .get then srv.getHandler port (pathStr req.target) else none

/-- The document that is sent. -/
def docFor (disk : Disk) (port : Int) (req : Request) : Option (Path × Bytes) :=
  if req.method = .get ∨ req.method = .head then
    match getDoc srv.docRootMap disk.there port (pathStr req.target) with
    | some doc => if disk.opens doc.1 then some doc else none
    | none => none
  else none

/-- `onRead`, at the time `now`. -/
def onRead (disk : Disk) (port now : Int) (req : Request) : Outcome H :=
  if pathStr req.target = tokenAuthenticationRequest then
    if req.method = .post then .createAuthToken req.body else .badRequest
  else
    match srv.authorize port now req.authorization (srv.handlerFor port req).isSome with
    | .error scheme => .unauthorized scheme
    | .ok login =>
      match srv.handlerFor port req with
      | some handler =>
        .invoked handler login (if req.isSimplePost then [] else req.body) req.queryMap
      | none =>
        match srv.docFor disk port req with
        | some doc => .file doc
        | none => .notFound

end Server

end RestServer
