import TMTransport.JsonREST.Access
import TMTransport.JsonREST.Forms

/-!
# From the client facility to the server facility

The client writes a request as JSON, or as a form: behind the path with `use_get` or
`no_query_body`, and in the body with `simple_post`. The server looks at the body first,
which is JSON, and at the query if there is none.

A form in a body is announced as `application/x-www-form-urlencoded`. The server looks for
`x-www-form-urlencoded`, so it takes such a body for JSON. And the server reads queries
only for types that are structures themselves, where the client looks through wrappers.
-/

namespace RestClient

open RestServer
open Documents (questionMark pathStr tokenAuthenticationRequest)
open Tokens (Bytes ascii)

/-! ## Types of requests -/

/-- What `tm_basic` has for a structure of texts. -/
structure Csv (Req : Type) where
  names : List Bytes
  text : Req → Bytes → Bytes
  /-- `StructFieldInfoBasedInitializer::initialize` -/
  initial : Req
  /-- `readOneNameValuePair` -/
  read : Req → Bytes → Bytes → Req
  /-- Is the type of the requests the structure itself, and not a wrapper of it? -/
  direct : Bool

/-- `outputNameValuePairs` -/
def Csv.pairs {Req : Type} (csv : Csv Req) (r : Req) : List (Bytes × Bytes) :=
  csv.names.map fun n => (n, csv.text r n)

/-- Output and input are inverse to each other. -/
structure Csv.Inverse {Req : Type} (csv : Csv Req) : Prop where
  nodup : csv.names.Nodup
  ext : ∀ r r', (∀ n ∈ csv.names, csv.text r n = csv.text r' n) → r = r'
  text_initial : ∀ n ∈ csv.names, csv.text csv.initial n = []
  text_read : ∀ r n v, n ∈ csv.names → ∀ m ∈ csv.names,
    csv.text (csv.read r n v) m = if m = n then v else csv.text r m
  read_unknown : ∀ r n v, n ∉ csv.names → csv.read r n v = r

/-- A JSON library, with the encoder and the decoder of a type. The `Bool` is `no_wrap`. -/
structure JsonCodec (Req : Type) where
  /-- It throws if a text is not UTF-8. -/
  dump : Bool → Req → Option Bytes
  /-- It throws, or it is no request. -/
  parse : Bool → Bytes → Option Req

def utf8 (s : Bytes) : Bool := (ByteArray.mk s.toArray).validateUTF8

structure JsonCodec.Sound {Req : Type} (json : JsonCodec Req) (csv : Csv Req) : Prop where
  parse_dump : ∀ noWrap r b, json.dump noWrap r = some b → json.parse noWrap b = some r
  dump_ne_nil : ∀ noWrap r, json.dump noWrap r ≠ some []
  isSome_dump : ∀ noWrap r, (json.dump noWrap r).isSome = true ↔
    ∀ n ∈ csv.names, utf8 n = true ∧ utf8 (csv.text r n) = true
  /-- An equals sign can be in a string only. -/
  parse_equals : ∀ noWrap b, equals ∈ b → '"'.toUInt8 ∉ b → json.parse noWrap b = none

/-! ## The client -/

/-- What the facility has from its locator. It sets no header field but `Authorization`. -/
structure Config where
  identifier : Bytes
  /-- `http_method` -/
  httpMethod : Bytes := []
  /-- `use_get` -/
  useGet : Bool := false
  /-- `simple_post` -/
  simplePost : Bool := false
  /-- `no_query_body` -/
  otherwiseEncodeInUrl : Bool := false
  /-- `no_wrap` -/
  noRequestResponseWrap : Bool := false
  /-- The `Authorization` field. -/
  authorization : Bytes := []

def slash : UInt8 := '/'.toUInt8

def Config.path (c : Config) : Bytes :=
  if [slash].isPrefixOf c.identifier then c.identifier else slash :: c.identifier

/-- `boost::beast::http::string_to_verb` -/
def stringToVerb (s : Bytes) : Method :=
  if s = ascii "GET" then .get
  else if s = ascii "POST" then .post
  else if s = ascii "HEAD" then .head
  else .other

def Config.inUrl (c : Config) : Bool := c.useGet || c.otherwiseEncodeInUrl

def Config.contentType (c : Config) : Bytes :=
  if c.simplePost then ascii "application/x-www-form-urlencoded" else ascii "application/json"

/-- `methodParam`, and what `OneClient` does without it. -/
def Config.method (c : Config) (urlQueryPart request : Bytes) : Method :=
  if c.httpMethod ≠ [] then stringToVerb c.httpMethod
  else if c.useGet then .get
  else if urlQueryPart ≠ [] ∧ request = [] then .get
  else .post

def Config.target (c : Config) (urlQueryPart : Bytes) : Bytes :=
  if urlQueryPart ≠ [] then c.path ++ questionMark :: urlQueryPart else c.path

/-- What `OneClient` sends. -/
def Config.message (c : Config) (urlQueryPart body : Bytes) : Request where
  method := c.method urlQueryPart body
  target := c.target urlQueryPart
  authorization := c.authorization
  contentType := c.contentType
  body := body

section Facility

variable {Req : Type} (csv : Csv Req) (json : JsonCodec Req) (c : Config)

/-- `actuallyHandle`, for a type that is a structure or empty. Nothing is sent if it throws. -/
def request (r : Req) : Option Request :=
  let oss := form (csv.pairs r)
  let urlQueryPart := if c.inUrl then oss else []
  let body :=
    if c.inUrl then some []
    else if c.simplePost then some oss
    else json.dump c.noRequestResponseWrap r
  body.map (c.message urlQueryPart)

/-! ## The server facility -/

/-- A name of the query. If there are several values it is an array. -/
def readItem (r : Req) (item : Bytes × List Bytes) : Req :=
  if item.2.length = 1 then csv.read r item.1 (item.2.headD [])
  else item.2.zipIdx.foldl
    (fun r v => csv.read r (item.1 ++ ascii ("[" ++ toString v.2 ++ "]")) v.1) r

def readItems (r : Req) (queryMap : QueryMap) : Req := queryMap.foldl (readItem csv) r

/-- `handleRequest`: the request that the facility is given. Without one the answer is that it
cannot be parsed. -/
def handleRequest (noRequestResponseWrap : Bool) (requestBody : Bytes) (queryMap : QueryMap) :
    Option Req :=
  if requestBody ≠ [] then
    (json.parse noRequestResponseWrap requestBody).map fun r =>
      if csv.direct then readItems csv r queryMap else r
  else if csv.direct then some (readItems csv csv.initial queryMap)
  else none

end Facility

/-! ## What is claimed, and when it holds -/

section Decode

variable {Req H : Type}

/-- The handler is called, and it hands over the request that the client has been given. `legal`
says what HTTP lets through in a target. The map of the queries has no order. -/
def HandsOver (csv : Csv Req) (json : JsonCodec Req) (legal : UInt8 → Bool) (c : Config)
    (srv : Server H) (disk : Disk) (port now : Int) (handler : H) (r : Req) : Prop :=
  ∃ req, request csv json c r = some req ∧ req.target.all legal = true ∧
    ∃ login body queryMap, srv.onRead disk port now req = .invoked handler login body queryMap ∧
      ∀ m : QueryMap, m.Perm queryMap →
        handleRequest csv json c.noRequestResponseWrap body m = some r

/-- A value with a name that goes through does so, too, and one with another name is empty. -/
def Csv.Plain (csv : Csv Req) (r : Req) : Prop :=
  ∀ n ∈ csv.names, if plain n then plain (csv.text r n) = true else csv.text r n = []

/-- Can the server read what the client has written? -/
def Readable (csv : Csv Req) (c : Config) (r : Req) : Prop :=
  if c.inUrl then csv.direct = true ∧ csv.Plain r
  else if c.simplePost then csv.direct = true ∧ csv.names = []
  else ∀ n ∈ csv.names, utf8 n = true ∧ utf8 (csv.text r n) = true

structure Suits (csv : Csv Req) (legal : UInt8 → Bool) (c : Config) (srv : Server H)
    (port now : Int) (r : Req) : Prop where
  method : c.httpMethod = [] ∨ c.httpMethod = ascii "GET" ∨ c.httpMethod = ascii "POST"
  noQuestionMark : questionMark ∉ c.path
  noLogin : c.path ≠ tokenAuthenticationRequest
  carried : c.path.all legal = true
  admitted : ∃ login, srv.authorize port now c.authorization true = .ok login
  readable : Readable csv c r

variable {csv : Csv Req} {json : JsonCodec Req} {legal : UInt8 → Bool} {c : Config}
  {srv : Server H} {disk : Disk} {port now : Int} {handler : H} {r r' : Req}

/-! ### The target -/

theorem pathStr_append {t : Bytes} (h : questionMark ∉ t) (u : Bytes) :
    pathStr (t ++ questionMark :: u) = t := by
  have hall : ∀ b ∈ t, decide (b ≠ questionMark) = true := fun _ hb =>
    decide_eq_true fun hq => h (hq ▸ hb)
  rw [pathStr, List.takeWhile_append_of_pos hall, List.takeWhile_cons_of_neg (by simp),
    List.append_nil]

theorem pathStr_of_notMem {t : Bytes} (h : questionMark ∉ t) : pathStr t = t :=
  List.takeWhile_eq_self_iff.mpr fun _ hb => decide_eq_true fun hq => h (hq ▸ hb)

theorem questionMark_notMem_pathStr (t : Bytes) : questionMark ∉ pathStr t := by
  intro h
  have hne := List.mem_takeWhile_imp h
  exact of_decide_eq_true hne rfl

/-- The server finds the path that the client has, if there is no question mark in it. -/
theorem pathStr_target (h : questionMark ∉ c.path) (q : Bytes) : pathStr (c.target q) = c.path := by
  rw [Config.target]
  split
  · exact pathStr_append h q
  · exact pathStr_of_notMem h

theorem queryStr_target (h : questionMark ∉ c.path) {q : Bytes} (hq : q ≠ [])
    (hsharp : '#'.toUInt8 ∉ q) : queryStr (c.target q) = q := by
  have hall : ∀ b ∈ c.path, decide (b ≠ questionMark) = true := fun _ hb =>
    decide_eq_true fun hbq => h (hbq ▸ hb)
  rw [Config.target, if_pos hq, queryStr, List.dropWhile_append_of_pos hall,
    List.dropWhile_cons_of_neg (by simp)]
  exact List.takeWhile_eq_self_iff.mpr fun _ hb => decide_eq_true fun hbq => hsharp (hbq ▸ hb)

theorem target_nil : c.target [] = c.path := if_neg fun h => h rfl

theorem isSimplePost_message (c : Config) (q body : Bytes) :
    (c.message q body).isSimplePost = false := by
  show (c.contentType == formType) = false
  rw [Config.contentType]
  split <;> decide

/-- A query is found as it has been written, but for what has been mangled. -/
theorem queryMap_message (hpath : questionMark ∉ c.path) {ps : List (Bytes × Bytes)}
    (hn : (ps.map Prod.fst).Nodup) (body : Bytes) :
    (c.message (form ps) body).queryMap = mangled ps := by
  have hform : ∀ b ∈ form ps, b ≠ '#'.toUInt8 := by
    intro b hb
    rcases mem_form hb with h | rfl | rfl
    · exact h.2.2.2.2.2.1
    · decide
    · decide
  rw [Request.queryMap, isSimplePost_message]
  show (if questionMark ∈ c.target (form ps) then _ else _) = _
  by_cases hps : ps = []
  · have hno : questionMark ∉ c.target (form ps) := by
      rw [hps, show form [] = [] from rfl, target_nil]
      exact hpath
    rw [if_neg hno, hps]
    rfl
  · have hne : form ps ≠ [] := List.ne_nil_of_mem (equals_mem_form hps)
    have hmem : questionMark ∈ c.target (form ps) := by
      rw [Config.target, if_pos hne]
      exact List.mem_append_right _ List.mem_cons_self
    have hquery : queryStr (c.message (form ps) body).target = form ps :=
      queryStr_target hpath hne fun h => hform _ h rfl
    rw [if_pos hmem, hquery, addQuery_form hps hn]

/-! ### Reading a query -/

theorem text_read_other (hcsv : csv.Inverse) {n m v : Bytes} (hm : m ∈ csv.names) (hne : m ≠ n) :
    csv.text (csv.read r n v) m = csv.text r m := by
  by_cases hn : n ∈ csv.names
  · rw [hcsv.text_read r n v hn m hm, if_neg hne]
  · rw [hcsv.read_unknown r n v hn]

/-- Each name has one value. -/
def Single (m : QueryMap) : Prop := ∀ e ∈ m, ∃ v, e.2 = [v]

theorem readItems_cons {m : QueryMap} {e : Bytes × List Bytes} {v : Bytes} (he : e.2 = [v]) :
    readItems csv r (e :: m) = readItems csv (csv.read r e.1 v) m := by
  rw [readItems, List.foldl_cons, readItem, he, if_pos List.length_singleton]
  rfl

theorem text_readItems_of_notMem (hcsv : csv.Inverse) {m : QueryMap} (hone : Single m) {n : Bytes}
    (hn : n ∈ csv.names) (hno : n ∉ m.map Prod.fst) :
    csv.text (readItems csv r m) n = csv.text r n := by
  induction m generalizing r with
  | nil => rfl
  | cons e m ih =>
      obtain ⟨v, he⟩ := hone e List.mem_cons_self
      rw [List.map_cons, List.mem_cons, not_or] at hno
      rw [readItems_cons he, ih (fun e' he' => hone e' (List.mem_cons_of_mem _ he')) hno.2,
        text_read_other hcsv hn hno.1]

theorem text_readItems_of_mem (hcsv : csv.Inverse) {m : QueryMap} (hone : Single m)
    (hnodup : (m.map Prod.fst).Nodup) {n v : Bytes} (hn : n ∈ csv.names) (hmem : (n, [v]) ∈ m) :
    csv.text (readItems csv r m) n = v := by
  induction m generalizing r with
  | nil => exact absurd hmem List.not_mem_nil
  | cons e m ih =>
      have hone' : Single m := fun e' he' => hone e' (List.mem_cons_of_mem _ he')
      obtain ⟨hnot, hnodup⟩ := List.nodup_cons.mp hnodup
      rcases List.mem_cons.mp hmem with rfl | hmem
      · rw [readItems_cons rfl, text_readItems_of_notMem hcsv hone' hn hnot,
          hcsv.text_read r n v hn n hn, if_pos rfl]
      · obtain ⟨w, he⟩ := hone e List.mem_cons_self
        rw [readItems_cons he]
        exact ih hone' hnodup hmem

theorem single_mangled (ps : List (Bytes × Bytes)) : Single (mangled ps) := by
  intro e he
  obtain ⟨p, -, rfl⟩ := List.mem_map.mp he
  exact ⟨_, rfl⟩

theorem mem_mangled_pairs {n : Bytes} (hn : n ∈ csv.names) :
    (mangle n, [mangle (csv.text r n)]) ∈ mangled (csv.pairs r) :=
  List.mem_map.mpr ⟨(n, csv.text r n), List.mem_map.mpr ⟨n, hn, rfl⟩, rfl⟩

theorem names_mangled_pairs : (mangled (csv.pairs r)).map Prod.fst = csv.names.map mangle := by
  rw [mangled, Csv.pairs, List.map_map, List.map_map]
  rfl

/-- **What the server reads is the request of the client if it is plain, and only then.** -/
theorem readItems_eq_iff (hcsv : csv.Inverse) {m : QueryMap}
    (hm : m.Perm (mangled (csv.pairs r))) :
    readItems csv csv.initial m = r ↔ csv.Plain r := by
  have hone : Single m := fun e he => single_mangled _ e (hm.mem_iff.mp he)
  have hnodup : (m.map Prod.fst).Nodup := by
    rw [(hm.map Prod.fst).nodup_iff, names_mangled_pairs]
    exact hcsv.nodup.map mangle_injective
  have hread : ∀ k ∈ csv.names, mangle k ∈ csv.names →
      csv.text (readItems csv csv.initial m) (mangle k) = mangle (csv.text r k) := fun k hk hk' =>
    text_readItems_of_mem hcsv hone hnodup hk' (hm.mem_iff.mpr (mem_mangled_pairs hk))
  have hunread : ∀ n ∈ csv.names, n ∉ csv.names.map mangle →
      csv.text (readItems csv csv.initial m) n = [] := by
    intro n hn hno
    rw [text_readItems_of_notMem hcsv hone hn, hcsv.text_initial n hn]
    rw [(hm.map Prod.fst).mem_iff, names_mangled_pairs]
    exact hno
  constructor
  · intro h n hn
    rw [h] at hread hunread
    split
    · next hplain =>
      have hself := hread n hn (by rw [mangle_plain hplain]; exact hn)
      rw [mangle_plain hplain] at hself
      exact mangle_eq_self.mp hself.symm
    · -- such a name can be that of a shorter one, which has been mangled
      next hplain =>
      induction hlen : n.length using Nat.strong_induction_on generalizing n with
      | _ len ih =>
        by_cases hmem : n ∈ csv.names.map mangle
        · obtain ⟨k, hk, rfl⟩ := List.mem_map.mp hmem
          have hk' := mt plain_mangle hplain
          have hlt := length_lt_mangle (Bool.eq_false_iff.mpr hk')
          rw [hread k hk hn, ih k.length (hlen ▸ hlt) k hk hk' rfl]
          rfl
        · exact hunread n hn hmem
  · intro h
    refine hcsv.ext _ _ fun n hn => ?_
    by_cases hplain : plain n = true
    · have htext := h n hn
      rw [if_pos hplain] at htext
      have hself := hread n hn (by rw [mangle_plain hplain]; exact hn)
      rw [mangle_plain hplain, mangle_plain htext] at hself
      exact hself
    · have htext := h n hn
      rw [if_neg hplain] at htext
      rw [htext]
      by_cases hmem : n ∈ csv.names.map mangle
      · obtain ⟨k, hk, rfl⟩ := List.mem_map.mp hmem
        have hk' := mt plain_mangle hplain
        have hempty := h k hk
        rw [if_neg hk'] at hempty
        rw [hread k hk hn, hempty]
        rfl
      · exact hunread n hn hmem

/-! ### One request -/

theorem nodup_pairs (hcsv : csv.Inverse) : ((csv.pairs r).map Prod.fst).Nodup := by
  rw [Csv.pairs, List.map_map]
  exact (List.map_id _).symm ▸ hcsv.nodup

theorem queryMap_path (hpath : questionMark ∉ c.path) (body : Bytes) :
    (c.message [] body).queryMap = [] := by
  have hnone : (([] : List (Bytes × Bytes)).map Prod.fst).Nodup := List.nodup_nil
  exact queryMap_message hpath hnone body

/-- The server facility is given what the client facility has been given. -/
def Handed (csv : Csv Req) (json : JsonCodec Req) (c : Config) (r : Req) : Prop :=
  ∃ req, request csv json c r = some req ∧ ∀ m : QueryMap, m.Perm req.queryMap →
    handleRequest csv json c.noRequestResponseWrap req.body m = some r

theorem handed_inUrl (hcsv : csv.Inverse) (hpath : questionMark ∉ c.path)
    (hurl : c.inUrl = true) :
    Handed csv json c r ↔ csv.direct = true ∧ csv.Plain r := by
  have hreq : request csv json c r = some (c.message (form (csv.pairs r)) []) := by
    rw [request, hurl]
    rfl
  have hmap := queryMap_message hpath (nodup_pairs hcsv (r := r)) []
  have hhandle : ∀ m, handleRequest csv json c.noRequestResponseWrap [] m =
      if csv.direct then some (readItems csv csv.initial m) else none := fun m =>
    if_neg fun h => h rfl
  constructor
  · intro ⟨req, hsome, hall⟩
    rw [hreq] at hsome
    obtain rfl := Option.some.inj hsome
    rw [hmap] at hall
    have hread := (hhandle _).symm.trans (hall _ (.refl _))
    split at hread
    · next hdirect =>
      exact ⟨hdirect, (readItems_eq_iff hcsv (.refl _)).mp (Option.some.inj hread)⟩
    · cases hread
  · intro ⟨hdirect, hplain⟩
    refine ⟨_, hreq, fun m hm => ?_⟩
    rw [hmap] at hm
    refine (hhandle m).trans ?_
    rw [if_pos hdirect, (readItems_eq_iff hcsv hm).mpr hplain]

theorem handed_simplePost (hcsv : csv.Inverse) (hjson : json.Sound csv)
    (hpath : questionMark ∉ c.path) (hurl : c.inUrl = false) (hsimple : c.simplePost = true) :
    Handed csv json c r ↔ csv.direct = true ∧ csv.names = [] := by
  have hreq : request csv json c r = some (c.message [] (form (csv.pairs r))) := by
    rw [request, hurl, hsimple]
    rfl
  have hmap := queryMap_path hpath (form (csv.pairs r))
  by_cases hnames : csv.names = []
  · have hform : form (csv.pairs r) = [] := by
      rw [Csv.pairs, hnames]
      rfl
    have hinitial : csv.initial = r := hcsv.ext _ _ fun n hn => by
      rw [hnames] at hn
      exact absurd hn List.not_mem_nil
    have hhandle : handleRequest csv json c.noRequestResponseWrap (form (csv.pairs r)) [] =
        if csv.direct then some r else none := by
      rw [handleRequest, hform, if_neg fun h => h rfl, readItems, List.foldl_nil, hinitial]
    constructor
    · intro ⟨req, hsome, hall⟩
      rw [hreq] at hsome
      obtain rfl := Option.some.inj hsome
      rw [hmap] at hall
      have hread := hhandle.symm.trans (hall _ (.refl _))
      split at hread
      · next hdirect => exact ⟨hdirect, hnames⟩
      · cases hread
    · intro ⟨hdirect, _⟩
      refine ⟨_, hreq, fun m hm => ?_⟩
      rw [hmap] at hm
      obtain rfl := hm.eq_nil
      refine hhandle.trans ?_
      rw [if_pos hdirect]
  · -- a form that is not empty is no JSON
    have hpairs : csv.pairs r ≠ [] := by
      rw [Csv.pairs]
      simpa using hnames
    have hequals := equals_mem_form hpairs
    have hquote : '"'.toUInt8 ∉ form (csv.pairs r) := by
      intro h
      rcases mem_form h with h | h | h
      · exact h.2.2.2.2.2.2 rfl
      · exact absurd h (by decide)
      · exact absurd h (by decide)
    refine ⟨fun ⟨req, hsome, hall⟩ => ?_, fun h => absurd h.2 hnames⟩
    rw [hreq] at hsome
    obtain rfl := Option.some.inj hsome
    have hread := hall _ (.refl _)
    have hne : (c.message [] (form (csv.pairs r))).body ≠ [] := List.ne_nil_of_mem hequals
    have hparse : json.parse c.noRequestResponseWrap (c.message [] (form (csv.pairs r))).body =
        none := hjson.parse_equals _ _ hequals hquote
    rw [handleRequest, if_pos hne, hparse] at hread
    cases hread

theorem handed_json (hjson : json.Sound csv) (hpath : questionMark ∉ c.path)
    (hurl : c.inUrl = false) (hsimple : c.simplePost = false) :
    Handed csv json c r ↔ ∀ n ∈ csv.names, utf8 n = true ∧ utf8 (csv.text r n) = true := by
  have hreq : request csv json c r =
      (json.dump c.noRequestResponseWrap r).map (c.message []) := by
    rw [request, hurl, hsimple]
    rfl
  rw [← hjson.isSome_dump c.noRequestResponseWrap r, Option.isSome_iff_exists]
  constructor
  · intro ⟨req, hsome, _⟩
    rw [hreq] at hsome
    obtain ⟨b, hb, -⟩ := Option.map_eq_some_iff.mp hsome
    exact ⟨b, hb⟩
  · intro ⟨b, hb⟩
    refine ⟨c.message [] b, by rw [hreq, hb]; rfl, fun m hm => ?_⟩
    rw [queryMap_path hpath] at hm
    obtain rfl := hm.eq_nil
    have hne : (c.message [] b).body ≠ [] := fun h =>
      hjson.dump_ne_nil _ r (hb.trans (congrArg some h))
    have hparse : json.parse c.noRequestResponseWrap (c.message [] b).body = some r :=
      hjson.parse_dump _ _ _ hb
    rw [handleRequest, if_pos hne, hparse]
    cases csv.direct <;> rfl

theorem handed_iff (hcsv : csv.Inverse) (hjson : json.Sound csv)
    (hpath : questionMark ∉ c.path) : Handed csv json c r ↔ Readable csv c r := by
  rw [Readable]
  split
  · next hurl => exact handed_inUrl hcsv hpath hurl
  · next hurl =>
    have hurl := Bool.eq_false_iff.mpr hurl
    split
    · next hsimple => exact handed_simplePost hcsv hjson hpath hurl hsimple
    · next hsimple =>
      exact handed_json hjson hpath hurl (Bool.eq_false_iff.mpr hsimple)

/-! ### The way to the handler -/

theorem request_eq_message {req : Request} (h : request csv json c r = some req) :
    ∃ q body, req = c.message q body ∧ ∀ b ∈ q, Clean b ∨ b = equals ∨ b = ampersand := by
  rw [request] at h
  obtain ⟨body, -, rfl⟩ := Option.map_eq_some_iff.mp h
  refine ⟨_, body, rfl, fun b hb => ?_⟩
  split at hb
  · exact mem_form hb
  · exact absurd hb List.not_mem_nil

theorem method_iff (c : Config) (q body : Bytes) :
    c.method q body = .post ∨ c.method q body = .get ↔
      c.httpMethod = [] ∨ c.httpMethod = ascii "GET" ∨ c.httpMethod = ascii "POST" := by
  rw [Config.method]
  by_cases hset : c.httpMethod = []
  · rw [if_neg fun h => h hset]
    refine ⟨fun _ => .inl hset, fun _ => ?_⟩
    split
    · exact .inr rfl
    · split
      · exact .inr rfl
      · exact .inl rfl
  · rw [if_pos hset, stringToVerb]
    by_cases hget : c.httpMethod = ascii "GET"
    · rw [if_pos hget]
      exact ⟨fun _ => .inr (.inl hget), fun _ => .inr rfl⟩
    · rw [if_neg hget]
      by_cases hpost : c.httpMethod = ascii "POST"
      · rw [if_pos hpost]
        exact ⟨fun _ => .inr (.inr hpost), fun _ => .inl rfl⟩
      · rw [if_neg hpost]
        refine ⟨fun h => ?_, fun h => absurd h (by simp [hset, hget, hpost])⟩
        split at h <;> rcases h with h | h <;> cases h

theorem handlerFor_message {q body : Bytes} :
    srv.handlerFor port (c.message q body) = some handler ↔
      (c.httpMethod = [] ∨ c.httpMethod = ascii "GET" ∨ c.httpMethod = ascii "POST") ∧
        srv.getHandler port (pathStr (c.target q)) = some handler := by
  rw [← method_iff c q body, Server.handlerFor]
  show (if c.method q body = .post ∨ c.method q body = .get then _ else _) = _ ↔ _
  split
  · next h => exact (and_iff_right h).symm
  · next h => exact ⟨fun hnone => (by cases hnone), fun hand => absurd hand.1 h⟩

theorem all_legal_target (hlegal : ∀ b, 33 ≤ b → b ≤ 126 → legal b = true) {q : Bytes}
    (hq : ∀ b ∈ q, Clean b ∨ b = equals ∨ b = ampersand) :
    (c.target q).all legal = true ↔ c.path.all legal = true := by
  have hall : q.all legal = true := List.all_eq_true.mpr fun b hb => by
    rcases hq b hb with h | rfl | rfl
    · exact hlegal b h.1 h.2.1
    · exact hlegal _ (by decide) (by decide)
    · exact hlegal _ (by decide) (by decide)
  rw [Config.target]
  split
  · rw [List.all_append, List.all_cons, hall, hlegal questionMark (by decide) (by decide)]
    rw [Bool.and_true, Bool.and_true]
  · exact Iff.rfl

theorem HandsOver.handed (h : HandsOver csv json legal c srv disk port now handler r) :
    Handed csv json c r := by
  obtain ⟨req, hsome, -, login, body, queryMap, hread, hall⟩ := h
  obtain ⟨-, -, -, rfl, rfl⟩ := onRead_eq_invoked.mp hread
  obtain ⟨q, sent, rfl, -⟩ := request_eq_message hsome
  rw [isSimplePost_message, if_neg Bool.false_ne_true] at hall
  exact ⟨_, hsome, hall⟩

/--
**When a request gets to the facility.** The JSON library and the structure do what they are for,
HTTP lets through what can be printed, and there is one handler for the path of the client, which
has no other path. Then the facility is handed exactly the request of the client if and only if
all of this is so: the method is GET or POST; the path has no question mark in it, is not the one
for logins, and can be sent; the server lets the client in; and the server can read what the client
has written. It can read JSON of texts that are UTF-8. It can read what is behind a path if the
type is the structure itself, and no value with a plain name has a byte above 127, and no value
with another name is not empty. It can read a form in a body only if there is nothing in it.
-/
theorem handsOver_iff_suits (csv : Csv Req) (json : JsonCodec Req) (legal : UInt8 → Bool)
    (c : Config) (srv : Server H) (disk : Disk) (port now : Int) (handler : H) (r : Req)
    (hcsv : csv.Inverse) (hjson : json.Sound csv)
    (hlegal : ∀ b, 33 ≤ b → b ≤ 126 → legal b = true)
    (hhandler : srv.getHandler port c.path = some handler)
    (hunique : ∀ p, srv.getHandler port p = some handler → p = c.path) :
    HandsOver csv json legal c srv disk port now handler r ↔
      Suits csv legal c srv port now r := by
  constructor
  · intro h
    have hhanded := h.handed
    obtain ⟨req, hsome, hsent, login, body, queryMap, hread, -⟩ := h
    obtain ⟨q, sent, rfl, hq⟩ := request_eq_message hsome
    obtain ⟨hlogin, hcalled, hauth, -, -⟩ := onRead_eq_invoked.mp hread
    obtain ⟨hmethod, hfound⟩ := handlerFor_message.mp hcalled
    have hpath : questionMark ∉ c.path :=
      hunique _ hfound ▸ questionMark_notMem_pathStr (c.target q)
    exact
      { method := hmethod
        noQuestionMark := hpath
        noLogin := fun h => hlogin ((pathStr_target hpath q).trans h)
        carried := (all_legal_target hlegal hq).mp hsent
        admitted := ⟨login, hauth⟩
        readable := (handed_iff hcsv hjson hpath).mp hhanded }
  · rintro ⟨hmethod, hpath, hlogin, hcarried, ⟨login, hauth⟩, hreadable⟩
    obtain ⟨req, hsome, hall⟩ := (handed_iff hcsv hjson hpath).mpr hreadable
    obtain ⟨q, sent, rfl, hq⟩ := request_eq_message hsome
    refine ⟨_, hsome, (all_legal_target hlegal hq).mpr hcarried, login, _, _,
      onRead_eq_invoked.mpr ⟨?_, ?_, hauth, rfl, rfl⟩, ?_⟩
    · exact fun h => hlogin ((pathStr_target hpath q).symm.trans h)
    · refine handlerFor_message.mpr ⟨hmethod, ?_⟩
      rw [pathStr_target hpath q]
      exact hhandler
    · rw [isSimplePost_message, if_neg Bool.false_ne_true]
      exact hall

end Decode

/-! ## A structure with one text -/

def nameOnly : Csv Bytes where
  names := [ascii "name"]
  text := fun r n => if n = ascii "name" then r else []
  initial := []
  read := fun r n v => if n = ascii "name" then v else r
  direct := true

def backslash : UInt8 := '\\'.toUInt8

def quoteByte (b : UInt8) : Bytes :=
  if b = '"'.toUInt8 ∨ b = backslash then [backslash, b] else [b]

def unquote : Bytes → Bytes
  | [] => []
  | b :: s =>
    if b = backslash then
      match s with
      | [] => []
      | d :: t => d :: unquote t
    else b :: unquote s

def front (noWrap : Bool) : Bytes :=
  if noWrap then ascii "\x7b\"name\":\"" else ascii "\x7b\"request\":\x7b\"name\":\""

def back (noWrap : Bool) : Bytes := if noWrap then ascii "\"\x7d" else ascii "\"\x7d\x7d"

def nameJson : JsonCodec Bytes where
  dump := fun noWrap r =>
    if utf8 (ascii "name") ∧ utf8 r then some (front noWrap ++ r.flatMap quoteByte ++ back noWrap)
    else none
  parse := fun noWrap b =>
    if (front noWrap).isPrefixOf b then
      some (unquote ((b.drop (front noWrap).length).rdrop (back noWrap).length))
    else none

theorem nameOnly_inverse : nameOnly.Inverse where
  nodup := List.nodup_singleton _
  ext := fun r r' h => h (ascii "name") List.mem_cons_self
  text_initial := fun n _ => ite_self _
  text_read := by
    intro r n v hn m hm
    rw [List.mem_singleton.mp hn, List.mem_singleton.mp hm]
    rfl
  read_unknown := by
    intro r n v hn
    exact if_neg fun h => hn (List.mem_singleton.mpr h)

theorem unquote_quoteByte (b : UInt8) (s : Bytes) :
    unquote (quoteByte b ++ s) = b :: unquote s := by
  rw [quoteByte]
  split
  · show unquote (backslash :: b :: s) = _
    rw [unquote, if_pos rfl]
  · next h =>
    show unquote (b :: s) = _
    rcases s with _ | ⟨d, s⟩ <;> simp [unquote, not_or.mp h]

theorem unquote_quote (s : Bytes) : unquote (s.flatMap quoteByte) = s := by
  induction s with
  | nil => rfl
  | cons b s ih => rw [List.flatMap_cons, unquote_quoteByte, ih]

theorem quote_mem_front (noWrap : Bool) : '"'.toUInt8 ∈ front noWrap := by
  cases noWrap <;> decide

theorem nameJson_sound : nameJson.Sound nameOnly where
  parse_dump := by
    intro noWrap r b h
    obtain ⟨-, h⟩ := Option.ite_none_right_eq_some.mp h
    obtain rfl := Option.some.inj h
    have hfront : (front noWrap).isPrefixOf
        (front noWrap ++ r.flatMap quoteByte ++ back noWrap) = true := by
      rw [List.append_assoc]
      exact List.isPrefixOf_iff_prefix.mpr (List.prefix_append ..)
    refine (if_pos hfront).trans ?_
    rw [List.append_assoc, List.drop_left, List.rdrop, List.length_append, Nat.add_sub_cancel,
      List.take_left, unquote_quote]
  dump_ne_nil := by
    intro noWrap r h
    obtain ⟨-, h⟩ := Option.ite_none_right_eq_some.mp h
    have hnil := (List.append_eq_nil_iff.mp (List.append_eq_nil_iff.mp (Option.some.inj h)).1).1
    exact List.ne_nil_of_mem (quote_mem_front noWrap) hnil
  isSome_dump := by
    intro noWrap r
    have htext : ∀ n ∈ nameOnly.names, utf8 (nameOnly.text r n) = utf8 r := fun n hn =>
      congrArg utf8 (if_pos (List.mem_singleton.mp hn))
    constructor
    · intro h n hn
      obtain ⟨b, hb⟩ := Option.isSome_iff_exists.mp h
      rw [htext n hn, List.mem_singleton.mp hn]
      exact (Option.ite_none_right_eq_some.mp hb).1
    · intro h
      have hname := h _ List.mem_cons_self
      rw [htext _ List.mem_cons_self] at hname
      exact Option.isSome_iff_exists.mpr ⟨_, if_pos hname⟩
  parse_equals := by
    intro noWrap b _ hquote
    refine if_neg fun h => ?_
    exact hquote ((List.isPrefixOf_iff_prefix.mp h).subset (quote_mem_front noWrap))

/-- The path at which there is a handler. -/
def atPath : Config where
  identifier := ascii "f"

theorem demo_handler (p : Bytes) : demoServer.getHandler 8080 p = some () ↔ p = atPath.path := by
  show (if p = ascii "/f" then some () else none) = some () ↔ _
  exact Option.ite_none_right_eq_some.trans (and_iff_left rfl)

/-- A blank and a separator get there behind the path. -/
theorem handsOver_useGet :
    HandsOver nameOnly nameJson (fun b => 33 ≤ b && b ≤ 126) { atPath with useGet := true }
      demoServer demoDisk 8080 1000 () (ascii "a b&c") := by
  refine (handsOver_iff_suits nameOnly nameJson _ { atPath with useGet := true } demoServer demoDisk
    8080 1000 () (ascii "a b&c") nameOnly_inverse nameJson_sound ?_ ?_ ?_).mpr ?_
  · intro b h h'
    exact Bool.and_eq_true_iff.mpr ⟨decide_eq_true h, decide_eq_true h'⟩
  · exact (demo_handler _).mpr rfl
  · exact fun p => (demo_handler p).mp
  · refine ⟨.inl rfl, by decide, by decide, by decide, ⟨[], rfl⟩, rfl, ?_⟩
    intro n hn
    rw [List.mem_singleton.mp hn]
    decide

/-- A form in the body is taken for JSON, and a byte above 127 gets there as seven. -/
theorem not_handsOver_simplePost_useGet :
    ¬ HandsOver nameOnly nameJson (fun _ => true) { atPath with simplePost := true } demoServer
        demoDisk 8080 1000 () (ascii "a") ∧
      ¬ HandsOver nameOnly nameJson (fun _ => true) { atPath with useGet := true } demoServer
        demoDisk 8080 1000 () [233] := by
  constructor
  · intro h
    have hread :=
      (handed_simplePost nameOnly_inverse nameJson_sound (by decide) rfl rfl).mp h.handed
    cases hread.2
  · intro h
    have hread := (handed_inUrl nameOnly_inverse (by decide) rfl).mp h.handed
    exact absurd (hread.2 (ascii "name") List.mem_cons_self) (by decide)

end RestClient
