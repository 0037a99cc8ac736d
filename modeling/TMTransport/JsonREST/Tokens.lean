import Mathlib.Algebra.Ring.Int.Defs
import Mathlib.Algebra.Ring.Nat
import TMTransport.Library.Base64
import TMTransport.Library.FlatJson
import TMTransport.Library.Splitting

/-!
# The tokens of the JSON REST server

A server that knows a password for a login hands a token out: a header and a payload,
written in base64 for URLs, and the MAC of both under the secret of the port, in
hexadecimal digits. The payload has the login, and when the token expires.

When the token comes back, the server makes the MAC again and compares. It goes through
the 64 digits that it has made itself, so it says no to a MAC that is too short. It does
not look whether the other one ends there.
-/

namespace Tokens

abbrev Bytes := List UInt8

def ascii (s : String) : Bytes := s.toList.map Char.toUInt8

def dot : UInt8 := '.'.toUInt8

/-- A JSON value, as far as the code asks. A number is what it is as an `int64_t`. -/
inductive Json where
  | null
  | bool (b : Bool)
  | number (n : Int)
  | string (s : Bytes)
  | array (xs : List Json)
  | object (members : List (Bytes × Json))

namespace Json

/-- `operator[]`. It throws for what is neither an object nor null. Where nothing stands
under the key, it puts null there; on a constant object, that is undefined. -/
def subscript (key : Bytes) : Json → Option Json
  | object members => some ((members.lookup key).getD null)
  | null => some null
  | _ => none

def isNull : Json → Bool
  | null => true
  | _ => false

def string? : Json → Option Bytes
  | string s => some s
  | _ => none

def number? : Json → Option Int
  | number n => some n
  | _ => none

end Json

/-- What the server calls: Boost, nlohmann's JSON and libsodium. `none` is an exception.
The MAC and the check of a salted password can be any functions. -/
structure Toolkit where
  base64Encode : Bytes → Bytes
  base64Decode : Bytes → Bytes
  parse : Bytes → Option Json
  dump : Json → Option Bytes
  /-- With a length of 32 and a key of 64 bytes, it does not fail. -/
  genericHash : Vector UInt8 64 → Bytes → Vector UInt8 32
  pwhashVerify : Bytes → Bytes → Bool

structure TokenPasswordInfo where
  secret : Vector UInt8 64
  saltedPasswords : Bytes → Option Bytes

structure Server where
  kit : Toolkit
  /-- By port. -/
  tokenPasswords : Int → Option TokenPasswordInfo

/-! ## Base64 for URLs -/

/-- `replace_all` of a text of one character. -/
def replaceAll (a b : UInt8) (cs : Bytes) : Bytes := cs.map fun c => if c = a then b else c

/-- The loop from the end: at most so many fill signs. -/
def dropFill : Nat → Bytes → Bytes
  | 0, cs => cs
  | _, [] => []
  | n + 1, c :: cs => if c = Base64.fill then dropFill n cs else c :: cs

namespace Toolkit

variable (kit : Toolkit)

def base64URLEnc (input : Bytes) : Bytes :=
  let ret := kit.base64Encode input
  if 0 < ret.length then
    (dropFill 4 (replaceAll '/'.toUInt8 '_'.toUInt8
      (replaceAll '+'.toUInt8 '-'.toUInt8 ret)).reverse).reverse
  else ret

def base64URLDec (input : Bytes) : Bytes :=
  let inputCopy :=
    if 0 < input.length then
      let replaced := replaceAll '_'.toUInt8 '/'.toUInt8 (replaceAll '-'.toUInt8 '+'.toUInt8 input)
      if replaced.length % 4 ≠ 0 then
        replaced ++ List.replicate (4 - replaced.length % 4) Base64.fill
      else replaced
    else input
  kit.base64Decode inputCopy

end Toolkit

/-! ## Hexadecimal digits -/

def hexDigit (n : Nat) : UInt8 :=
  if n < 10 then UInt8.ofNat (48 + n) else UInt8.ofNat (65 + (n - 10))

/-- `%02X` -/
def hexByte (b : UInt8) : Bytes := [hexDigit (b.toNat / 16), hexDigit (b.toNat % 16)]

def hashStr (hash : Vector UInt8 32) : Bytes := hash.toList.flatMap hexByte

/-- In how many of the 64 places a text differs. A place behind its end is one of them. -/
def diffs (part hash : Bytes) : Nat :=
  ((List.range 64).map fun ii =>
    if part.length ≤ ii then 1 else if part[ii]? = hash[ii]? then 0 else 1).sum

/-! ## Handing tokens out -/

def respHead : Json := .object [(ascii "alg", .string (ascii "BLAKE2b")),
  (ascii "typ", .string (ascii "JWT"))]

def respPayload (login : Bytes) (expiration : Int) : Json :=
  .object [(ascii "expiration", .number expiration), (ascii "login", .string login)]

namespace Server

variable (srv : Server)

/-- The MAC of what stands before the second dot. -/
def signature (info : TokenPasswordInfo) (front : Bytes) : Bytes :=
  hashStr (srv.kit.genericHash info.secret front)

/-- The login and the password in the body, which can be one level further down. -/
def readRequest (authReqBody : Bytes) : Option (Bytes × Bytes) := do
  let parsedBody ← srv.kit.parse authReqBody
  if parsedBody.isNull then
    none
  else
    let request ← parsedBody.subscript (ascii "request")
    let part := if request.isNull then parsedBody else request
    let login ← (← part.subscript (ascii "username")).string?
    let password ← (← part.subscript (ascii "password")).string?
    some (login, password)

/-- At the time `now`, in seconds. -/
def createAuthToken_internal (port : Int) (now : Int) (authReqBody : Bytes) : Option Bytes := do
  let (login, password) ← srv.readRequest authReqBody
  let info ← srv.tokenPasswords port
  let saltedPassword ← info.saltedPasswords login
  if srv.kit.pwhashVerify saltedPassword password then
    let respHeadStr := srv.kit.base64URLEnc (← srv.kit.dump respHead)
    let respPayloadStr := srv.kit.base64URLEnc (← srv.kit.dump (respPayload login (now + 3600)))
    let respFrontPart := respHeadStr ++ dot :: respPayloadStr
    some (respFrontPart ++ dot :: srv.signature info respFrontPart)
  else none

/-! ## Looking at tokens -/

/-- The login and the expiration in a payload. -/
def readPayload (part : Bytes) : Option (Bytes × Int) := do
  let parsedPayload ← srv.kit.parse (srv.kit.base64URLDec part)
  if parsedPayload.isNull then
    none
  else
    let login ← (← parsedPayload.subscript (ascii "login")).string?
    let expiration ← (← parsedPayload.subscript (ascii "expiration")).number?
    some (login, expiration)

def checkTokenAuthentication (port : Int) (now : Int) (authToken : Bytes) : Option Bytes := do
  let info ← srv.tokenPasswords port
  match authToken.splitOn dot with
  | [header, payload, sig] =>
      if diffs sig (srv.signature info (header ++ dot :: payload)) ≠ 0 then
        none
      else
        let (login, expiration) ← srv.readPayload payload
        if expiration < now then none else some login
  | _ => none

/-! ## What should be accepted -/

/-- A token of this port, whose payload has this login and has not expired. -/
structure Good (port : Int) (now : Int) (header payload login : Bytes) : Prop where
  dot_header : dot ∉ header
  dot_payload : dot ∉ payload
  reads : ∃ expiration, srv.readPayload payload = some (login, expiration) ∧ now ≤ expiration

/-- **The string is header, payload and MAC**, and the payload is for this login. -/
def Acceptable (port : Int) (now : Int) (s login : Bytes) : Prop :=
  ∃ info header payload, srv.tokenPasswords port = some info ∧
    srv.Good port now header payload login ∧
    s = header ++ dot :: payload ++ dot :: srv.signature info (header ++ dot :: payload)

/-- **A string is accepted exactly if it should be**, and for the login in the payload. -/
def Exact (port : Int) (now : Int) (s : Bytes) : Prop :=
  ∀ login, srv.checkTokenAuthentication port now s = some login ↔ srv.Acceptable port now s login

/-- An acceptable token, and something behind it without a dot. -/
def Trails (port : Int) (now : Int) (s : Bytes) : Prop :=
  ∃ token more login, s = token ++ more ∧ more ≠ [] ∧ dot ∉ more ∧
    srv.Acceptable port now token login

/-! ## Comparing -/

theorem length_hashStr (hash : Vector UInt8 32) : (hashStr hash).length = 64 := by
  have hlen : ∀ bs : Bytes, (bs.flatMap hexByte).length = 2 * bs.length := by
    intro bs
    induction bs with
    | nil => rfl
    | cons b bs ih =>
        rw [List.flatMap_cons, List.length_append, ih, hexByte, List.length_cons]
        simp only [List.length_cons, List.length_nil]
        omega
  rw [hashStr, hlen, Vector.length_toList]

theorem hexDigit_ne_dot : ∀ n < 16, hexDigit n ≠ dot := by decide

theorem dot_notMem_hashStr (hash : Vector UInt8 32) : dot ∉ hashStr hash := by
  intro h
  obtain ⟨b, -, hb⟩ := List.mem_flatMap.mp h
  have hlt := b.toNat_lt
  rw [hexByte, List.mem_cons, List.mem_singleton] at hb
  rcases hb with hb | hb
  · exact hexDigit_ne_dot (b.toNat / 16) (by omega) hb.symm
  · exact hexDigit_ne_dot (b.toNat % 16) (by omega) hb.symm

/-- **No difference in the 64 places**: the text begins with the digits. -/
theorem diffs_eq_zero_iff {part hash : Bytes} (hlen : hash.length = 64) :
    diffs part hash = 0 ↔ hash <+: part := by
  have hplace : diffs part hash = 0 ↔ ∀ ii < 64, ii < part.length ∧ part[ii]? = hash[ii]? := by
    rw [diffs, List.sum_eq_zero_iff_forall_eq_nat]
    simp only [List.mem_map, List.mem_range, forall_exists_index, and_imp,
      forall_apply_eq_imp_iff₂]
    refine forall₂_congr fun ii _ => ?_
    split
    · simp; omega
    · rename_i hlt
      split <;> simp_all
  rw [hplace, List.prefix_iff_getElem?]
  constructor
  · intro h ii hii
    rw [(h ii (hlen ▸ hii)).2, List.getElem?_eq_getElem hii]
  · intro h ii hii
    have hp := h ii (hlen ▸ hii)
    obtain ⟨hlt, -⟩ := List.getElem?_eq_some_iff.mp hp
    exact ⟨hlt, by rw [hp, List.getElem?_eq_getElem]⟩

theorem splitOn_three {header payload sig : Bytes} (hh : dot ∉ header) (hp : dot ∉ payload)
    (hs : dot ∉ sig) :
    (header ++ dot :: payload ++ dot :: sig).splitOn dot = [header, payload, sig] := by
  rw [List.append_assoc, List.cons_append, List.splitOn_append_cons_self_of_not_mem hh,
    List.splitOn_append_cons_self_of_not_mem hp, List.splitOn_eq_singleton hs]

theorem eq_of_splitOn {s header payload sig : Bytes}
    (h : s.splitOn dot = [header, payload, sig]) :
    s = header ++ dot :: payload ++ dot :: sig ∧ dot ∉ header ∧ dot ∉ payload ∧ dot ∉ sig := by
  have hno : ∀ p ∈ [header, payload, sig], dot ∉ p := fun p hp =>
    Splitting.not_mem_of_mem_splitOn (h ▸ hp)
  refine ⟨?_, hno _ (by simp), hno _ (by simp), hno _ (by simp)⟩
  have hj : [dot].intercalate (s.splitOn dot) = s := List.intercalate_splitOn dot
  rw [h] at hj
  rw [← hj]
  simp [List.intercalate]

variable {srv} {port now : Int} {s login : Bytes}

theorem length_signature (info : TokenPasswordInfo) (front : Bytes) :
    (srv.signature info front).length = 64 :=
  length_hashStr _

theorem dot_notMem_signature (srv : Server) (info : TokenPasswordInfo) (front : Bytes) :
    dot ∉ srv.signature info front :=
  dot_notMem_hashStr _

/-- What has been looked at when a token is accepted. -/
theorem checkTokenAuthentication_eq_some :
    srv.checkTokenAuthentication port now s = some login ↔
      ∃ info header payload sig, srv.tokenPasswords port = some info ∧
        s.splitOn dot = [header, payload, sig] ∧
        srv.signature info (header ++ dot :: payload) <+: sig ∧
        ∃ expiration, srv.readPayload payload = some (login, expiration) ∧ now ≤ expiration := by
  constructor
  · intro h
    cases hi : srv.tokenPasswords port with
    | none => simp [checkTokenAuthentication, hi] at h
    | some info =>
        simp only [checkTokenAuthentication, hi, Option.bind_eq_bind, Option.bind_some] at h
        split at h
        · rename_i header payload sig hs
          split at h
          · cases h
          · rename_i hd
            obtain ⟨⟨l, expiration⟩, hr, hl⟩ := Option.bind_eq_some_iff.mp h
            split at hl
            · cases hl
            · cases hl
              have hpre := (diffs_eq_zero_iff (length_signature info _)).mp (not_not.mp hd)
              exact ⟨info, header, payload, sig, rfl, hs, hpre, expiration, hr, by omega⟩
        · cases h
  · intro ⟨info, header, payload, sig, hi, hs, hpre, expiration, hr, hle⟩
    have hd := (diffs_eq_zero_iff (length_signature info _)).mpr hpre
    simp only [checkTokenAuthentication, hi, Option.bind_eq_bind, Option.bind_some, hs, hd, hr,
      ne_eq, not_true_eq_false, if_false]
    rw [if_neg (by omega)]

/-- The parts of a token with something behind it. -/
theorem splitOn_token (info : TokenPasswordInfo) {header payload more : Bytes}
    (hgood : srv.Good port now header payload login) (hmore : dot ∉ more) :
    (header ++ dot :: payload ++ dot :: srv.signature info (header ++ dot :: payload) ++
      more).splitOn dot =
      [header, payload, srv.signature info (header ++ dot :: payload) ++ more] := by
  have hno : dot ∉ srv.signature info (header ++ dot :: payload) ++ more := by
    rw [List.mem_append, not_or]
    exact ⟨dot_notMem_signature srv _ _, hmore⟩
  rw [← splitOn_three hgood.dot_header hgood.dot_payload hno]
  simp

/-- **What is accepted**: an acceptable token, and then anything without a dot. -/
theorem accepts_iff :
    srv.checkTokenAuthentication port now s = some login ↔
      ∃ token more, s = token ++ more ∧ dot ∉ more ∧ srv.Acceptable port now token login := by
  rw [checkTokenAuthentication_eq_some]
  constructor
  · intro ⟨info, header, payload, sig, hi, hs, ⟨more, hmore⟩, hread⟩
    obtain ⟨hs, hh, hp, hsig⟩ := eq_of_splitOn hs
    refine ⟨_, more, ?_, fun hm => hsig (hmore ▸ List.mem_append_right _ hm),
      info, header, payload, hi, ⟨hh, hp, hread⟩, rfl⟩
    rw [hs, ← hmore]
    simp
  · intro ⟨token, more, hs, hmore, info, header, payload, hi, hgood, htoken⟩
    refine ⟨info, header, payload, _, hi, ?_, List.prefix_append _ more, hgood.reads⟩
    rw [hs, htoken]
    exact splitOn_token info hgood hmore

/-- The MAC ends where it should. -/
theorem length_of_acceptable (h : srv.Acceptable port now s login) :
    (s.splitOn dot).getLast?.map List.length = some 64 := by
  obtain ⟨info, header, payload, -, hgood, hs⟩ := h
  have hparts := splitOn_token info hgood List.not_mem_nil
  rw [List.append_nil, List.append_nil, ← hs] at hparts
  rw [hparts, List.getLast?_cons_cons, List.getLast?_cons_cons, List.getLast?_singleton,
    Option.map_some, length_signature]

/-- An acceptable token has nothing behind it. -/
theorem not_acceptable_of_trails (h : srv.Trails port now s) (login : Bytes) :
    ¬ srv.Acceptable port now s login := by
  intro hacc
  obtain ⟨token, more, login', hs, hne, hdot, info, header, payload, -, hgood, htoken⟩ := h
  have hlen := length_of_acceptable hacc
  have hparts := splitOn_token info hgood hdot
  rw [← htoken, ← hs] at hparts
  rw [hparts, List.getLast?_cons_cons, List.getLast?_cons_cons, List.getLast?_singleton,
    Option.map_some, Option.some.injEq, List.length_append, length_signature] at hlen
  exact hne (List.eq_nil_of_length_eq_zero (by omega))

theorem exact_iff (port now : Int) (s : Bytes) :
    srv.Exact port now s ↔ ¬ srv.Trails port now s := by
  constructor
  · intro h ht
    have ⟨token, more, login, hs, _, hdot, hgood⟩ := ht
    have hacc := accepts_iff.mpr ⟨token, more, hs, hdot, hgood⟩
    exact not_acceptable_of_trails ht login ((h login).mp hacc)
  · intro ht login
    rw [accepts_iff]
    constructor
    · intro ⟨token, more, hs, hdot, hgood⟩
      have hnil : more = [] := by
        by_contra hne
        exact ht ⟨token, more, login, hs, hne, hdot, hgood⟩
      rw [hs, hnil, List.append_nil]
      exact hgood
    · intro h
      exact ⟨s, [], (List.append_nil s).symm, List.not_mem_nil, h⟩

end Server

/-! ## Reading what has been written -/

/-- What is relied on: the documented output of base64, and that a JSON text says what it
has been written for. The expiration is an `int64_t`. -/
structure Toolkit.Lawful (kit : Toolkit) : Prop where
  encode_shape : ∀ bs, ∃ core k, kit.base64Encode bs = core ++ List.replicate k Base64.fill ∧
    (∀ c ∈ core, Base64.IsDigit c) ∧ k ≤ 2 ∧ (core.length + k) % 4 = 0
  decode_encode : ∀ bs, kit.base64Decode (kit.base64Encode bs) = bs
  parse_dump : ∀ login (e : Int) text, -2 ^ 63 ≤ e → e < 2 ^ 63 →
    kit.dump (respPayload login e) = some text → kit.parse text = some (respPayload login e)

/-- The characters of base64 for URLs, and back. -/
def toURL (cs : Bytes) : Bytes :=
  replaceAll '/'.toUInt8 '_'.toUInt8 (replaceAll '+'.toUInt8 '-'.toUInt8 cs)

def fromURL (cs : Bytes) : Bytes :=
  replaceAll '_'.toUInt8 '/'.toUInt8 (replaceAll '-'.toUInt8 '+'.toUInt8 cs)

theorem digit_url : ∀ n < 64, fromURL (toURL [Base64.digit n]) = [Base64.digit n] ∧
    Base64.fill ∉ toURL [Base64.digit n] ∧ dot ∉ toURL [Base64.digit n] := by
  decide +kernel

theorem toURL_cons (c : UInt8) (cs : Bytes) : toURL (c :: cs) = toURL [c] ++ toURL cs := rfl

theorem toURL_append (cs ds : Bytes) : toURL (cs ++ ds) = toURL cs ++ toURL ds := by
  simp [toURL, replaceAll]

theorem fromURL_append (cs ds : Bytes) : fromURL (cs ++ ds) = fromURL cs ++ fromURL ds := by
  simp [fromURL, replaceAll]

@[simp] theorem length_toURL (cs : Bytes) : (toURL cs).length = cs.length := by
  simp [toURL, replaceAll]

theorem url_of_digits {core : Bytes} (h : ∀ c ∈ core, Base64.IsDigit c) :
    fromURL (toURL core) = core ∧ Base64.fill ∉ toURL core ∧ dot ∉ toURL core := by
  induction core with
  | nil => exact ⟨rfl, List.not_mem_nil, List.not_mem_nil⟩
  | cons c cs ih =>
      obtain ⟨n, hn, rfl⟩ := h c List.mem_cons_self
      obtain ⟨hback, hfill, hdot⟩ := digit_url n hn
      obtain ⟨ihback, ihfill, ihdot⟩ := ih fun d hd => h d (List.mem_cons_of_mem _ hd)
      rw [toURL_cons, fromURL_append, hback, ihback]
      refine ⟨rfl, ?_, ?_⟩
      · rw [List.mem_append, not_or]
        exact ⟨hfill, ihfill⟩
      · rw [List.mem_append, not_or]
        exact ⟨hdot, ihdot⟩

theorem dropFill_replicate {n k : Nat} (hk : k ≤ n) {cs : Bytes} (h : Base64.fill ∉ cs) :
    dropFill n (List.replicate k Base64.fill ++ cs) = cs := by
  induction k generalizing n with
  | zero =>
      rw [List.replicate_zero, List.nil_append]
      cases n with
      | zero => rfl
      | succ n =>
          cases cs with
          | nil => rfl
          | cons c cs =>
              rw [dropFill, if_neg]
              intro hc
              exact h (hc ▸ List.mem_cons_self)
  | succ k ih =>
      obtain ⟨n, rfl⟩ : ∃ m, n = m + 1 := ⟨n - 1, by omega⟩
      rw [List.replicate_succ, List.cons_append, dropFill, if_pos rfl]
      exact ih (by omega)

namespace Toolkit

variable {kit : Toolkit}

/-- Encoding for URLs leaves the digits, in their other spelling. -/
theorem base64URLEnc_eq {bs core : Bytes} {k : Nat}
    (he : kit.base64Encode bs = core ++ List.replicate k Base64.fill)
    (hcore : ∀ c ∈ core, Base64.IsDigit c) (hk : k ≤ 4) : kit.base64URLEnc bs = toURL core := by
  have hfill : toURL (List.replicate k Base64.fill) = List.replicate k Base64.fill := by
    simp only [toURL, replaceAll, List.map_replicate]
    rfl
  have hsplit : toURL (core ++ List.replicate k Base64.fill) =
      toURL core ++ List.replicate k Base64.fill := by
    rw [toURL_append, hfill]
  rw [base64URLEnc, he]
  split
  · have hno : Base64.fill ∉ (toURL core).reverse := by
      rw [List.mem_reverse]
      exact (url_of_digits hcore).2.1
    show (dropFill 4 (toURL (core ++ List.replicate k Base64.fill)).reverse).reverse = _
    rw [hsplit, List.reverse_append, List.reverse_replicate, dropFill_replicate hk hno,
      List.reverse_reverse]
  · rename_i hlen
    have hnil := List.eq_nil_of_length_eq_zero (Nat.eq_zero_of_not_pos hlen)
    rw [hnil, (List.append_eq_nil_iff.mp hnil).1]
    rfl

/-- **The decoder for URLs undoes the encoder**, whatever the length. -/
theorem base64URLDec_base64URLEnc (h : kit.Lawful) (bs : Bytes) :
    kit.base64URLDec (kit.base64URLEnc bs) = bs := by
  obtain ⟨core, k, he, hcore, hk, hlen⟩ := h.encode_shape bs
  have hback := (url_of_digits hcore).1
  rw [base64URLEnc_eq he hcore (by omega)]
  have hpad : (if 0 < (toURL core).length then
      if (fromURL (toURL core)).length % 4 ≠ 0 then
        fromURL (toURL core) ++
          List.replicate (4 - (fromURL (toURL core)).length % 4) Base64.fill
      else fromURL (toURL core)
      else toURL core) = core ++ List.replicate k Base64.fill := by
    rw [hback, length_toURL]
    split
    · split
      · have : 4 - core.length % 4 = k := by omega
        rw [this]
      · have : k = 0 := by omega
        rw [this, List.replicate_zero, List.append_nil]
    · have hnil : core = [] := List.eq_nil_of_length_eq_zero (by omega)
      have : k = 0 := by rw [hnil, List.length_nil] at hlen; omega
      rw [hnil, this]
      rfl
  have hdec : kit.base64URLDec (toURL core) = kit.base64Decode (kit.base64Encode bs) := by
    rw [he, ← hpad]
    rfl
  rw [hdec, h.decode_encode]

theorem dot_notMem_base64URLEnc (h : kit.Lawful) (bs : Bytes) :
    dot ∉ kit.base64URLEnc bs := by
  obtain ⟨core, k, he, hcore, hk, -⟩ := h.encode_shape bs
  rw [base64URLEnc_eq he hcore (by omega)]
  exact (url_of_digits hcore).2.2

end Toolkit

namespace Server

variable {srv : Server} {port now t : Int}

theorem readPayload_respPayload (h : srv.kit.Lawful) {login text : Bytes} {e : Int}
    (hlo : -2 ^ 63 ≤ e) (hhi : e < 2 ^ 63)
    (hd : srv.kit.dump (respPayload login e) = some text) :
    srv.readPayload (srv.kit.base64URLEnc text) = some (login, e) := by
  have hp := h.parse_dump login e text hlo hhi hd
  rw [readPayload, Toolkit.base64URLDec_base64URLEnc h, hp]
  rfl

/-- What a token is that has been handed out. -/
theorem created_shape (h : srv.kit.Lawful) (hlo : -2 ^ 63 ≤ t + 3600) (hhi : t + 3600 < 2 ^ 63)
    {authReqBody token : Bytes}
    (hc : srv.createAuthToken_internal port t authReqBody = some token) :
    ∃ login password info header payload,
      srv.readRequest authReqBody = some (login, password) ∧
      srv.tokenPasswords port = some info ∧ dot ∉ header ∧ dot ∉ payload ∧
      srv.readPayload payload = some (login, t + 3600) ∧
      token = header ++ dot :: payload ++ dot :: srv.signature info (header ++ dot :: payload) := by
  obtain ⟨⟨login, password⟩, hr, hc⟩ := Option.bind_eq_some_iff.mp hc
  obtain ⟨info, hi, hc⟩ := Option.bind_eq_some_iff.mp hc
  obtain ⟨salted, -, hc⟩ := Option.bind_eq_some_iff.mp hc
  split at hc
  · obtain ⟨headText, -, hc⟩ := Option.bind_eq_some_iff.mp hc
    obtain ⟨payloadText, hpay, hc⟩ := Option.bind_eq_some_iff.mp hc
    cases hc
    exact ⟨login, password, info, _, _, hr, hi, Toolkit.dot_notMem_base64URLEnc h headText,
      Toolkit.dot_notMem_base64URLEnc h payloadText, readPayload_respPayload h hlo hhi hpay, rfl⟩
  · cases hc

/-- **A token that has been handed out** is accepted until it expires, for the login that it
has been handed out to. -/
theorem accepts_created (h : srv.kit.Lawful) (hlo : -2 ^ 63 ≤ t + 3600) (hhi : t + 3600 < 2 ^ 63)
    {authReqBody token : Bytes}
    (hc : srv.createAuthToken_internal port t authReqBody = some token) :
    ∃ login password, srv.readRequest authReqBody = some (login, password) ∧
      ∀ now, srv.checkTokenAuthentication port now token = some login ↔ now ≤ t + 3600 := by
  obtain ⟨login, password, info, header, payload, hr, hi, hh, hp, hread, rfl⟩ :=
    created_shape h hlo hhi hc
  refine ⟨login, password, hr, fun now => ?_⟩
  have hsplit := splitOn_three hh hp (dot_notMem_signature srv info (header ++ dot :: payload))
  rw [checkTokenAuthentication_eq_some]
  constructor
  · intro ⟨info', header', payload', sig, hi', hs, hpre, e, hr', hle⟩
    rw [hsplit] at hs
    cases hs
    rw [hread] at hr'
    cases hr'
    exact hle
  · intro hle
    exact ⟨info, _, _, _, hi, hsplit, List.prefix_rfl, t + 3600, hread, hle⟩

end Server

/-! ## Tokens and no others -/

/-- **A string is treated as it should be exactly if it is no acceptable token with more
behind it**, and what is handed out is accepted until it expires. -/
theorem exact_iff_nothingTrails (srv : Server) (h : srv.kit.Lawful) :
    (∀ port now s, srv.Exact port now s ↔ ¬ srv.Trails port now s) ∧
      ∀ (port t : Int) (authReqBody token : Bytes), -2 ^ 63 ≤ t + 3600 → t + 3600 < 2 ^ 63 →
        srv.createAuthToken_internal port t authReqBody = some token →
          ∃ login password, srv.readRequest authReqBody = some (login, password) ∧
            ∀ now, srv.checkTokenAuthentication port now token = some login ↔ now ≤ t + 3600 :=
  ⟨fun port now s => srv.exact_iff port now s,
    fun _ _ _ _ hlo hhi hc => Server.accepts_created h hlo hhi hc⟩

/-! ### A server -/

def ofFlat (ms : FlatJson.Members) : Json :=
  .object (ms.map fun m => (m.1, match m.2 with
    | .number n => .number n
    | .string s => .string s))

def toFlat : Json → Option FlatJson.Members
  | .object members => members.mapM fun m =>
      match m.2 with
      | .number n => some (m.1, .number n)
      | .string s => some (m.1, .string s)
      | _ => none
  | _ => none

/-- Some function for the MAC, and passwords that are kept as they are. -/
def demoKit : Toolkit where
  base64Encode := Base64.encode
  base64Decode := Base64.decode
  parse := fun cs => (FlatJson.read cs).map ofFlat
  dump := fun j => (toFlat j).bind fun ms =>
    if FlatJson.Plain ms then some (FlatJson.text ms) else none
  genericHash := fun secret front =>
    .ofFn fun i => front.foldl (fun h c => 31 * h + c) (secret[i] + i.val.toUInt8)
  pwhashVerify := fun salted password => salted == password

theorem demoKit_lawful : demoKit.Lawful where
  encode_shape := Base64.encode_shape
  decode_encode := Base64.decode_encode
  parse_dump := by
    intro login e text _ _ h
    have hflat : toFlat (respPayload login e) =
        some [(ascii "expiration", .number e), (ascii "login", .string login)] := rfl
    simp only [demoKit, hflat, Option.bind_some] at h ⊢
    split at h
    · rename_i hplain
      cases h
      rw [FlatJson.read_text hplain]
      rfl
    · cases h

def demo : Server where
  kit := demoKit
  tokenPasswords := fun port =>
    if port = 8080 then
      some { secret := .replicate 64 7
             saltedPasswords := fun login =>
               if login = ascii "al" then some (ascii "pw") else none }
    else none

def demoBody : Bytes := [123] ++ FlatJson.stringText (ascii "username") ++ ascii ":" ++
  FlatJson.stringText (ascii "al") ++ ascii "," ++ FlatJson.stringText (ascii "password") ++
  ascii ":" ++ FlatJson.stringText (ascii "pw") ++ [125]

def demoToken : Bytes :=
  ascii "eyJhbGciOiJCTEFLRTJiIiwidHlwIjoiSldUIn0" ++ dot ::
    ascii "eyJleHBpcmF0aW9uIjo0NjAwLCJsb2dpbiI6ImFsIn0" ++ dot ::
    ascii "F150AF0E6DCC2B8AE948A70665C42382E1409FFE5DBC1B7AD93897F655B41372"

theorem demo_created : demo.createAuthToken_internal 8080 1000 demoBody = some demoToken := by
  decide +kernel

/-- The token is good for an hour. -/
theorem exact_demo :
    demo.Exact 8080 4600 [] ∧
      ∃ login password, demo.readRequest demoBody = some (login, password) ∧
        ∀ now, demo.checkTokenAuthentication 8080 now demoToken = some login ↔
          now ≤ 1000 + 3600 := by
  have h := exact_iff_nothingTrails demo demoKit_lawful
  refine ⟨(h.1 8080 4600 []).mpr ?_,
    h.2 8080 1000 demoBody demoToken (by decide) (by decide) demo_created⟩
  intro ⟨token, more, login, hs, hne, _⟩
  exact hne (List.append_eq_nil_iff.mp hs.symm).2

/-- The token that has been handed out is accepted with another character behind it. -/
theorem not_exact_trailing :
    demo.createAuthToken_internal 8080 1000 demoBody = some demoToken ∧
      ¬ demo.Exact 8080 4600 (demoToken ++ ascii "x") := by
  refine ⟨demo_created, fun h => ?_⟩
  have hacc : demo.checkTokenAuthentication 8080 4600 (demoToken ++ ascii "x") =
      some (ascii "al") := by
    decide +kernel
  have hlen := Server.length_of_acceptable ((h (ascii "al")).mp hacc)
  exact absurd hlen (by decide +kernel)

end Tokens
