import TMTransport.JsonREST.Requests

/-!
# Who is let in

The two tables of a port are made by calls, in any order. A handler is for those who
show a token of the port, or a password where there are no tokens; where there is no
table, it is for all. A document is for all, too, where there are tokens, and nobody is
asked for a password then (`guarded_iff_tight`).

The password check and the MAC are taken as ideal: a hash verifies the password that it
is made from, and no other; and who shows a MAC under the secret of a port has it from
the server.
-/

namespace RestServer

open PosixPath (Path)
open Documents
open Tokens (Bytes ascii)

/-- A call that lets a login in. A port draws its secret when it is given its first token login. -/
inductive AuthCall where
  | basic (port : Int) (login : Bytes) (password : Option Bytes)
  | basicSalted (port : Int) (login saltedPassword : Bytes)
  | token (port : Int) (login password : Bytes) (secret : Vector UInt8 64)
  | tokenSalted (port : Int) (login saltedPassword : Bytes) (secret : Vector UInt8 64)

variable {H : Type}

namespace Server

variable (pwhashStr : Bytes → Option Bytes) (srv : Server H)

def passwordsOf (port : Int) : Bytes → Option (Option Bytes) :=
  (srv.allPasswords port).getD fun _ => none

/-- `addBasicAuthentication`. Hashing can fail, by an exception. -/
def addBasicAuthentication (port : Int) (login : Bytes) (password : Option Bytes) : Server H :=
  let passwords := srv.passwordsOf port
  { srv with allPasswords := Function.update srv.allPasswords port (some
      (match password with
      | none => Function.update passwords login (some none)
      | some password =>
        match pwhashStr password with
        | none => passwords
        | some hashed => Function.update passwords login (some (some hashed)))) }

def addBasicAuthentication_salted (port : Int) (login saltedPassword : Bytes) : Server H :=
  { srv with allPasswords := Function.update srv.allPasswords port (some
      (Function.update (srv.passwordsOf port) login (some (some saltedPassword)))) }

def tokenInfoOf (port : Int) (secret : Vector UInt8 64) : Tokens.TokenPasswordInfo :=
  (srv.tokens.tokenPasswords port).getD ⟨secret, fun _ => none⟩

def setTokenInfo (port : Int) (info : Tokens.TokenPasswordInfo) : Server H :=
  { srv with tokens := { srv.tokens with
      tokenPasswords := Function.update srv.tokens.tokenPasswords port (some info) } }

def addTokenAuthentication (port : Int) (login password : Bytes) (secret : Vector UInt8 64) :
    Server H :=
  let info := srv.tokenInfoOf port secret
  srv.setTokenInfo port
    (match pwhashStr password with
    | none => info
    | some hashed =>
      { info with saltedPasswords := Function.update info.saltedPasswords login (some hashed) })

def addTokenAuthentication_salted (port : Int) (login saltedPassword : Bytes)
    (secret : Vector UInt8 64) : Server H :=
  let info := srv.tokenInfoOf port secret
  srv.setTokenInfo port { info with
    saltedPasswords := Function.update info.saltedPasswords login (some saltedPassword) }

def call : AuthCall → Server H
  | .basic port login password => srv.addBasicAuthentication pwhashStr port login password
  | .basicSalted port login saltedPassword =>
    srv.addBasicAuthentication_salted port login saltedPassword
  | .token port login password secret =>
    srv.addTokenAuthentication pwhashStr port login password secret
  | .tokenSalted port login saltedPassword secret =>
    srv.addTokenAuthentication_salted port login saltedPassword secret

/-- The server after some calls. -/
def after (calls : List AuthCall) : Server H := calls.foldl (call pwhashStr) srv

end Server

/-- A server with handlers and document roots, and no tables. -/
def bare (kit : Tokens.Toolkit) (handlerMap : Int → Option (Bytes → Option H))
    (docRootMap : Int → Option Path) : Server H :=
  ⟨⟨kit, fun _ => none⟩, fun _ => none, handlerMap, docRootMap⟩

/-! ## What has been asked for -/

/-- How a login is registered. -/
inductive Registered where
  | free
  | password (p : Bytes)
  | salted (s : Bytes)

/-- A call that is about basic authentication on the port. -/
def AuthCall.IsBasic (port : Int) : AuthCall → Prop
  | .basic p _ _ => p = port
  | .basicSalted p _ _ => p = port
  | _ => False

def AuthCall.IsToken (port : Int) : AuthCall → Prop
  | .token p _ _ _ => p = port
  | .tokenSalted p _ _ _ => p = port
  | _ => False

def HasBasic (calls : List AuthCall) (port : Int) : Prop := ∃ c ∈ calls, c.IsBasic port

def HasToken (calls : List AuthCall) (port : Int) : Prop := ∃ c ∈ calls, c.IsToken port

variable (pwhashStr : Bytes → Option Bytes)

/-- What the call makes of the registration of a login. -/
def AuthCall.register (port : Int) (login : Bytes) (r : Option Registered) :
    AuthCall → Option Registered
  | .basic p l password =>
    if p = port ∧ l = login then
      match password with
      | none => some .free
      | some password => if pwhashStr password = none then r else some (.password password)
    else r
  | .basicSalted p l s => if p = port ∧ l = login then some (.salted s) else r
  | _ => r

/-- How the login is registered, after some calls. -/
def registered (calls : List AuthCall) (port : Int) (login : Bytes) : Option Registered :=
  calls.foldl (AuthCall.register pwhashStr port login) none

variable (kit : Tokens.Toolkit)

def Registered.Verifies : Registered → Bytes → Prop
  | .free, _ => True
  | .password p, shown => shown = p
  | .salted s, shown => kit.pwhashVerify s shown = true

/-- The login and the password are registered. -/
def Verified (calls : List AuthCall) (port : Int) (login password : Bytes) : Prop :=
  ∃ r, registered pwhashStr calls port login = some r ∧ r.Verifies kit password

/-- The request carries basic credentials, for this login, that verify. -/
def ShowsBasic (calls : List AuthCall) (port : Int) (authStr login : Bytes) : Prop :=
  basicScheme.isPrefixOf authStr = true ∧ (Credentials.read kit authStr).login = login ∧
    Verified pwhashStr kit calls port login (Credentials.read kit authStr).password

variable (srv : Server H)

/-- The port has handed the token out at the time `t`, for this login. -/
def Created (calls : List AuthCall) (port t : Int) (token login : Bytes) : Prop :=
  -2 ^ 63 ≤ t + 3600 ∧ t + 3600 < 2 ^ 63 ∧ ∃ calls' authReqBody password, calls' <+: calls ∧
    (srv.after pwhashStr calls').tokens.createAuthToken_internal port t authReqBody = some token ∧
    (srv.after pwhashStr calls').tokens.readRequest authReqBody = some (login, password)

/-- It has, and the token has not expired. -/
def Issued (calls : List AuthCall) (port now : Int) (token login : Bytes) : Prop :=
  ∃ t, Created pwhashStr srv calls port t token login ∧ now ≤ t + 3600

def ShowsToken (calls : List AuthCall) (port now : Int) (authStr login : Bytes) : Prop :=
  Issued pwhashStr srv calls port now (Credentials.read srv.tokens.kit authStr).authToken login

/-- A text with its MAC under the secret of the port comes from the server. -/
def Unforged (calls : List AuthCall) (port : Int) (s : Bytes) : Prop :=
  ∀ info header payload, (srv.after pwhashStr calls).tokens.tokenPasswords port = some info →
    Tokens.dot ∉ header → Tokens.dot ∉ payload →
      header ++ Tokens.dot :: payload ++ Tokens.dot :: (srv.after pwhashStr calls).tokens.signature
        info (header ++ Tokens.dot :: payload) <+: s →
          ∃ t login, Created pwhashStr srv calls port t
            (header ++ Tokens.dot :: payload ++ Tokens.dot ::
              (srv.after pwhashStr calls).tokens.signature info (header ++ Tokens.dot :: payload))
            login

/-- The gate. -/
structure Guarded (calls : List AuthCall) (disk : Disk) (port now : Int) (req : Request) :
    Prop where
  handlers : ∀ handler login body queryMap,
    (srv.after pwhashStr calls).onRead disk port now req =
        .invoked handler login body queryMap →
      (¬ HasBasic calls port ∧ ¬ HasToken calls port) ∨
        ShowsToken pwhashStr srv calls port now req.authorization login ∨
        (HasBasic calls port ∧ ¬ HasToken calls port ∧
          ShowsBasic pwhashStr srv.tokens.kit calls port req.authorization login)
  files : HasBasic calls port → ∀ doc,
    (srv.after pwhashStr calls).onRead disk port now req = .file doc →
      ∃ login, ShowsToken pwhashStr srv calls port now req.authorization login ∨
        ShowsBasic pwhashStr srv.tokens.kit calls port req.authorization login

/-- There is something that the gate is for. -/
def Reaches (calls : List AuthCall) (disk : Disk) (port : Int) (req : Request) : Prop :=
  pathStr req.target ≠ tokenAuthenticationRequest ∧
    ((srv.handlerFor port req).isSome ∨
      HasBasic calls port ∧ (srv.docFor disk port req).isSome)

/-- When the gate does what it is for. -/
structure Tight (calls : List AuthCall) (disk : Disk) (port now : Int) (req : Request) : Prop where
  /-- Nothing stands behind a token. -/
  whole : Reaches srv calls disk port req → ∀ token more login,
    (Credentials.read srv.tokens.kit req.authorization).authToken = token ++ more → more ≠ [] →
      Tokens.dot ∉ more → ¬ Issued pwhashStr srv calls port now token login
  /-- Where passwords are asked for, there is none for nobody. -/
  named : Reaches srv calls disk port req → HasBasic calls port → ¬ HasToken calls port →
    basicScheme.isPrefixOf req.authorization = false →
      (Credentials.read srv.tokens.kit req.authorization).authToken = [] →
        ¬ Verified pwhashStr srv.tokens.kit calls port [] []
  /-- A document is asked for with a password also where there are tokens. -/
  asked : Reaches srv calls disk port req → HasBasic calls port → HasToken calls port →
    srv.handlerFor port req = none →
      (Credentials.read srv.tokens.kit req.authorization).authToken = [] →
        ∃ login, ShowsBasic pwhashStr srv.tokens.kit calls port req.authorization login

/-! ## The tables -/

section Tables

variable {pwhashStr kit} {srv : Server H} {calls : List AuthCall} {port now : Int}

theorem after_append (calls : List AuthCall) (c : AuthCall) :
    srv.after pwhashStr (calls ++ [c]) = (srv.after pwhashStr calls).call pwhashStr c :=
  List.foldl_append

theorem registered_append (calls : List AuthCall) (c : AuthCall) (port : Int) (login : Bytes) :
    registered pwhashStr (calls ++ [c]) port login =
      c.register pwhashStr port login (registered pwhashStr calls port login) :=
  List.foldl_append

theorem hasBasic_append {c : AuthCall} :
    HasBasic (calls ++ [c]) port ↔ HasBasic calls port ∨ c.IsBasic port := by
  simp only [HasBasic, List.mem_append, List.mem_singleton, or_and_right, exists_or, exists_eq_left]

theorem hasToken_append {c : AuthCall} :
    HasToken (calls ++ [c]) port ↔ HasToken calls port ∨ c.IsToken port := by
  simp only [HasToken, List.mem_append, List.mem_singleton, or_and_right, exists_or, exists_eq_left]

/-- A call leaves the tables alone that it is not about, and all that is no table. -/
theorem call_frame (pwhashStr : Bytes → Option Bytes) (srv : Server H) (port : Int)
    (c : AuthCall) :
    (srv.call pwhashStr c).tokens.kit = srv.tokens.kit ∧
      (srv.call pwhashStr c).handlerMap = srv.handlerMap ∧
      (srv.call pwhashStr c).docRootMap = srv.docRootMap ∧
      (¬ c.IsBasic port → (srv.call pwhashStr c).allPasswords port = srv.allPasswords port) ∧
      (¬ c.IsToken port →
        (srv.call pwhashStr c).tokens.tokenPasswords port = srv.tokens.tokenPasswords port) := by
  cases c with
  | basic p l password =>
      exact ⟨rfl, rfl, rfl, fun h => Function.update_of_ne (Ne.symm h) _ _, fun _ => rfl⟩
  | basicSalted p l s =>
      exact ⟨rfl, rfl, rfl, fun h => Function.update_of_ne (Ne.symm h) _ _, fun _ => rfl⟩
  | token p l password secret =>
      exact ⟨rfl, rfl, rfl, fun _ => rfl, fun h => Function.update_of_ne (Ne.symm h) _ _⟩
  | tokenSalted p l s secret =>
      exact ⟨rfl, rfl, rfl, fun _ => rfl, fun h => Function.update_of_ne (Ne.symm h) _ _⟩

theorem after_frame (calls : List AuthCall) :
    (srv.after pwhashStr calls).tokens.kit = srv.tokens.kit ∧
      (srv.after pwhashStr calls).handlerMap = srv.handlerMap ∧
      (srv.after pwhashStr calls).docRootMap = srv.docRootMap := by
  induction calls using List.reverseRecOn with
  | nil => exact ⟨rfl, rfl, rfl⟩
  | append_singleton calls c ih =>
      have hframe := call_frame pwhashStr (srv.after pwhashStr calls) 0 c
      rw [after_append, hframe.1, hframe.2.1, hframe.2.2.1]
      exact ih

/-- What stands in the table for a login. -/
def Registered.entry (pwhashStr : Bytes → Option Bytes) : Registered → Option Bytes
  | .free => none
  | .password p => pwhashStr p
  | .salted s => some s

/-- The table of a call of `addBasicAuthentication`, for its port. -/
theorem passwordsOf_basic (p : Int) (l : Bytes) (password : Option Bytes) :
    (srv.addBasicAuthentication pwhashStr p l password).passwordsOf p =
      match password with
      | none => Function.update (srv.passwordsOf p) l (some none)
      | some password =>
        match pwhashStr password with
        | none => srv.passwordsOf p
        | some hashed => Function.update (srv.passwordsOf p) l (some (some hashed)) := by
  unfold Server.passwordsOf Server.addBasicAuthentication
  dsimp only
  rw [Function.update_self]
  rfl

theorem passwordsOf_salted (p : Int) (l s : Bytes) :
    (srv.addBasicAuthentication_salted p l s).passwordsOf p =
      Function.update (srv.passwordsOf p) l (some (some s)) := by
  unfold Server.passwordsOf Server.addBasicAuthentication_salted
  dsimp only
  rw [Function.update_self]
  rfl

theorem register_basic (p : Int) (l : Bytes) (password : Option Bytes) (port : Int) (login : Bytes)
    (r : Option Registered) : (AuthCall.basic p l password).register pwhashStr port login r =
      if p = port ∧ l = login then
        match password with
        | none => some .free
        | some password => if pwhashStr password = none then r else some (.password password)
      else r :=
  rfl

theorem register_salted (p : Int) (l s : Bytes) (port : Int) (login : Bytes)
    (r : Option Registered) : (AuthCall.basicSalted p l s).register pwhashStr port login r =
      if p = port ∧ l = login then some (.salted s) else r :=
  rfl

/-- The step: what a call does to the table of a port is what it does to the registrations. -/
theorem passwordsOf_call (c : AuthCall) {r : Option Registered} {login : Bytes}
    (h : srv.passwordsOf port login = r.map (Registered.entry pwhashStr)) :
    (srv.call pwhashStr c).passwordsOf port login =
      (c.register pwhashStr port login r).map (Registered.entry pwhashStr) := by
  have hother : ¬ c.IsBasic port →
      (srv.call pwhashStr c).passwordsOf port login = r.map (Registered.entry pwhashStr) :=
    fun hc => by
      rw [Server.passwordsOf, (call_frame pwhashStr _ port c).2.2.2.1 hc, ← h, Server.passwordsOf]
  cases c with
  | basic p l password =>
      rw [register_basic]
      by_cases hp : p = port
      · subst hp
        rw [show srv.call pwhashStr (.basic p l password) =
          srv.addBasicAuthentication pwhashStr p l password from rfl, passwordsOf_basic]
        by_cases hl : l = login
        · subst hl
          rw [if_pos ⟨rfl, rfl⟩]
          cases password with
          | none => exact Function.update_self _ _ _
          | some password =>
              dsimp only
              cases hhash : pwhashStr password with
              | none => exact h
              | some hashed =>
                  rw [if_neg (Option.some_ne_none _)]
                  dsimp only
                  rw [Function.update_self, Option.map_some, Registered.entry, hhash]
        · rw [if_neg fun heq => hl heq.2, ← h]
          cases password with
          | none => exact Function.update_of_ne (Ne.symm hl) _ _
          | some password =>
              dsimp only
              cases pwhashStr password with
              | none => rfl
              | some hashed => exact Function.update_of_ne (Ne.symm hl) _ _
      · rw [if_neg fun heq => hp heq.1]
        exact hother hp
  | basicSalted p l s =>
      rw [register_salted]
      by_cases hp : p = port
      · subst hp
        rw [show srv.call pwhashStr (.basicSalted p l s) =
          srv.addBasicAuthentication_salted p l s from rfl, passwordsOf_salted]
        by_cases hl : l = login
        · subst hl
          rw [if_pos ⟨rfl, rfl⟩, Function.update_self]
          rfl
        · rw [if_neg fun heq => hl heq.2, ← h]
          exact Function.update_of_ne (Ne.symm hl) _ _
      · rw [if_neg fun heq => hp heq.1]
        exact hother hp
  | token p l password secret => exact hother fun h => h
  | tokenSalted p l s secret => exact hother fun h => h

/-- The table has a port if it has been called for. -/
theorem allPasswords_call (c : AuthCall) (hc : c.IsBasic port) :
    (srv.call pwhashStr c).allPasswords port ≠ none := by
  cases c with
  | basic p l password =>
      obtain rfl : p = port := hc
      exact ne_of_eq_of_ne (Function.update_self _ _ _) (Option.some_ne_none _)
  | basicSalted p l s =>
      obtain rfl : p = port := hc
      exact ne_of_eq_of_ne (Function.update_self _ _ _) (Option.some_ne_none _)
  | token p l password secret => exact hc.elim
  | tokenSalted p l s secret => exact hc.elim

theorem setTokenInfo_self (port : Int) (info : Tokens.TokenPasswordInfo) :
    (srv.setTokenInfo port info).tokens.tokenPasswords port = some info :=
  Function.update_self _ _ _

/-- A call for tokens leaves the secret of a port that has one. -/
theorem tokenPasswords_call (c : AuthCall) :
    (c.IsToken port → (srv.call pwhashStr c).tokens.tokenPasswords port ≠ none) ∧
      ∀ info, srv.tokens.tokenPasswords port = some info →
        ∃ info', (srv.call pwhashStr c).tokens.tokenPasswords port = some info' ∧
          info'.secret = info.secret := by
  have hother : ¬ c.IsToken port → ∀ info, srv.tokens.tokenPasswords port = some info →
      ∃ info', (srv.call pwhashStr c).tokens.tokenPasswords port = some info' ∧
        info'.secret = info.secret := fun hc info hinfo =>
    ⟨info, by rw [(call_frame pwhashStr _ port c).2.2.2.2 hc, hinfo], rfl⟩
  cases c with
  | basic p l password => exact ⟨fun h => h.elim, hother fun h => h⟩
  | basicSalted p l s => exact ⟨fun h => h.elim, hother fun h => h⟩
  | token p l password secret =>
      by_cases hp : p = port
      · subst hp
        refine ⟨fun _ => ne_of_eq_of_ne (setTokenInfo_self _ _) (Option.some_ne_none _),
          fun info hinfo => ⟨_, setTokenInfo_self _ _, ?_⟩⟩
        rw [Server.tokenInfoOf, hinfo]
        cases pwhashStr password <;> rfl
      · exact ⟨fun h => absurd h hp, hother hp⟩
  | tokenSalted p l s secret =>
      by_cases hp : p = port
      · subst hp
        refine ⟨fun _ => ne_of_eq_of_ne (setTokenInfo_self _ _) (Option.some_ne_none _),
          fun info hinfo => ⟨_, setTokenInfo_self _ _, ?_⟩⟩
        rw [Server.tokenInfoOf, hinfo]
        rfl
      · exact ⟨fun h => absurd h hp, hother hp⟩

variable (pwhashStr kit) (handlerMap : Int → Option (Bytes → Option H))
  (docRootMap : Int → Option Path)

theorem allPasswords_after (calls : List AuthCall) (port : Int) :
    ((bare kit handlerMap docRootMap).after pwhashStr calls).allPasswords port ≠ none ↔
      HasBasic calls port := by
  induction calls using List.reverseRecOn with
  | nil => exact iff_of_false (fun h => h rfl) fun ⟨_, hc, _⟩ => (by cases hc)
  | append_singleton calls c ih =>
      rw [after_append, hasBasic_append, ← ih]
      by_cases hc : c.IsBasic port
      · exact iff_of_true (allPasswords_call c hc) (.inr hc)
      · rw [(call_frame pwhashStr _ port c).2.2.2.1 hc]
        exact ⟨.inl, fun h => h.resolve_right hc⟩

theorem tokenPasswords_after (calls : List AuthCall) (port : Int) :
    ((bare kit handlerMap docRootMap).after pwhashStr calls).tokens.tokenPasswords port ≠ none ↔
      HasToken calls port := by
  induction calls using List.reverseRecOn with
  | nil => exact iff_of_false (fun h => h rfl) fun ⟨_, hc, _⟩ => (by cases hc)
  | append_singleton calls c ih =>
      rw [after_append, hasToken_append, ← ih]
      by_cases hc : c.IsToken port
      · exact iff_of_true ((tokenPasswords_call c).1 hc) (.inr hc)
      · rw [(call_frame pwhashStr _ port c).2.2.2.2 hc]
        exact ⟨.inl, fun h => h.resolve_right hc⟩

/-- **The table of a port says what has been registered.** -/
theorem passwordsOf_after (calls : List AuthCall) (port : Int) (login : Bytes) :
    ((bare kit handlerMap docRootMap).after pwhashStr calls).passwordsOf port login =
      (registered pwhashStr calls port login).map (Registered.entry pwhashStr) := by
  induction calls using List.reverseRecOn with
  | nil => rfl
  | append_singleton calls c ih =>
      rw [after_append, registered_append]
      exact passwordsOf_call c ih

variable {pwhashStr kit handlerMap docRootMap}

/-- A secret stays. -/
theorem secret_of_initial {calls' : List AuthCall} (h : calls' <+: calls)
    {info : Tokens.TokenPasswordInfo}
    (hinfo : (srv.after pwhashStr calls').tokens.tokenPasswords port = some info) :
    ∃ info', (srv.after pwhashStr calls).tokens.tokenPasswords port = some info' ∧
      info'.secret = info.secret := by
  obtain ⟨more, rfl⟩ := h
  induction more using List.reverseRecOn with
  | nil => exact ⟨info, by rw [List.append_nil, hinfo], rfl⟩
  | append_singleton more c ih =>
      obtain ⟨info', hinfo', hsecret⟩ := ih
      obtain ⟨info'', hinfo'', hsecret'⟩ := (tokenPasswords_call c).2 info' hinfo'
      rw [← List.append_assoc, after_append]
      exact ⟨info'', hinfo'', hsecret'.trans hsecret⟩

/-- A password is registered if it could be hashed. -/
theorem registered_hashed {login p : Bytes}
    (h : registered pwhashStr calls port login = some (.password p)) : pwhashStr p ≠ none := by
  induction calls using List.reverseRecOn with
  | nil => cases h
  | append_singleton calls c ih =>
      rw [registered_append] at h
      cases c with
      | basic q l password =>
          rw [register_basic] at h
          split at h
          · cases password with
            | none => cases h
            | some password =>
                dsimp only at h
                split at h
                · exact ih h
                · next hhash =>
                  cases h
                  exact hhash
          · exact ih h
      | basicSalted q l s =>
          rw [register_salted] at h
          split at h
          · cases h
          · exact ih h
      | token q l password secret => exact ih h
      | tokenSalted q l s secret => exact ih h

/-- **The password check** is for what has been registered. -/
theorem checkBasicAuthentication_after
    (hverify : ∀ p hashed shown, pwhashStr p = some hashed →
      (kit.pwhashVerify hashed shown = true ↔ shown = p))
    (hbasic : HasBasic calls port) (login password : Bytes) :
    ((bare kit handlerMap docRootMap).after pwhashStr calls).checkBasicAuthentication port login
        password = true ↔ Verified pwhashStr kit calls port login password := by
  obtain ⟨passwords, hpasswords⟩ := Option.ne_none_iff_exists'.mp
    ((allPasswords_after pwhashStr kit handlerMap docRootMap calls port).mpr hbasic)
  have htable := passwordsOf_after pwhashStr kit handlerMap docRootMap calls port login
  rw [Server.passwordsOf, hpasswords, Option.getD_some] at htable
  rw [Server.checkBasicAuthentication, hpasswords, (after_frame calls).1]
  dsimp only
  rw [htable, Verified]
  cases hr : registered pwhashStr calls port login with
  | none => exact iff_of_false Bool.false_ne_true fun ⟨r, h, _⟩ => (by cases h)
  | some r =>
      rw [Option.map_some]
      have hsame : (∃ r', some r = some r' ∧ r'.Verifies kit password) ↔ r.Verifies kit password :=
        ⟨fun ⟨r', h, hv⟩ => Option.some.inj h ▸ hv, fun h => ⟨r, rfl, h⟩⟩
      rw [hsame]
      cases r with
      | free => exact iff_of_true rfl trivial
      | password p =>
          obtain ⟨hashed, hhash⟩ := Option.ne_none_iff_exists'.mp (registered_hashed hr)
          rw [Registered.entry, hhash]
          exact hverify p hashed password hhash
      | salted s => exact Iff.rfl

end Tables

/-! ## Tokens -/

section Tokens

open Tokens (dot)

variable {pwhashStr} {srv : Server H} {calls : List AuthCall} {port now : Int}
  {token more s login : Bytes}

theorem readPayload_congr {a b : Tokens.Server} (h : a.kit = b.kit) (part : Bytes) :
    a.readPayload part = b.readPayload part := by
  unfold Tokens.Server.readPayload
  rw [h]

theorem signature_congr {a b : Tokens.Server} (h : a.kit = b.kit)
    {info info' : Tokens.TokenPasswordInfo} (hsecret : info.secret = info'.secret) (front : Bytes) :
    a.signature info front = b.signature info' front := by
  unfold Tokens.Server.signature
  rw [h, hsecret]

/-- What has been handed out is header, payload and MAC also for the server as it is now. -/
theorem Created.shape (hkit : srv.tokens.kit.Lawful) {t : Int}
    (h : Created pwhashStr srv calls port t token login) :
    ∃ info header payload, (srv.after pwhashStr calls).tokens.tokenPasswords port = some info ∧
      dot ∉ header ∧ dot ∉ payload ∧
      (srv.after pwhashStr calls).tokens.readPayload payload = some (login, t + 3600) ∧
      token = header ++ dot :: payload ++ dot ::
        (srv.after pwhashStr calls).tokens.signature info (header ++ dot :: payload) := by
  obtain ⟨hlo, hhi, calls', body, password, hbefore, hcreated, hrequest⟩ := h
  have hkits : (srv.after pwhashStr calls').tokens.kit = (srv.after pwhashStr calls).tokens.kit :=
    (after_frame calls').1.trans (after_frame calls).1.symm
  have hlawful : (srv.after pwhashStr calls').tokens.kit.Lawful := by
    rw [(after_frame calls').1]
    exact hkit
  obtain ⟨login', password', info, header, payload, hrequest', hinfo, hh, hp, hread, htoken⟩ :=
    Tokens.Server.created_shape hlawful hlo hhi hcreated
  obtain ⟨rfl, -⟩ := Prod.mk.inj (Option.some.inj (hrequest.symm.trans hrequest'))
  obtain ⟨info', hinfo', hsecret⟩ := secret_of_initial hbefore hinfo
  refine ⟨info', header, payload, hinfo', hh, hp, ?_, ?_⟩
  · rw [← readPayload_congr hkits, hread]
  · rw [htoken, signature_congr hkits hsecret.symm]

theorem Issued.acceptable (hkit : srv.tokens.kit.Lawful)
    (h : Issued pwhashStr srv calls port now token login) :
    (srv.after pwhashStr calls).tokens.Acceptable port now token login := by
  obtain ⟨t, hcreated, hle⟩ := h
  obtain ⟨info, header, payload, hinfo, hh, hp, hread, htoken⟩ := hcreated.shape hkit
  exact ⟨info, header, payload, hinfo, ⟨hh, hp, t + 3600, hread, hle⟩, htoken⟩

/-- Who shows an acceptable token has it from the server. -/
theorem issued_of_acceptable (hkit : srv.tokens.kit.Lawful)
    (hunforged : Unforged pwhashStr srv calls port s) (hs : token <+: s)
    (h : (srv.after pwhashStr calls).tokens.Acceptable port now token login) :
    Issued pwhashStr srv calls port now token login := by
  obtain ⟨info, header, payload, hinfo, hgood, rfl⟩ := h
  obtain ⟨t, login', hcreated⟩ :=
    hunforged info header payload hinfo hgood.dot_header hgood.dot_payload hs
  obtain ⟨info', header', payload', -, hh, hp, hread, htoken⟩ := hcreated.shape hkit
  have hparts := Tokens.Server.splitOn_three hgood.dot_header hgood.dot_payload
    (Tokens.Server.dot_notMem_signature (srv.after pwhashStr calls).tokens info
      (header ++ dot :: payload))
  rw [htoken, Tokens.Server.splitOn_three hh hp (Tokens.Server.dot_notMem_signature _ _ _)]
    at hparts
  obtain ⟨-, rfl, -⟩ : header' = header ∧ payload' = payload ∧ _ := by simpa using hparts
  obtain ⟨expiration, hread', hle⟩ := hgood.reads
  obtain ⟨rfl, rfl⟩ := Prod.mk.inj (Option.some.inj (hread.symm.trans hread'))
  exact ⟨t, hcreated, hle⟩

/-- What is accepted has been issued, but for what stands behind it. -/
theorem accepted_iff (hkit : srv.tokens.kit.Lawful)
    (hunforged : Unforged pwhashStr srv calls port s) :
    (srv.after pwhashStr calls).tokens.checkTokenAuthentication port now s = some login ↔
      ∃ token more, s = token ++ more ∧ dot ∉ more ∧
        Issued pwhashStr srv calls port now token login := by
  rw [Tokens.Server.accepts_iff]
  constructor
  · rintro ⟨token, more, hs, hmore, hacc⟩
    exact ⟨token, more, hs, hmore, issued_of_acceptable hkit hunforged ⟨more, hs.symm⟩ hacc⟩
  · rintro ⟨token, more, hs, hmore, hissued⟩
    exact ⟨token, more, hs, hmore, hissued.acceptable hkit⟩

theorem not_issued_of_more (hkit : srv.tokens.kit.Lawful)
    (h : Issued pwhashStr srv calls port now token login) (hmore : more ≠ []) (hdot : dot ∉ more)
    (login' : Bytes) : ¬ Issued pwhashStr srv calls port now (token ++ more) login' :=
  fun h' => Tokens.Server.not_acceptable_of_trails
    ⟨token, more, login, rfl, hmore, hdot, h.acceptable hkit⟩ login' (h'.acceptable hkit)

theorem not_issued_nil (hkit : srv.tokens.kit.Lawful) :
    ¬ Issued pwhashStr srv calls port now [] login := by
  intro h
  obtain ⟨info, header, payload, -, -, htoken⟩ := h.acceptable hkit
  have hlength := congrArg List.length htoken
  rw [List.length_append, List.length_cons, List.length_nil] at hlength
  omega

end Tokens

/-! ## The gate -/

section Gate

open Tokens (dot)

variable {pwhashStr kit} {srv : Server H} {calls : List AuthCall} {disk : Disk} {port now : Int}
  {req : Request} {authStr login : Bytes}

theorem read_of_not_basic (kit : Tokens.Toolkit) (h : basicScheme.isPrefixOf authStr = false) :
    (Credentials.read kit authStr).login = [] ∧ (Credentials.read kit authStr).password = [] := by
  unfold Credentials.read
  rw [if_neg (by rw [h]; exact Bool.false_ne_true)]
  split <;> exact ⟨rfl, rfl⟩

theorem authToken_of_basic (h : basicScheme.isPrefixOf authStr = true) :
    (Credentials.read kit authStr).authToken = [] := by
  unfold Credentials.read
  rw [if_pos h]
  rfl

theorem handlerFor_after (pwhashStr : Bytes → Option Bytes) (srv : Server H)
    (calls : List AuthCall) (port : Int) (req : Request) :
    (srv.after pwhashStr calls).handlerFor port req = srv.handlerFor port req := by
  unfold Server.handlerFor Server.getHandler
  rw [(after_frame calls).2.1]

theorem docFor_after (pwhashStr : Bytes → Option Bytes) (srv : Server H) (calls : List AuthCall)
    (disk : Disk) (port : Int) (req : Request) :
    (srv.after pwhashStr calls).docFor disk port req = srv.docFor disk port req := by
  unfold Server.docFor
  rw [(after_frame calls).2.2]

/-- Who is let in: who shows a token that is accepted, anybody who asks for no handler where there
are tokens, and who passes the password check elsewhere. -/
theorem authorize_eq_ok {handled : Bool} : srv.authorize port now authStr handled = .ok login ↔
    ((Credentials.read srv.tokens.kit authStr).authToken ≠ [] ∧
      srv.tokens.checkTokenAuthentication port now
        (Credentials.read srv.tokens.kit authStr).authToken = some login) ∨
    ((Credentials.read srv.tokens.kit authStr).authToken = [] ∧
      (Credentials.read srv.tokens.kit authStr).login = login ∧
      (srv.requiresTokenAuthentication port = true ∧ handled = false ∨
        srv.requiresTokenAuthentication port = false ∧ srv.checkBasicAuthentication port
          (Credentials.read srv.tokens.kit authStr).login
          (Credentials.read srv.tokens.kit authStr).password = true)) := by
  unfold Server.authorize
  generalize Credentials.read srv.tokens.kit authStr = c
  by_cases htoken : c.authToken = []
  · rw [if_neg (not_not.mpr htoken)]
    cases srv.requiresTokenAuthentication port <;> cases handled <;>
      cases srv.checkBasicAuthentication port c.login c.password <;> simp [htoken]
  · rw [if_pos htoken]
    cases srv.tokens.checkTokenAuthentication port now c.authToken <;> simp [htoken]

theorem onRead_eq_invoked {handler : H} {body : Bytes} {queryMap : QueryMap} :
    srv.onRead disk port now req = .invoked handler login body queryMap ↔
      pathStr req.target ≠ tokenAuthenticationRequest ∧ srv.handlerFor port req = some handler ∧
        srv.authorize port now req.authorization true = .ok login ∧
        body = (if req.isSimplePost then [] else req.body) ∧ queryMap = req.queryMap := by
  unfold Server.onRead
  by_cases hpath : pathStr req.target = tokenAuthenticationRequest
  · rw [if_pos hpath]
    split <;> simp [hpath]
  · rw [if_neg hpath]
    cases hhandler : srv.handlerFor port req with
    | none =>
        dsimp only [Option.isSome]
        cases srv.authorize port now req.authorization false with
        | error scheme => simp
        | ok l => cases srv.docFor disk port req <;> simp
    | some h =>
        dsimp only [Option.isSome]
        cases srv.authorize port now req.authorization true with
        | error scheme => simp
        | ok l =>
            simp only [Outcome.invoked.injEq, Option.some.injEq, Except.ok.injEq, ne_eq, hpath,
              not_false_eq_true, true_and]
            exact ⟨fun ⟨h1, h2, h3, h4⟩ => ⟨h1, h2, h3.symm, h4.symm⟩,
              fun ⟨h1, h2, h3, h4⟩ => ⟨h1, h2, h3.symm, h4.symm⟩⟩

theorem onRead_eq_file {doc : Path × Bytes} :
    srv.onRead disk port now req = .file doc ↔
      pathStr req.target ≠ tokenAuthenticationRequest ∧ srv.handlerFor port req = none ∧
        srv.docFor disk port req = some doc ∧
        ∃ login, srv.authorize port now req.authorization false = .ok login := by
  unfold Server.onRead
  by_cases hpath : pathStr req.target = tokenAuthenticationRequest
  · rw [if_pos hpath]
    split <;> simp [hpath]
  · rw [if_neg hpath]
    cases hhandler : srv.handlerFor port req with
    | none =>
        dsimp only [Option.isSome]
        cases srv.authorize port now req.authorization false with
        | error scheme => simp
        | ok l => cases srv.docFor disk port req <;> simp [hpath]
    | some h =>
        dsimp only [Option.isSome]
        cases srv.authorize port now req.authorization true <;> simp

theorem requiresToken_after (pwhashStr : Bytes → Option Bytes) (kit : Tokens.Toolkit)
    (handlerMap : Int → Option (Bytes → Option H)) (docRootMap : Int → Option Path)
    (calls : List AuthCall) (port : Int) :
    ((bare kit handlerMap docRootMap).after pwhashStr calls).requiresTokenAuthentication port =
      true ↔ HasToken calls port := by
  rw [Server.requiresTokenAuthentication, Option.isSome_iff_ne_none, tokenPasswords_after]

/-- A handler that is there is called. -/
theorem invoked_of_authorized {handler : H}
    (hpath : pathStr req.target ≠ tokenAuthenticationRequest)
    (hhandler : srv.handlerFor port req = some handler)
    (hok : (srv.after pwhashStr calls).authorize port now req.authorization true = .ok login) :
    (srv.after pwhashStr calls).onRead disk port now req =
      .invoked handler login (if req.isSimplePost then [] else req.body) req.queryMap :=
  onRead_eq_invoked.mpr
    ⟨hpath, (handlerFor_after pwhashStr srv calls port req).trans hhandler, hok, rfl, rfl⟩

/-- A document that is there is sent. -/
theorem file_of_authorized {doc : Path × Bytes}
    (hpath : pathStr req.target ≠ tokenAuthenticationRequest)
    (hhandler : srv.handlerFor port req = none) (hdoc : srv.docFor disk port req = some doc)
    (hok : (srv.after pwhashStr calls).authorize port now req.authorization false = .ok login) :
    (srv.after pwhashStr calls).onRead disk port now req = .file doc :=
  onRead_eq_file.mpr ⟨hpath, (handlerFor_after pwhashStr srv calls port req).trans hhandler,
    (docFor_after pwhashStr srv calls disk port req).trans hdoc, login, hok⟩

/-- Whoever gets something where there is a table has shown something. -/
theorem Guarded.shows (hg : Guarded pwhashStr srv calls disk port now req)
    (hreach : Reaches srv calls disk port req) (login : Bytes)
    (hok : ∀ handled,
      (srv.after pwhashStr calls).authorize port now req.authorization handled = .ok login)
    (htable : HasBasic calls port ∨ HasToken calls port) :
    ∃ l, ShowsToken pwhashStr srv calls port now req.authorization l ∨
      ShowsBasic pwhashStr srv.tokens.kit calls port req.authorization l := by
  obtain ⟨hpath, hthere⟩ := hreach
  cases hhandler : srv.handlerFor port req with
  | some handler =>
      rcases hg.handlers _ _ _ _ (invoked_of_authorized hpath hhandler (hok true)) with
        ⟨hb, ht⟩ | h | ⟨-, -, h⟩
      · exact absurd htable (not_or.mpr ⟨hb, ht⟩)
      · exact ⟨_, .inl h⟩
      · exact ⟨_, .inr h⟩
  | none =>
      rw [hhandler] at hthere
      obtain ⟨hbasic, hdoc⟩ := hthere.resolve_left Bool.false_ne_true
      obtain ⟨doc, hdoc⟩ := Option.isSome_iff_exists.mp hdoc
      exact hg.files hbasic doc (file_of_authorized hpath hhandler hdoc (hok false))

/-- Whoever is let in has shown something, or need not, as things are. -/
theorem Tight.shows {handlerMap : Int → Option (Bytes → Option H)}
    {docRootMap : Int → Option Path} (hkit : kit.Lawful)
    (hverify : ∀ p hashed shown, pwhashStr p = some hashed →
      (kit.pwhashVerify hashed shown = true ↔ shown = p))
    (hunforged : Unforged pwhashStr (bare kit handlerMap docRootMap) calls port
      (Credentials.read kit req.authorization).authToken)
    (ht : Tight pwhashStr (bare kit handlerMap docRootMap) calls disk port now req)
    (hreach : Reaches (bare kit handlerMap docRootMap) calls disk port req) {handled : Bool}
    (hok : ((bare kit handlerMap docRootMap).after pwhashStr calls).authorize port now
      req.authorization handled = .ok login) :
    ShowsToken pwhashStr (bare kit handlerMap docRootMap) calls port now req.authorization login ∨
      (handled = false ∧ HasToken calls port ∧
        (Credentials.read kit req.authorization).authToken = []) ∨
      (¬ HasToken calls port ∧
        (HasBasic calls port → ShowsBasic pwhashStr kit calls port req.authorization login)) := by
  have htokens := requiresToken_after pwhashStr kit handlerMap docRootMap calls port
  have hread := authorize_eq_ok.mp hok
  rw [(after_frame calls).1] at hread
  rcases hread with ⟨-, hcheck⟩ | ⟨hnone, hlogin, ⟨htoken, hhandled⟩ | ⟨htoken, hcheck⟩⟩
  · obtain ⟨token, more, hs, hdot, hissued⟩ := (accepted_iff hkit hunforged).mp hcheck
    have hmore : more = [] := by
      by_contra hmore
      exact ht.whole hreach token more login hs hmore hdot hissued
    rw [hmore, List.append_nil] at hs
    rw [ShowsToken]
    exact .inl (hs.symm ▸ hissued)
  · exact .inr (.inl ⟨hhandled, htokens.mp htoken, hnone⟩)
  · have hnot : ¬ HasToken calls port := mt htokens.mpr (by rw [htoken]; exact Bool.false_ne_true)
    refine .inr (.inr ⟨hnot, fun hbasic => ?_⟩)
    have hverified := (checkBasicAuthentication_after hverify hbasic _ _).mp hcheck
    cases hscheme : basicScheme.isPrefixOf req.authorization with
    | true => exact ⟨hscheme, hlogin, hlogin ▸ hverified⟩
    | false =>
        obtain ⟨hl, hp⟩ := read_of_not_basic kit hscheme
        rw [show (bare kit handlerMap docRootMap).tokens.kit = kit from rfl, hl, hp] at hverified
        exact absurd hverified (ht.named hreach hbasic hnot hscheme hnone)

end Gate

/-- **The gate does what it is for** if and only if nothing stands behind a token, no password is
registered for nobody, and a document with two tables is asked for with a password. -/
theorem guarded_iff_tight (pwhashStr : Bytes → Option Bytes) (kit : Tokens.Toolkit)
    (hkit : kit.Lawful)
    (hverify : ∀ p hashed shown, pwhashStr p = some hashed →
      (kit.pwhashVerify hashed shown = true ↔ shown = p))
    (handlerMap : Int → Option (Bytes → Option H)) (docRootMap : Int → Option Path)
    (calls : List AuthCall) (disk : Disk) (port now : Int) (req : Request)
    (hunforged : Unforged pwhashStr (bare kit handlerMap docRootMap) calls port
      (Credentials.read kit req.authorization).authToken) :
    Guarded pwhashStr (bare kit handlerMap docRootMap) calls disk port now req ↔
      Tight pwhashStr (bare kit handlerMap docRootMap) calls disk port now req := by
  have hkits : ((bare kit handlerMap docRootMap).after pwhashStr calls).tokens.kit = kit :=
    (after_frame calls).1
  have htokens := requiresToken_after pwhashStr kit handlerMap docRootMap calls port
  constructor
  · intro hg
    refine ⟨fun hreach token more login hs hmore hdot hissued => ?_,
      fun hreach hbasic htoken hscheme hnone hverified => ?_,
      fun hreach hbasic htoken hhandler hnone => ?_⟩
    · -- a token with something behind it
      have hs' : (Credentials.read kit req.authorization).authToken = token ++ more := hs
      have haccepted : ((bare kit handlerMap docRootMap).after pwhashStr
          calls).tokens.checkTokenAuthentication port now
          (Credentials.read kit req.authorization).authToken = some login :=
        (accepted_iff hkit hunforged).mpr ⟨token, more, hs', hdot, hissued⟩
      have hne : (Credentials.read kit req.authorization).authToken ≠ [] := by
        rw [hs']
        exact List.append_ne_nil_of_right_ne_nil _ hmore
      have hhas : HasToken calls port := by
        obtain ⟨info, _, _, hinfo, -⟩ := hissued.acceptable hkit
        exact (tokenPasswords_after pwhashStr kit handlerMap docRootMap calls port).mp
          (ne_of_eq_of_ne hinfo (Option.some_ne_none _))
      obtain ⟨l, hshown | hshown⟩ := hg.shows hreach login
        (fun handled => authorize_eq_ok.mpr (.inl (by rw [hkits]; exact ⟨hne, haccepted⟩)))
        (.inr hhas)
      · rw [ShowsToken, hs] at hshown
        exact not_issued_of_more hkit hissued hmore hdot l hshown
      · exact hne (authToken_of_basic hshown.1)
    · -- nobody, with no password
      obtain ⟨hlogin, hpassword⟩ := read_of_not_basic kit hscheme
      obtain ⟨l, hshown | hshown⟩ := hg.shows hreach []
        (fun handled => authorize_eq_ok.mpr (.inr (by
          rw [hkits]
          refine ⟨hnone, hlogin, .inr ⟨Bool.eq_false_iff.mpr (mt htokens.mp htoken), ?_⟩⟩
          rw [hlogin, hpassword]
          exact (checkBasicAuthentication_after hverify hbasic [] []).mpr hverified)))
        (.inl hbasic)
      · rw [ShowsToken, hnone] at hshown
        exact not_issued_nil hkit hshown
      · rw [hshown.1] at hscheme
        cases hscheme
    · -- a document, where there are tokens
      obtain ⟨hpath, hthere⟩ := hreach
      rw [hhandler] at hthere
      obtain ⟨-, hdoc⟩ := hthere.resolve_left Bool.false_ne_true
      obtain ⟨doc, hdoc⟩ := Option.isSome_iff_exists.mp hdoc
      have hok : ((bare kit handlerMap docRootMap).after pwhashStr calls).authorize port now
          req.authorization false = .ok (Credentials.read kit req.authorization).login := by
        refine authorize_eq_ok.mpr (.inr ?_)
        rw [hkits]
        exact ⟨hnone, rfl, .inl ⟨htokens.mpr htoken, rfl⟩⟩
      obtain ⟨l, hshown | hshown⟩ :=
        hg.files hbasic doc (file_of_authorized hpath hhandler hdoc hok)
      · rw [ShowsToken, hnone] at hshown
        exact absurd hshown (not_issued_nil hkit)
      · exact ⟨l, hshown⟩
  · intro ht
    refine ⟨fun handler login body queryMap hread => ?_, fun hbasic doc hread => ?_⟩
    · obtain ⟨hpath, hhandler, hok, -, -⟩ := onRead_eq_invoked.mp hread
      rw [handlerFor_after] at hhandler
      have hreach : Reaches (bare kit handlerMap docRootMap) calls disk port req :=
        ⟨hpath, .inl (by rw [hhandler]; rfl)⟩
      rcases ht.shows hkit hverify hunforged hreach hok with h | ⟨h, -⟩ | ⟨hnot, h⟩
      · exact .inr (.inl h)
      · cases h
      · by_cases hbasic : HasBasic calls port
        · exact .inr (.inr ⟨hbasic, hnot, h hbasic⟩)
        · exact .inl ⟨hbasic, hnot⟩
    · obtain ⟨hpath, hhandler, hdoc, login, hok⟩ := onRead_eq_file.mp hread
      rw [handlerFor_after] at hhandler
      rw [docFor_after] at hdoc
      have hreach : Reaches (bare kit handlerMap docRootMap) calls disk port req :=
        ⟨hpath, .inr ⟨hbasic, by rw [hdoc]; rfl⟩⟩
      rcases ht.shows hkit hverify hunforged hreach hok with h | ⟨-, htoken, hnone⟩ | ⟨-, h⟩
      · exact ⟨login, .inl h⟩
      · obtain ⟨l, hl⟩ := ht.asked hreach hbasic htoken hhandler hnone
        exact ⟨l, .inr hl⟩
      · exact ⟨login, .inr (h hbasic)⟩

/-! A port with a handler and one with a document, and both with a table for "al". -/

def demoServer : Server Unit :=
  bare Tokens.demoKit
    (fun port => if port = 8080 then some fun path => if path = ascii "/f" then some () else none
      else none)
    (fun port => if port = 8081 then some (ascii "/srv/www") else none)

def demoDisk : Disk where
  there := fun path => path == ascii "/srv/www/a.html"
  opens := fun path => path == ascii "/srv/www/a.html"

def demoBasic (port : Int) : AuthCall := .basic port (ascii "al") (some (ascii "pw"))

def demoRequest : Request where
  method := .post
  target := ascii "/f"
  authorization := ascii "Basic YWw6cHc="

theorem guarded_demo :
    Guarded some demoServer [demoBasic 8080] demoDisk 8080 1000 demoRequest := by
  have htoken : (Credentials.read Tokens.demoKit demoRequest.authorization).authToken = [] := by
    decide +kernel
  refine (guarded_iff_tight some Tokens.demoKit Tokens.demoKit_lawful ?_ _ _ [demoBasic 8080]
    demoDisk 8080 1000 demoRequest ?_).mpr ⟨?_, ?_, ?_⟩
  · intro p hashed shown h
    cases h
    exact beq_iff_eq.trans eq_comm
  · -- there is no token to forge
    intro info header payload _ _ _ hsigned
    rw [htoken, List.prefix_nil] at hsigned
    cases List.append_eq_nil_iff.mp hsigned |>.2
  · intro _ token more login hs hmore
    exact absurd (List.append_eq_nil_iff.mp (hs.symm.trans htoken)).2 hmore
  · intro _ _ _ hscheme
    exact absurd hscheme (by decide +kernel)
  · intro _ _ ⟨c, hc, his⟩
    rw [List.mem_singleton.mp hc] at his
    exact his.elim

/-- A port that has tokens, too, sends its documents to anybody. -/
theorem not_guarded_two_tables :
    ¬ Guarded some demoServer
      [demoBasic 8081, .token 8081 (ascii "al") (ascii "pw") (.replicate 64 7)] demoDisk 8081 1000
      { method := .get, target := ascii "/a.html" } := by
  intro hg
  obtain ⟨login, hshown | hshown⟩ := hg.files ⟨_, List.mem_cons_self, rfl⟩
    (ascii "/srv/www/a.html", ascii "text/html") (by rfl)
  · exact not_issued_nil Tokens.demoKit_lawful hshown
  · exact absurd hshown.1 (by decide +kernel)

end RestServer
