import Mathlib.Data.List.Basic

/-!
# Signed messages

`SignatureHelper`: a signer puts data and signature together in CBOR, and if asked to the name
of the signer as well. A verifier has keys under names. It looks for a key that verifies the
signature, or takes the key of the name that the message carries.

The table of the keys is filled with `insert`, which leaves an entry as it is. So a name keeps the
key that was added first, and all is as it should be as long as that is also the latest one
(`sound_iff`).
-/

namespace SignatureHelper

abbrev Bytes := List UInt8

/-- `crypto_sign_BYTES` -/
def cryptoSignBytes : Nat := 64

/-- The CBOR form of values with named fields. -/
structure NameListCodec (X : Type) where
  serialize : X → Bytes
  /-- the value, and how many of the bytes are read for it -/
  deserialize : Bytes → Option (X × Nat)
  deserialize_serialize : ∀ x, deserialize (serialize x) = some (x, (serialize x).length)

/-- A signature scheme in which there are no forgeries. -/
structure Scheme (SK PK : Type) where
  publicOf : SK → PK
  signDetached : SK → Bytes → Bytes
  /-- `crypto_sign_verify_detached(signature, data, ...) == 0` -/
  verifyDetached : PK → Bytes → Bytes → Bool
  length_sign : ∀ sk data, (signDetached sk data).length = cryptoSignBytes
  verify_iff : ∀ pk data signature, verifyDetached pk data signature = true ↔
    ∃ sk, publicOf sk = pk ∧ signature = signDetached sk data
  /-- Signatures under different keys are different. -/
  publicOf_eq : ∀ sk sk' data, signDetached sk data = signDetached sk' data →
    publicOf sk = publicOf sk'

/-- What the helper relies on. -/
structure Setting (N SK PK : Type) where
  scheme : Scheme SK PK
  /-- with the fields `signature` and `data` -/
  plain : NameListCodec (Bytes × Bytes)
  /-- with the fields `name`, `signature` and `data` -/
  tagged : NameListCodec (N × Bytes × Bytes)
  /-- The order that the hash table gives out its elements in. -/
  order : List (N × PK) → List (N × PK)
  order_perm : ∀ items, (order items).Perm items

/-! ## The signer -/

section Signer

variable {N SK PK : Type} (S : Setting N SK PK)

/-- `Signer::sign`. A signer may have been made without a key. -/
def sign (impl : Option SK) (data : Bytes) : Bytes :=
  match impl with
  | some privateKey => S.plain.serialize (S.scheme.signDetached privateKey data, data)
  | none => data

/-- `Signer::signWithName` -/
def signWithName (impl : Option SK) (name : N) (data : Bytes) : Bytes :=
  match impl with
  | some privateKey => S.tagged.serialize (name, S.scheme.signDetached privateKey data, data)
  | none => data

end Signer

/-! ## The verifier -/

/-- `publicKeys_`: at most one key under each name. -/
structure PublicKeys (N PK : Type) [DecidableEq N] where
  items : List (N × PK)
  lookup_of_mem : ∀ item ∈ items, items.lookup item.1 = some item.2

variable {N SK PK : Type} [DecidableEq N]

namespace PublicKeys

def empty : PublicKeys N PK := ⟨[], fun _ h => (List.not_mem_nil h).elim⟩

def find (keys : PublicKeys N PK) (name : N) : Option PK := keys.items.lookup name

/-- `publicKeys_.insert({name, publicKey})` -/
def insert (keys : PublicKeys N PK) (name : N) (publicKey : PK) : PublicKeys N PK :=
  if h : keys.find name = none then
    { items := (name, publicKey) :: keys.items
      lookup_of_mem := fun item hitem => by
        rcases List.mem_cons.mp hitem with rfl | hitem
        · exact List.lookup_cons_self
        · have hfound := keys.lookup_of_mem item hitem
          have hne : item.1 ≠ name := fun heq => by
            rw [heq] at hfound
            rw [find, hfound] at h
            cases h
          rw [List.lookup_cons, beq_false_of_ne hne]
          exact hfound }
  else
    keys

end PublicKeys

/-- `addKey`, for one call after the other. -/
def addKeys (keys : PublicKeys N PK) (adds : List (N × PK)) : PublicKeys N PK :=
  adds.foldl (fun keys k => keys.insert k.1 k.2) keys

/-- A verifier after these calls of `addKey`. -/
def verifierOf (adds : List (N × PK)) : PublicKeys N PK := addKeys .empty adds

section Verifier

variable (S : Setting N SK PK) (publicKeys : PublicKeys N PK)

def verify (data : Bytes) : Option (N × Bytes) :=
  match S.plain.deserialize data with
  | none => none
  | some ((signature, signedData), used) =>
    if used ≠ data.length then none
    else if signature.length ≠ cryptoSignBytes then none
    else
      match (S.order publicKeys.items).find? fun item =>
          S.scheme.verifyDetached item.2 signedData signature with
      | some item => some (item.1, signedData)
      | none => none

def verifyDataTaggedWithName (data : Bytes) : Option Bytes :=
  match S.tagged.deserialize data with
  | none => none
  | some ((name, signature, signedData), used) =>
    if used ≠ data.length then none
    else if signature.length ≠ cryptoSignBytes then none
    else
      match publicKeys.find name with
      | none => none
      | some key =>
        if S.scheme.verifyDetached key signedData signature then some signedData else none

end Verifier

/-! ## What is accepted -/

/-- The key that was added first under the name. -/
def firstKey (adds : List (N × PK)) (name : N) : Option PK := adds.lookup name

/-- The key that was added last under the name. -/
def latestKey (adds : List (N × PK)) (name : N) : Option PK := adds.reverse.lookup name

/-- The bytes are those of a message whose signature has the right length. -/
def WellFormed {X : Type} (codec : NameListCodec X) (signature : X → Bytes) (data : Bytes) : Prop :=
  ∃ x, codec.deserialize data = some (x, data.length) ∧ (signature x).length = cryptoSignBytes

/-- What a verifier should do after these calls of `addKey`. -/
structure Sound (S : Setting N SK PK) (adds : List (N × PK)) : Prop where
  /-- Data under a name carry a signature with the latest key of just that name. -/
  tagged : ∀ data signedData, verifyDataTaggedWithName S (verifierOf adds) data = some signedData →
    ∃ name signature key, S.tagged.deserialize data =
        some ((name, signature, signedData), data.length) ∧
      latestKey adds name = some key ∧ S.scheme.verifyDetached key signedData signature = true
  /-- Data without a name carry a signature with an added key, whose name is reported. -/
  plain : ∀ data name signedData, verify S (verifierOf adds) data = some (name, signedData) →
    ∃ signature key, S.plain.deserialize data = some ((signature, signedData), data.length) ∧
      (name, key) ∈ adds ∧ S.scheme.verifyDetached key signedData signature = true
  /-- What is signed with a key that was added comes through. -/
  sign : ∀ name privateKey data, latestKey adds name = some (S.scheme.publicOf privateKey) →
    ∃ name', verify S (verifierOf adds) (sign S (some privateKey) data) = some (name', data)
  signWithName : ∀ name privateKey data,
    latestKey adds name = some (S.scheme.publicOf privateKey) →
      verifyDataTaggedWithName S (verifierOf adds) (signWithName S (some privateKey) name data) =
        some data
  malformed : ∀ data,
    (¬ WellFormed S.plain (fun x => x.1) data → verify S (verifierOf adds) data = none) ∧
      (¬ WellFormed S.tagged (fun x => x.2.1) data →
        verifyDataTaggedWithName S (verifierOf adds) data = none)

/-- The first key of a name is the latest, unless neither is anybody's. -/
def Unreplaced (S : Setting N SK PK) (adds : List (N × PK)) : Prop :=
  ∀ name key key', firstKey adds name = some key → latestKey adds name = some key' →
    (∃ privateKey, S.scheme.publicOf privateKey = key ∨ S.scheme.publicOf privateKey = key') →
      key = key'

section Lemmas

variable {S : Setting N SK PK} {keys : PublicKeys N PK} {adds : List (N × PK)} {name : N} {key : PK}

namespace PublicKeys

theorem mem_items_iff : (name, key) ∈ keys.items ↔ keys.find name = some key := by
  refine ⟨fun h => keys.lookup_of_mem _ h, fun h => ?_⟩
  obtain ⟨l₁, l₂, heq, -⟩ := List.lookup_eq_some_iff.mp h
  rw [heq]
  exact List.mem_append_right _ List.mem_cons_self

theorem find_insert (name' : N) :
    (keys.insert name key).find name' =
      (keys.find name').or (if name' = name then some key else none) := by
  unfold insert
  split
  · next h =>
    by_cases heq : name' = name
    · subst heq
      rw [h, if_pos rfl]
      exact List.lookup_cons_self
    · rw [if_neg heq, Option.or_none, find, List.lookup_cons, beq_false_of_ne heq]
      rfl
  · next h =>
    obtain ⟨k, hk⟩ := Option.ne_none_iff_exists'.mp h
    by_cases heq : name' = name
    · subst heq
      rw [hk]
      rfl
    · rw [if_neg heq, Option.or_none]

end PublicKeys

/-- A name keeps the key it has, and otherwise has the first one that is added. -/
theorem find_addKeys (keys : PublicKeys N PK) (adds : List (N × PK)) (name : N) :
    (addKeys keys adds).find name = (keys.find name).or (firstKey adds name) := by
  induction adds generalizing keys with
  | nil => exact (Option.or_none).symm
  | cons k adds ih =>
      have hfirst : firstKey (k :: adds) name =
          (if name = k.1 then some k.2 else none).or (firstKey adds name) := by
        by_cases heq : name = k.1
        · subst heq
          rw [if_pos rfl]
          exact List.lookup_cons_self
        · rw [if_neg heq, Option.none_or, firstKey, List.lookup_cons, beq_false_of_ne heq]
          rfl
      show (addKeys (keys.insert k.1 k.2) adds).find name = _
      rw [ih, PublicKeys.find_insert, hfirst, Option.or_assoc]

theorem find_verifierOf (adds : List (N × PK)) (name : N) :
    (verifierOf adds).find name = firstKey adds name :=
  (find_addKeys .empty adds name).trans Option.none_or

theorem firstKey_mem (h : firstKey adds name = some key) : (name, key) ∈ adds := by
  obtain ⟨l₁, l₂, heq, -⟩ := List.lookup_eq_some_iff.mp h
  rw [heq]
  exact List.mem_append_right _ List.mem_cons_self

/-- A name with a first key has a latest one. -/
theorem isSome_latestKey (adds : List (N × PK)) (name : N) :
    (latestKey adds name).isSome ↔ (firstKey adds name).isSome := by
  rw [latestKey, firstKey, List.lookup_isSome_iff, List.lookup_isSome_iff]
  simp only [List.mem_reverse]

theorem verifyDataTaggedWithName_eq_some_iff {data signedData : Bytes} :
    verifyDataTaggedWithName S keys data = some signedData ↔
      ∃ name signature key, S.tagged.deserialize data =
          some ((name, signature, signedData), data.length) ∧
        signature.length = cryptoSignBytes ∧ keys.find name = some key ∧
        S.scheme.verifyDetached key signedData signature = true := by
  constructor
  · intro h
    unfold verifyDataTaggedWithName at h
    split at h
    · cases h
    · next name signature signed used hread =>
      split at h
      · cases h
      split at h
      · cases h
      next hused hlength =>
      split at h
      · cases h
      next key hkey =>
      split at h
      · next hverified =>
        obtain rfl := Option.some.inj h
        rw [Decidable.not_not] at hused hlength
        exact ⟨name, signature, key, hused ▸ hread, hlength, hkey, hverified⟩
      · cases h
  · intro ⟨name, signature, key, hread, hlength, hkey, hverified⟩
    simp only [verifyDataTaggedWithName, hread, hlength, hkey, hverified, ne_eq,
      not_true_eq_false, if_false, if_true]

theorem verify_eq_some {data signedData : Bytes}
    (h : verify S keys data = some (name, signedData)) :
    ∃ signature key, S.plain.deserialize data = some ((signature, signedData), data.length) ∧
      signature.length = cryptoSignBytes ∧ keys.find name = some key ∧
      S.scheme.verifyDetached key signedData signature = true := by
  unfold verify at h
  split at h
  · cases h
  · next signature signed used hread =>
    split at h
    · cases h
    split at h
    · cases h
    next hused hlength =>
    split at h
    · next item hfound =>
      obtain ⟨rfl, rfl⟩ := Prod.mk.inj (Option.some.inj h)
      rw [Decidable.not_not] at hused hlength
      have hmem := (S.order_perm _).mem_iff.mp (List.mem_of_find?_eq_some hfound)
      have hverified := List.find?_some hfound
      exact ⟨signature, item.2, hused ▸ hread, hlength, PublicKeys.mem_items_iff.mp hmem,
        hverified⟩
    · cases h

theorem exists_verify_eq_some {data signature signedData : Bytes}
    (hread : S.plain.deserialize data = some ((signature, signedData), data.length))
    (hlength : signature.length = cryptoSignBytes) (hkey : keys.find name = some key)
    (hverified : S.scheme.verifyDetached key signedData signature = true) :
    ∃ name', verify S keys data = some (name', signedData) := by
  have hmem := (S.order_perm _).mem_iff.mpr (PublicKeys.mem_items_iff.mpr hkey)
  have hfound : ((S.order keys.items).find? fun item =>
      S.scheme.verifyDetached item.2 signedData signature).isSome :=
    List.find?_isSome.mpr ⟨_, hmem, hverified⟩
  obtain ⟨item, hitem⟩ := Option.isSome_iff_exists.mp hfound
  refine ⟨item.1, ?_⟩
  simp only [verify, hread, hlength, hitem, ne_eq, not_true_eq_false, if_false]

omit [DecidableEq N] in
theorem verifyDetached_signDetached (privateKey : SK) (data : Bytes) :
    S.scheme.verifyDetached (S.scheme.publicOf privateKey) data
      (S.scheme.signDetached privateKey data) = true :=
  (S.scheme.verify_iff _ _ _).mpr ⟨privateKey, rfl, rfl⟩

omit [DecidableEq N] in
/-- A signature verifies under no other key than its own. -/
theorem eq_publicOf {privateKey : SK} {data : Bytes}
    (h : S.scheme.verifyDetached key data (S.scheme.signDetached privateKey data) = true) :
    key = S.scheme.publicOf privateKey := by
  obtain ⟨privateKey', hkey, hsame⟩ := (S.scheme.verify_iff _ _ _).mp h
  rw [← hkey]
  exact (S.scheme.publicOf_eq _ _ _ hsame).symm

theorem sound_of_unreplaced (h : Unreplaced S adds) : Sound S adds := by
  -- a key that verifies something is somebody's
  have hlatest : ∀ {name key data signature}, firstKey adds name = some key →
      S.scheme.verifyDetached key data signature = true → latestKey adds name = some key := by
    intro name key data signature hfirst hverified
    obtain ⟨privateKey, hpublic, -⟩ := (S.scheme.verify_iff _ _ _).mp hverified
    have hsome := (isSome_latestKey adds name).mpr (by rw [hfirst]; rfl)
    obtain ⟨key', hkey'⟩ := Option.isSome_iff_exists.mp hsome
    rw [h name key key' hfirst hkey' ⟨privateKey, .inl hpublic⟩]
    exact hkey'
  have hfirst : ∀ {name privateKey}, latestKey adds name = some (S.scheme.publicOf privateKey) →
      (verifierOf adds).find name = some (S.scheme.publicOf privateKey) := by
    intro name privateKey hkey
    have hsome := (isSome_latestKey adds name).mp (by rw [hkey]; rfl)
    obtain ⟨key, hkey'⟩ := Option.isSome_iff_exists.mp hsome
    rw [find_verifierOf, hkey', h name key _ hkey' hkey ⟨privateKey, .inr rfl⟩]
  constructor
  case tagged =>
    intro data signedData haccepted
    obtain ⟨name, signature, key, hread, -, hkey, hverified⟩ :=
      verifyDataTaggedWithName_eq_some_iff.mp haccepted
    rw [find_verifierOf] at hkey
    exact ⟨name, signature, key, hread, hlatest hkey hverified, hverified⟩
  case plain =>
    intro data name signedData haccepted
    obtain ⟨signature, key, hread, -, hkey, hverified⟩ := verify_eq_some haccepted
    rw [find_verifierOf] at hkey
    exact ⟨signature, key, hread, firstKey_mem hkey, hverified⟩
  case sign =>
    intro name privateKey data hkey
    exact exists_verify_eq_some (S.plain.deserialize_serialize _) (S.scheme.length_sign _ _)
      (hfirst hkey) (verifyDetached_signDetached privateKey data)
  case signWithName =>
    intro name privateKey data hkey
    exact verifyDataTaggedWithName_eq_some_iff.mpr ⟨name, _, _,
      S.tagged.deserialize_serialize _, S.scheme.length_sign _ _, hfirst hkey,
      verifyDetached_signDetached privateKey data⟩
  case malformed =>
    intro data
    refine ⟨fun hbad => ?_, fun hbad => ?_⟩
    · by_contra hne
      obtain ⟨⟨name, signedData⟩, haccepted⟩ := Option.ne_none_iff_exists'.mp hne
      obtain ⟨signature, key, hread, hlength, -⟩ := verify_eq_some haccepted
      exact hbad ⟨_, hread, hlength⟩
    · by_contra hne
      obtain ⟨signedData, haccepted⟩ := Option.ne_none_iff_exists'.mp hne
      obtain ⟨name, signature, key, hread, hlength, -⟩ :=
        verifyDataTaggedWithName_eq_some_iff.mp haccepted
      exact hbad ⟨_, hread, hlength⟩

/--
**Signed messages are accepted and rejected as they should be** if and only if no name has had its
key replaced.
-/
theorem sound_iff (S : Setting N SK PK) (adds : List (N × PK)) :
    Sound S adds ↔ Unreplaced S adds := by
  refine ⟨fun h name key key' hkey hkey' => ?_, sound_of_unreplaced⟩
  have hfound := (find_verifierOf adds name).trans hkey
  rintro ⟨privateKey, rfl | rfl⟩
  · -- what is signed with the first key is accepted, so it has to be the latest
    have haccepted := verifyDataTaggedWithName_eq_some_iff.mpr ⟨name, _, _,
      S.tagged.deserialize_serialize (name, S.scheme.signDetached privateKey [], []),
      S.scheme.length_sign _ _, hfound, verifyDetached_signDetached privateKey []⟩
    obtain ⟨name', signature, key, hread, hlatest, hverified⟩ := h.tagged _ _ haccepted
    rw [S.tagged.deserialize_serialize] at hread
    obtain ⟨rfl, hrest⟩ := Prod.mk.inj (Prod.mk.inj (Option.some.inj hread)).1
    obtain ⟨rfl, -⟩ := Prod.mk.inj hrest
    rw [hkey'] at hlatest
    exact (eq_publicOf hverified).symm.trans (Option.some.inj hlatest).symm
  · -- what is signed with the latest key has to be accepted, so it is the first
    have haccepted := h.signWithName name privateKey [] hkey'
    obtain ⟨name', signature, key', hread, -, hfound', hverified⟩ :=
      verifyDataTaggedWithName_eq_some_iff.mp haccepted
    rw [signWithName, S.tagged.deserialize_serialize] at hread
    obtain ⟨rfl, hrest⟩ := Prod.mk.inj (Prod.mk.inj (Option.some.inj hread)).1
    obtain ⟨rfl, -⟩ := Prod.mk.inj hrest
    rw [hfound] at hfound'
    exact (Option.some.inj hfound').trans (eq_publicOf hverified)

end Lemmas

/-! ## A name whose key is replaced -/

/-- Two keys, each of which signs everything with its own signature. -/
def twoKeys : Scheme Bool Bool where
  publicOf := fun privateKey => privateKey
  signDetached := fun privateKey _ => List.replicate cryptoSignBytes (if privateKey then 1 else 0)
  verifyDetached := fun publicKey _ signature =>
    decide (signature = List.replicate cryptoSignBytes (if publicKey then 1 else 0))
  length_sign := fun _ _ => List.length_replicate
  verify_iff := fun publicKey data signature => by
    rw [decide_eq_true_iff]
    exact ⟨fun h => ⟨publicKey, rfl, h⟩, fun ⟨_, hsame, h⟩ => hsame ▸ h⟩
  publicOf_eq := fun privateKey privateKey' _ h => by
    cases privateKey <;> cases privateKey' <;> first | rfl | exact absurd h (by decide)

/-- Two byte strings, the length of the first one in front. -/
def pairCodec : NameListCodec (Bytes × Bytes) where
  serialize := fun x => List.replicate x.1.length 1 ++ 0 :: (x.1 ++ x.2)
  deserialize := fun data =>
    match data.dropWhile (· = 1) with
    | [] => none
    | _ :: rest =>
      let n := (data.takeWhile (· = 1)).length
      some ((rest.take n, rest.drop n), data.length)
  deserialize_serialize := fun x => by
    simp

/-- A name of one byte in front. -/
def taggedCodec : NameListCodec (Bool × Bytes × Bytes) where
  serialize := fun x => (if x.1 then 1 else 0) :: pairCodec.serialize x.2
  deserialize := fun data =>
    match data with
    | [] => none
    | name :: rest =>
      (pairCodec.deserialize rest).map fun x => ((decide (name = 1), x.1), x.2 + 1)
  deserialize_serialize := fun x => by
    obtain ⟨name, x⟩ := x
    cases name <;> simp [pairCodec.deserialize_serialize]

def twoKeySetting : Setting Bool Bool Bool where
  scheme := twoKeys
  plain := pairCodec
  tagged := taggedCodec
  order := id
  order_perm := fun _ => .refl _

/-- The second key of a name is not used: what is signed with it is rejected. -/
theorem replaced_not_sound : ¬ Sound twoKeySetting [(true, false), (true, true)] := by
  intro h
  have haccepted := h.signWithName true true [7] rfl
  obtain ⟨name, signature, key, hread, -, hkey, hverified⟩ :=
    verifyDataTaggedWithName_eq_some_iff.mp haccepted
  rw [signWithName, twoKeySetting.tagged.deserialize_serialize] at hread
  obtain ⟨rfl, hrest⟩ := Prod.mk.inj (Prod.mk.inj (Option.some.inj hread)).1
  obtain ⟨rfl, -⟩ := Prod.mk.inj hrest
  have hfirst : (verifierOf [(true, false), (true, true)]).find true = some false := by decide
  rw [hfirst] at hkey
  have hpublic : key = true := eq_publicOf hverified
  rw [hpublic] at hkey
  cases hkey

end SignatureHelper
