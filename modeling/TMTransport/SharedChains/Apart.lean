import TMTransport.EtcdChain.Alone
import TMTransport.RedisChain.Alone

/-!
# The chains of one process

What `EtcdChain.apart_of_ownStatics` and `RedisChain.apart_of_ownStatics` say of each
kind of chain, and what happens otherwise: the first object that calls `head` decides
under which key every other object of its class looks for its head.
-/

namespace SharedChains

open Interleave

variable {T X ι : Type} [Inhabited T] [DecidableEq ι]

/--
**Chains do not interfere** as long as each call finds in the statics of `head` what its own
object would put there.
-/
theorem chains_apart :
    (∀ (objs : ι → EtcdChain.Object T X) (K : ∀ i, EtcdChain.KeySet (objs i))
        (s₀ : EtcdChain.State) (as : List (EtcdChain.Act T X ι)),
      EtcdChain.Disjoint objs K → EtcdChain.Starts objs K s₀ →
      (∀ i c, EtcdChain.Act.call i c ∈ as → (K i).Names c) →
      (EtcdChain.process objs s₀).Within (EtcdChain.OwnStatics objs)
        (EtcdChain.process objs s₀).init as →
      EtcdChain.Apart objs K s₀ as) ∧
    ∀ (objs : ι → RedisChain.Object T X) (K : ∀ i, RedisChain.KeySet (objs i).cfg)
        (s₀ : Redis.Store) (as : List (ι × RedisChain.Task T X)),
      RedisChain.Disjoint objs K → (∀ i, (K i).Closed s₀) →
      (∀ a ∈ as, (K a.1).Names a.2) →
      (RedisChain.process objs s₀).Within (RedisChain.OwnStatics objs)
        (RedisChain.process objs s₀).init as →
      RedisChain.Apart objs K s₀ as :=
  ⟨fun objs K _ _ hd hs hn hw => EtcdChain.apart_of_ownStatics objs K hd hs hn hw,
    fun objs K _ _ hd hc hn hw => RedisChain.apart_of_ownStatics objs K hd hc hn hw⟩

/-! ## Two tenants -/

/-- An object whose prefixes start with a name. -/
def etcdTenant (name : String) : EtcdChain.Object Unit String where
  cfg := { chainPrefix := name, dataPrefix := name ++ "_data" }
  opt := {}
  extraDataPrefix := name ++ "_extra"
  cd := EtcdChain.Codecs.unit
  cx := Codec.tagged 'x'
  chain := 0

def redisTenant (name : String) : RedisChain.Object Unit String where
  cfg := { chainPrefix := name, dataPrefix := name ++ "_data", extraDataPrefix := name ++ "_extra" }
  cd := RedisChain.DataCodec.unit
  cx := Codec.tagged 'x'

def tenantName : Bool → String
  | false => "a"
  | true => "b"

/-- All that is under the prefixes. -/
def etcdKeys (name : String) : EtcdChain.KeySet (etcdTenant name) where
  ids := fun _ => True
  extras := fun _ => True
  head := trivial
  cut := fun h => by simp [etcdTenant] at h
  apart := .inl fun _ => trivial

def redisKeys (i : Bool) : RedisChain.KeySet (redisTenant (tenantName i)).cfg where
  ids := fun _ => True
  extras := fun _ => True
  head := trivial
  whole := by cases i <;> decide
  cut := ⟨fun _ _ => trivial, fun _ _ => trivial⟩
  apart := .inl fun _ => trivial

theorem head_append {name rest : String} {c : Char} (h : name.toList.head? = some c) :
    (name ++ rest).toList.head? = some c := by
  rw [String.toList_append, List.head?_append, h]
  rfl

theorem etcdKeys_head {name k : String} {c : Char} (h : name.toList.head? = some c)
    (hk : (etcdKeys name).Owns k) : k.toList.head? = some c := by
  rcases hk with ⟨id, -, rfl⟩ | ⟨-, id, -, rfl⟩ | ⟨key, -, rfl⟩
  · exact head_append (head_append h)
  · exact head_append (head_append (head_append h))
  · exact head_append (head_append (head_append h))

theorem redisKeys_head {i : Bool} {k : String} {c : Char}
    (h : (tenantName i).toList.head? = some c) (hk : (redisKeys i).Owns k) :
    k.toList.head? = some c := by
  rcases hk with ⟨id, -, rfl | rfl⟩ | ⟨key, -, rfl⟩
  · exact head_append (head_append h)
  · exact head_append (head_append (head_append h))
  · exact head_append (head_append (head_append h))

theorem tenantName_head (i : Bool) :
    (tenantName i).toList.head? = some (if i then 'b' else 'a') := by
  cases i <;> decide

theorem tenants_disjoint :
    EtcdChain.Disjoint (fun i => etcdTenant (tenantName i)) (fun i => etcdKeys (tenantName i)) ∧
      RedisChain.Disjoint (fun i => redisTenant (tenantName i)) redisKeys := by
  have hchar : ∀ i j : Bool, some (if i then 'b' else 'a') = some (if j then 'b' else 'a') →
      i = j := by decide
  refine ⟨fun i j k hi hj => hchar i j ?_, fun i j k hi hj => hchar i j ?_⟩
  · rw [← etcdKeys_head (tenantName_head i) hi, etcdKeys_head (tenantName_head j) hj]
  · rw [← redisKeys_head (tenantName_head i) hi, redisKeys_head (tenantName_head j) hj]

theorem starts_empty : EtcdChain.Starts (fun i => etcdTenant (tenantName i))
    (fun i => etcdKeys (tenantName i)) EtcdChain.State.init where
  sound := Etcd.sound_empty
  closed := fun _ => ⟨fun _ _ hkv => (nomatch hkv), fun _ _ _ _ hx => (nomatch hx)⟩
  cached := fun _ _ _ _ _ hx => (nomatch hx)

theorem closed_empty (i : Bool) : (redisKeys i).Closed fun _ => none :=
  fun _ _ hv => by cases hv

/-- One object appends to its chain, while the other one keeps extra data under the same name. -/
theorem tenants_apart :
    EtcdChain.Apart (fun i => etcdTenant (tenantName i)) (fun i => etcdKeys (tenantName i))
      EtcdChain.State.init
      [.call false .head, .call true (.saveExtraData "x" "1"),
        .call false (.appendAfter ⟨1, "", some (), ""⟩ ⟨0, "n", some (), ""⟩),
        .call false (.saveExtraData "x" "2"), .call true (.loadExtraData "x")] ∧
    RedisChain.Apart (fun i => redisTenant (tenantName i)) redisKeys (fun _ => none)
      [(false, .head), (true, .saveExtraData "x" "1"),
        (false, .appendAfter ⟨"", some (), ""⟩ ⟨"n", some (), ""⟩),
        (false, .saveExtraData "x" "2"), (true, .loadExtraData "x")] := by
  refine ⟨chains_apart.1 _ _ _ _ tenants_disjoint.1 starts_empty (fun i c hc => ?_) ?_,
    chains_apart.2 _ _ _ _ tenants_disjoint.2 closed_empty (fun a ha => ?_) ?_⟩
  · simp only [List.mem_cons, EtcdChain.Act.call.injEq, List.not_mem_nil, or_false] at hc
    rcases hc with ⟨rfl, rfl⟩ | ⟨rfl, rfl⟩ | ⟨rfl, rfl⟩ | ⟨rfl, rfl⟩ | ⟨rfl, rfl⟩
    · trivial
    · trivial
    · exact ⟨trivial, trivial⟩
    · trivial
    · trivial
  · decide +kernel
  · simp only [List.mem_cons, List.not_mem_nil, or_false] at ha
    rcases ha with rfl | rfl | rfl | rfl | rfl
    · trivial
    · trivial
    · exact ⟨trivial, trivial⟩
    · trivial
    · trivial
  · decide +kernel

/-- The operation is on the head key of the first tenant. -/
def onFirstHead : StaticOp EtcdChain.Op EtcdChain.Static → Bool
  | .shared op => (EtcdChain.KeySet.etcdKeys op).contains "a:"
  | .static _ _ => false

def onFirstHeadRedis : StaticOp RedisChain.Op RedisChain.Static → Bool
  | .shared op => op.keys.contains "a:"
  | .static _ _ => false

/-- After `head` of the one, `head` of the other one reads and creates the key of the first. -/
theorem not_chains_apart_heads :
    (EtcdChain.Disjoint (fun i => etcdTenant (tenantName i)) (fun i => etcdKeys (tenantName i)) ∧
      ¬ EtcdChain.Apart (fun i => etcdTenant (tenantName i)) (fun i => etcdKeys (tenantName i))
        EtcdChain.State.init [.call false .head, .call true .head]) ∧
    RedisChain.Disjoint (fun i => redisTenant (tenantName i)) redisKeys ∧
      ¬ RedisChain.Apart (fun i => redisTenant (tenantName i)) redisKeys (fun _ => none)
        [(false, .head), (true, .head)] := by
  refine ⟨⟨tenants_disjoint.1, fun h => ?_⟩, tenants_disjoint.2, fun h => ?_⟩
  · have havoids : Prog.Along _ (fun o _ => onFirstHead o = false) _ _ :=
      Prog.Along.mono h.keys.2.1 fun o _ ho => by
        cases o with
        | static x init => rfl
        | shared op =>
            refine eq_false_of_ne_true fun hmem => ?_
            have hhead := etcdKeys_head (tenantName_head true)
              (EtcdChain.KeySet.owns_etcdKeys ho _ (List.contains_iff_mem.mp hmem))
            exact absurd hhead (by decide)
    exact absurd havoids (by decide +kernel)
  · have havoids : Prog.Along _ (fun o _ => onFirstHeadRedis o = false) _ _ :=
      Prog.Along.mono h.keys.2.1 fun o _ ho => by
        cases o with
        | static x init => rfl
        | shared op =>
            refine eq_false_of_ne_true fun hmem => ?_
            have hhead := redisKeys_head (tenantName_head true)
              (ho _ (List.contains_iff_mem.mp hmem))
            exact absurd hhead (by decide)
    exact absurd havoids (by decide +kernel)

end SharedChains
