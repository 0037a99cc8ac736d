import TMTransport.SharedMemory.ExtraData

/-!
# Extra data that is never overwritten

With `LockFreeAndWasteMemory` data stays as it was constructed, and a slot stays where
it is. A slot that has been stored to leads to what a save under its name was given.
Only the slot that is still as it was constructed leads to itself.
-/

namespace ExtraData

open Interleave

variable {ι : Type} {c : Config} {s s' : State ι} {t : ι}

/-- Where the data is, at each place of a call. -/
def Pc.LockFreeOk (c : Config) (s : State ι) : Pc → Prop
  | .idle | .construct _ _ | .findSlot _ _ => True
  | .findOrConstruct _ data dataPtr => s.object dataPtr = some (.bytes data)
  | .store key data loc dataPtr =>
      s.named (cStr key) = some loc ∧ s.object dataPtr = some (.bytes data)
  | .loadOffset key _ loc => s.named (cStr key) = some loc
  | .readSize key _ dataPtr => Stored c s (cStr key) dataPtr
  | .copy key _ dataPtr sz result => Copied c s (cStr key) dataPtr sz result
  | _ => False

structure LockFreeInv (c : Config) (s : State ι) : Prop where
  calls : Calls c s.pc s.history
  slots : ∀ name p, s.named name = some p → ∃ offset, s.object p = some (.slot offset) ∧
    (offset = 0 ∨ Stored c s name (p + offset))
  one_name : ∀ name name' p, s.named name = some p → s.named name' = some p → name = name'
  kept : ∀ key, .saved key ∈ s.history → (s.named (cStr key)).isSome = true
  pcs : ∀ t, (s.pc t).LockFreeOk c s

/-- What a step leaves as it is. -/
structure Keeps (s s' : State ι) : Prop where
  bytes : ∀ p data, s.object p = some (.bytes data) → s'.object p = some (.bytes data)
  named : ∀ name p, s.named name = some p → s'.named name = some p
  history : s.history ⊆ s'.history

theorem Keeps.stored (h : Keeps s s') {name : String} {p : Int} (hp : Stored c s name p) :
    Stored c s' name p := by
  obtain ⟨data, hobject, hgiven⟩ := hp
  exact ⟨data, h.bytes p data hobject, hgiven.mono h.history⟩

theorem Pc.LockFreeOk.mono {pc : Pc} (h : pc.LockFreeOk c s) (hk : Keeps s s') :
    pc.LockFreeOk c s' := by
  cases pc with
  | idle | construct | findSlot => trivial
  | findOrConstruct key data dataPtr => exact hk.bytes _ _ h
  | store key data loc dataPtr => exact ⟨hk.named _ _ h.1, hk.bytes _ _ h.2⟩
  | loadOffset key due loc => exact hk.named _ _ h
  | readSize key due dataPtr => exact hk.stored h
  | copy key due dataPtr sz result =>
      obtain ⟨data, hobject, hgiven, hsize⟩ := h
      exact ⟨data, hk.bytes _ _ hobject, hgiven.mono hk.history, hsize⟩
  | _ => exact h

/-- A new object is no slot that has a name, and no data that a call has come to. -/
theorem keeps_put {p : Int} {o : Object} (hfree : s.object p = none) :
    Keeps s (s.put p (some o)) where
  bytes q data hq := by
    have hne : q ≠ p := by
      rintro rfl
      rw [hfree] at hq
      cases hq
    exact (Function.update_of_ne hne _ _).trans hq
  named _ _ hp := hp
  history := List.Subset.refl _

section Steps

variable [DecidableEq ι]

namespace LockFreeInv

/-- The process `t` takes a step, and is at `pc'` then. -/
theorem turn (h : LockFreeInv c s) {pc' : Pc} (hk : Keeps s s')
    (hpc : s'.pc = Function.update s.pc t pc') (hcalls : Calls c s'.pc s'.history)
    (hslots : ∀ name p, s'.named name = some p → ∃ offset, s'.object p = some (.slot offset) ∧
      (offset = 0 ∨ Stored c s' name (p + offset)))
    (hname : ∀ name name' p, s'.named name = some p → s'.named name' = some p → name = name')
    (hkept : ∀ key, .saved key ∈ s'.history → (s'.named (cStr key)).isSome = true)
    (hok : pc'.LockFreeOk c s') : LockFreeInv c s' where
  calls := hcalls
  slots := hslots
  one_name := hname
  kept := hkept
  pcs u := by
    rw [hpc]
    by_cases hu : u = t
    · subst hu
      rwa [Function.update_self]
    · rw [Function.update_of_ne hu]
      exact (h.pcs u).mono hk

/-- The memory stays as it is. -/
theorem still (h : LockFreeInv c s) {pc' : Pc} (ho : s'.object = s.object)
    (hn : s'.named = s.named) (hh : s.history ⊆ s'.history)
    (hpc : s'.pc = Function.update s.pc t pc') (hcalls : Calls c s'.pc s'.history)
    (hkept : ∀ key, .saved key ∈ s'.history → .saved key ∈ s.history ∨
      (s.named (cStr key)).isSome = true)
    (hok : pc'.LockFreeOk c s') : LockFreeInv c s' := by
  have hk : Keeps s s' :=
    ⟨fun p data hp => ho ▸ hp, fun name p hp => hn ▸ hp, hh⟩
  refine h.turn hk hpc hcalls ?_ (by rw [hn]; exact h.one_name) ?_ hok
  · intro name p hp
    rw [hn] at hp
    obtain ⟨offset, hobject, hoffset⟩ := h.slots name p hp
    exact ⟨offset, ho ▸ hobject, hoffset.imp id hk.stored⟩
  · intro key hkey
    rw [hn]
    exact (hkept key hkey).elim (h.kept key) id

theorem goto (h : LockFreeInv c s) {pc' : Pc} (htold : pc'.Told c s.history)
    (hok : pc'.LockFreeOk c s) : LockFreeInv c (s.goto t pc') := by
  refine h.still (t := t) rfl rfl (List.Subset.refl _) rfl (h.calls.move htold)
    (fun _ hkey => .inl hkey) (hok.mono ⟨fun _ _ hp => hp, fun _ _ hp => hp, List.Subset.refl _⟩)

theorem construct (h : LockFreeInv c s) {key : String} {data : Bytes} {place : Int}
    (hpc : s.pc t = .construct key data) (hfree : s.object place = none) :
    LockFreeInv c ((s.put place (some (.bytes data))).goto t
      (.findOrConstruct key data place)) := by
  have htold := h.calls.told t
  rw [hpc] at htold
  have hk : Keeps s (s.put place (some (.bytes data))) := keeps_put hfree
  refine h.turn (t := t) ⟨hk.bytes, hk.named, hk.history⟩ rfl (h.calls.move htold) ?_ h.one_name
    h.kept (Function.update_self _ _ _)
  intro name p hp
  obtain ⟨offset, hobject, hoffset⟩ := h.slots name p hp
  have hne : p ≠ place := by
    rintro rfl
    rw [hfree] at hobject
    cases hobject
  exact ⟨offset, (Function.update_of_ne hne _ _).trans hobject, hoffset.imp id hk.stored⟩

/-- The slot is constructed. It leads to itself. -/
theorem newSlot (h : LockFreeInv c s) {key : String} {data : Bytes} {dataPtr place : Int}
    (hpc : s.pc t = .findOrConstruct key data dataPtr) (hnone : s.named (cStr key) = none)
    (hfree : s.object place = none) :
    LockFreeInv c ((s.construct (cStr key) place (.slot 0)).goto t
      (.store key data place dataPtr)) := by
  have htold := h.calls.told t
  have hok := h.pcs t
  rw [hpc] at htold hok
  have hput := keeps_put (o := .slot 0) hfree
  have hk : Keeps s (s.construct (cStr key) place (.slot 0)) := by
    refine ⟨hput.bytes, fun name p hp => ?_, hput.history⟩
    have hne : name ≠ cStr key := by
      rintro rfl
      rw [hnone] at hp
      cases hp
    exact (Function.update_of_ne hne _ _).trans hp
  have hplace : ∀ name p, s.named name = some p → p ≠ place := by
    rintro name p hp rfl
    obtain ⟨offset, hobject, -⟩ := h.slots name p hp
    rw [hfree] at hobject
    cases hobject
  have hnamed : ∀ name p, Function.update s.named (cStr key) (some place) name = some p →
      (name = cStr key ∧ p = place) ∨ s.named name = some p := by
    intro name p hp
    by_cases hname : name = cStr key
    · subst hname
      rw [Function.update_self] at hp
      exact .inl ⟨rfl, (Option.some.inj hp).symm⟩
    · rw [Function.update_of_ne hname] at hp
      exact .inr hp
  refine h.turn (t := t) ⟨hk.bytes, hk.named, hk.history⟩ rfl (h.calls.move htold) ?_ ?_ ?_
    ⟨Function.update_self _ _ _, hk.bytes _ _ hok⟩
  · intro name p hp
    rcases hnamed name p hp with ⟨rfl, rfl⟩ | hold
    · exact ⟨0, Function.update_self _ _ _, .inl rfl⟩
    · obtain ⟨offset, hobject, hoffset⟩ := h.slots name p hold
      exact ⟨offset, (Function.update_of_ne (hplace name p hold) _ _).trans hobject,
        hoffset.imp id hk.stored⟩
  · intro name name' p hp hp'
    rcases hnamed name p hp with ⟨rfl, rfl⟩ | hold
    · rcases hnamed name' p hp' with ⟨rfl, -⟩ | hold'
      · rfl
      · exact absurd rfl (hplace name' p hold')
    · rcases hnamed name' p hp' with ⟨-, rfl⟩ | hold'
      · exact absurd rfl (hplace name p hold)
      · exact h.one_name name name' p hold hold'
  · intro key' hkey'
    obtain ⟨p, hp⟩ := Option.isSome_iff_exists.mp (h.kept key' hkey')
    exact Option.isSome_iff_exists.mpr ⟨p, hk.named _ _ hp⟩

/-- From now on the slot leads to the new data. -/
theorem store (h : LockFreeInv c s) {key : String} {data : Bytes} {loc dataPtr : Int}
    (hpc : s.pc t = .store key data loc dataPtr) :
    LockFreeInv c ((s.put loc (some (.slot (dataPtr - loc)))).finish t (.saved key)) := by
  have htold := h.calls.told t
  have hok := h.pcs t
  rw [hpc] at htold hok
  obtain ⟨hloc, hdata⟩ := hok
  obtain ⟨old, hslot, -⟩ := h.slots _ _ hloc
  have hne : ∀ p content, s.object p = some (.bytes content) → p ≠ loc := by
    rintro p content hp rfl
    rw [hslot] at hp
    cases hp
  have hk : Keeps s ((s.put loc (some (.slot (dataPtr - loc)))).finish t (.saved key)) :=
    ⟨fun p content hp => (Function.update_of_ne (hne p content hp) _ _).trans hp,
      fun _ _ hp => hp, List.subset_cons_self _ _⟩
  refine h.turn (t := t) hk rfl (h.calls.saved htold.1) ?_ h.one_name ?_ trivial
  · intro name p hp
    by_cases hpl : p = loc
    · subst hpl
      -- the slot of this name only
      obtain rfl := h.one_name _ _ _ hp hloc
      refine ⟨dataPtr - p, Function.update_self _ _ _, .inr ?_⟩
      rw [show p + (dataPtr - p) = dataPtr by omega]
      exact hk.stored ⟨data, hdata, ⟨key, rfl, htold.1⟩, htold.2⟩
    · obtain ⟨offset, hobject, hoffset⟩ := h.slots name p hp
      exact ⟨offset, (Function.update_of_ne hpl _ _).trans hobject, hoffset.imp id hk.stored⟩
  · intro key' hkey'
    rcases List.mem_cons.mp hkey' with heq | hold
    · cases heq
      exact Option.isSome_iff_exists.mpr ⟨loc, hloc⟩
    · exact h.kept key' hold

/-- A load returns. -/
theorem loaded (h : LockFreeInv c s) {key : String} {due : Bool} {result : Option Bytes}
    (htold : .load key ∈ s.history ∧ (due = true → .saved key ∈ s.history))
    (hsome : ∀ data, result = some data → Given c s.history (cStr key) data)
    (hnone : result = none → .saved key ∉ s.history) :
    LockFreeInv c (s.finish t (.loaded key due result)) := by
  refine h.still (t := t) rfl rfl (List.subset_cons_self _ _) rfl
    (h.calls.loaded htold hsome hnone) (fun key' hkey' => ?_) trivial
  rcases List.mem_cons.mp hkey' with heq | hold
  · cases heq
  · exact .inl hold

theorem copied (h : LockFreeInv c s) (hc : c.strategy = .lockFreeAndWasteMemory) {key : String}
    {due : Bool} {dataPtr : Int} {sz : Nat} {result : Bytes}
    (hpc : s.pc t = .copy key due dataPtr sz result) (hge : ¬ result.length < sz) :
    LockFreeInv c (copied c s t key due result) := by
  have htold := h.calls.told t
  have hok := h.pcs t
  rw [hpc] at htold hok
  have hmutex : ¬ (c.strategy = .mutexProtected ∧ (c.plain (cStr key)).isSome = true) := by
    rw [hc]
    exact fun hm => Strategy.noConfusion hm.1
  rw [ExtraData.copied, if_neg hmutex]
  refine h.loaded htold (fun data hdata => ?_) fun hnone => by cases hnone
  cases hdata
  exact Copied.given hok hge

end LockFreeInv

theorem lockFreeInv_go (h : LockFreeInv c s) (hc : c.strategy = .lockFreeAndWasteMemory)
    {place : Int} {stray : UInt8} (hg : Orderly s (.go t place stray))
    (hs : go c s t place stray = some s') : LockFreeInv c s' := by
  have htold := h.calls.told t
  have hok := h.pcs t
  simp only [Orderly] at hg
  simp only [go] at hs
  cases hpc : s.pc t with
  | idle =>
      rw [hpc] at hs
      cases hs
  | construct key data =>
      simp only [hpc] at hs
      split at hs
      case isTrue hfree =>
        obtain rfl := Option.some.inj hs
        exact h.construct hpc hfree
      case isFalse => cases hs
  | findOrConstruct key data dataPtr =>
      rw [hpc] at htold hok
      simp only [hpc] at hs
      split at hs
      case h_1 loc hloc =>
        obtain rfl := Option.some.inj hs
        exact h.goto htold ⟨hloc, hok⟩
      case h_2 hnone =>
        split at hs
        case isTrue hfree =>
          obtain rfl := Option.some.inj hs
          exact h.newSlot hpc hnone hfree
        case isFalse => cases hs
  | store key data loc dataPtr =>
      simp only [hpc, Option.some.injEq] at hs
      subst hs
      exact h.store hpc
  | findSlot key due =>
      rw [hpc] at htold
      simp only [hpc] at hs
      split at hs
      case h_1 loc hloc =>
        obtain rfl := Option.some.inj hs
        exact h.goto htold hloc
      case h_2 hnone =>
        obtain rfl := Option.some.inj hs
        refine h.loaded htold (fun data hdata => by cases hdata) fun _ hsaved => ?_
        have := h.kept key hsaved
        rw [hnone] at this
        cases this
  | loadOffset key due loc =>
      rw [hpc] at htold hok hg
      obtain ⟨offset, hobject, hoffset⟩ := h.slots _ _ hok
      have hstored : Stored c s (cStr key) (loc + offset) := by
        refine hoffset.resolve_left ?_
        rintro rfl
        exact hg hobject
      simp only [hpc, hobject, Option.some.injEq] at hs
      subst hs
      cases hplain : c.plain (cStr key) with
      | none => exact h.goto htold hstored
      | some sz => exact h.goto htold (hstored.copied_plain hplain)
  | readSize key due dataPtr =>
      rw [hpc] at htold hok
      simp only [hpc, Option.some.injEq] at hs
      subst hs
      exact h.goto htold (Stored.copied hok)
  | copy key due dataPtr sz result =>
      rw [hpc] at htold hok
      simp only [hpc] at hs
      split at hs
      case isTrue hlt =>
        obtain rfl := Option.some.inj hs
        exact h.goto htold (Copied.next hok hlt stray)
      case isFalse hge =>
        obtain rfl := Option.some.inj hs
        exact h.copied hc hpc hge
  | _ =>
      rw [hpc] at hok
      exact hok.elim

theorem lockFreeInv_step (h : LockFreeInv c s) (hc : c.strategy = .lockFreeAndWasteMemory)
    {a : Act ι} (hg : Orderly s a) (hs : step c s a = some s') : LockFreeInv c s' := by
  cases a with
  | save t key data =>
      simp only [step, hc] at hs
      split at hs
      case isTrue hidle =>
        obtain rfl := Option.some.inj hs
        refine h.still (t := t) rfl rfl (List.subset_cons_self _ _) rfl
          (h.calls.note hg trivial ⟨List.mem_cons_self, hidle.2⟩) (fun key' hkey' => ?_) trivial
        rcases List.mem_cons.mp hkey' with heq | hold
        · cases heq
        · exact .inl hold
      case isFalse => cases hs
  | load t key =>
      simp only [step, hc] at hs
      split at hs
      case isTrue hidle =>
        obtain rfl := Option.some.inj hs
        refine h.still (t := t) rfl rfl (List.subset_cons_self _ _) rfl
          (h.calls.note hg trivial ⟨List.mem_cons_self, fun hdue => ?_⟩)
          (fun key' hkey' => ?_) trivial
        · exact List.mem_cons_of_mem _ (of_decide_eq_true hdue)
        · rcases List.mem_cons.mp hkey' with heq | hold
          · cases heq
          · exact .inl hold
      case isFalse => cases hs
  | go t place stray => exact lockFreeInv_go h hc hg hs

theorem lockFreeInv_init : LockFreeInv c (machine ι c).init where
  calls := ⟨fun _ => trivial, fun e he => absurd he List.not_mem_nil, trivial⟩
  slots name p hp := by cases hp
  one_name name name' p hp := by cases hp
  kept key hkey := absurd hkey List.not_mem_nil
  pcs _ := trivial

end Steps

end ExtraData
