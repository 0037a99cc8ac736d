import TMTransport.SharedMemory.ExtraData

/-!
# Extra data under a mutex

A process that has the mutex finds under each name all of what a save was given, or
nothing if no save has returned. This is not so only under the name that the process
itself writes to.

A load that has given the mutex up has a view of the data still. It gets all of it
if nobody writes there before the bytes are copied.
-/

namespace ExtraData

open Interleave

variable {ι : Type} {c : Config} {s s' : State ι} {t : ι} {name : String} {p : Int}

/-- Does the process have the mutex? A load of a plain type copies with the mutex held. -/
def Pc.inside (c : Config) : Pc → Bool
  | .findToSave _ _ | .destroy _ _ _ | .constructNamed _ _ | .fill _ _ _ _ | .unlockSaved _ _
  | .findToLoad _ _ | .unlockLoaded _ _ _ | .unlockView _ _ _ _ => true
  | .copy key _ _ _ _ => (c.plain (cStr key)).isSome
  | _ => false

/-- The name that is being written to. -/
def Pc.writes : Pc → Option String
  | .constructNamed key _ | .fill key _ _ _ => some (cStr key)
  | _ => none

/-- Under the name there is all that a save was given, or nothing. -/
def Settled (c : Config) (s : State ι) (name : String) : Prop :=
  (s.named name = none ∧ ∀ key, cStr key = name → .saved key ∉ s.history) ∨
    ∃ p, s.named name = some p ∧ Stored c s name p

/-- As many bytes as have been written are right. -/
def Filled (s : State ι) (p : Int) (data : Bytes) (i : Nat) : Prop :=
  ∃ content, s.object p = some (.bytes content) ∧ content.length = data.length ∧
    content.take i = data.take i

/-- Where the data is, at each place of a call. -/
def Pc.MutexOk (c : Config) (s : State ι) : Pc → Prop
  | .idle | .lockToSave _ _ | .findToSave _ _ | .lockToLoad _ _ | .findToLoad _ _ => True
  | .destroy key _ p => s.named (cStr key) = some p
  | .constructNamed key _ => s.named (cStr key) = none
  | .fill key data p i => s.named (cStr key) = some p ∧ Filled s p data i
  | .unlockSaved key _ => ∃ p, s.named (cStr key) = some p ∧ Stored c s (cStr key) p
  | .unlockLoaded key _ result =>
      (∀ data, result = some data → Given c s.history (cStr key) data) ∧
      (result = none → .saved key ∉ s.history)
  | .unlockView key _ p sz => c.plain (cStr key) = none ∧ Copied c s (cStr key) p sz []
  | .copy key _ p sz result => Copied c s (cStr key) p sz result
  | _ => False

structure MutexInv (c : Config) (s : State ι) : Prop where
  calls : Calls c s.pc s.history
  one_name : ∀ name name' p, s.named name = some p → s.named name' = some p → name = name'
  there : ∀ name p, s.named name = some p → ∃ content, s.object p = some (.bytes content)
  holder : ∀ t, (s.pc t).inside c = true → s.mutex = some t
  settled : ∀ name, Settled c s name ∨ ∃ t, (s.pc t).writes = some name
  pcs : ∀ t, (s.pc t).MutexOk c s

theorem Pc.inside_of_writes {pc : Pc} (h : pc.writes = some name) : pc.inside c = true := by
  cases pc with
  | constructNamed | fill => rfl
  | _ => cases h

theorem Settled.congr (h : Settled c s name) (hn : s'.named name = s.named name)
    (ho : ∀ p, s.named name = some p → s'.object p = s.object p)
    (hh : s.history ⊆ s'.history)
    (hsaved : ∀ key, .saved key ∈ s'.history → .saved key ∈ s.history) : Settled c s' name := by
  rcases h with ⟨hnone, hno⟩ | ⟨p, hp, hstored⟩
  · exact .inl ⟨hn.trans hnone, fun key hkey hmem => hno key hkey (hsaved key hmem)⟩
  · exact .inr ⟨p, hn.trans hp, hstored.mono (ho p hp) hh⟩

/-- A process without the mutex only depends on the data that it has a view of. -/
theorem Pc.MutexOk.outside {pc : Pc} (h : pc.MutexOk c s) (hout : pc.inside c ≠ true)
    (ho : ∀ p, pc.source = some p → s'.object p = s.object p)
    (hh : s.history ⊆ s'.history) : pc.MutexOk c s' := by
  cases pc with
  | idle | lockToSave | lockToLoad => trivial
  | copy key due p sz result => exact Copied.mono h (ho p rfl) hh
  | findToSave | destroy | constructNamed | fill | unlockSaved | findToLoad | unlockLoaded
  | unlockView => exact absurd rfl hout
  | _ => exact h

/-- As long as no save returns, nothing depends on more than the memory. -/
theorem Pc.MutexOk.still {pc : Pc} (h : pc.MutexOk c s) (ho : s'.object = s.object)
    (hn : s'.named = s.named) (hh : s.history ⊆ s'.history)
    (hsaved : ∀ key, .saved key ∈ s'.history → .saved key ∈ s.history) : pc.MutexOk c s' := by
  have hat : ∀ p, s'.object p = s.object p := fun p => congrFun ho p
  cases pc with
  | idle | lockToSave | findToSave | lockToLoad | findToLoad => trivial
  | destroy | constructNamed => exact (congrFun hn _).trans h
  | fill key data p i =>
      exact ⟨(congrFun hn _).trans h.1, h.2.imp fun _ hf => ⟨(hat p).trans hf.1, hf.2⟩⟩
  | unlockSaved key data =>
      exact h.imp fun p hp => ⟨(congrFun hn _).trans hp.1, hp.2.mono (hat p) hh⟩
  | unlockLoaded key due result =>
      exact ⟨fun data hdata => (h.1 data hdata).mono hh, fun hnone hmem => h.2 hnone
        (hsaved key hmem)⟩
  | unlockView key due p sz => exact ⟨h.1, h.2.mono (hat p) hh⟩
  | copy key due p sz result => exact Copied.mono h (hat p) hh
  | _ => exact h

/-- All bytes have been written. -/
theorem Filled.stored {key : String} {data : Bytes} {i : Nat} (h : Filled s p data i)
    (hi : data[i]? = none) (hgiven : Given c s.history (cStr key) data) :
    Stored c s (cStr key) p := by
  obtain ⟨content, hobject, hlen, htake⟩ := h
  have hle := List.getElem?_eq_none_iff.mp hi
  rw [List.take_of_length_le (by omega), List.take_of_length_le hle] at htake
  subst htake
  exact ⟨content, hobject, hgiven⟩

/-- The process that has the mutex is the only one inside. -/
theorem MutexInv.alone (h : MutexInv c s) {u : ι} (ht : (s.pc t).inside c = true)
    (hu : (s.pc u).inside c = true) : u = t :=
  Option.some.inj ((h.holder u hu).symm.trans (h.holder t ht))

theorem MutexInv.settled_inside (h : MutexInv c s) (ht : (s.pc t).inside c = true)
    (hw : (s.pc t).writes ≠ some name) : Settled c s name := by
  refine (h.settled name).resolve_right fun ⟨u, hu⟩ => hw ?_
  rwa [← h.alone ht (Pc.inside_of_writes hu)]

section Steps

variable [DecidableEq ι]

namespace MutexInv

/-- The process `t` takes a step, and is at `pc'` then. -/
theorem turn {pc' : Pc} (hpc : s'.pc = Function.update s.pc t pc')
    (hcalls : Calls c s'.pc s'.history)
    (hname : ∀ name name' p, s'.named name = some p → s'.named name' = some p → name = name')
    (hthere : ∀ name p, s'.named name = some p → ∃ content, s'.object p = some (.bytes content))
    (hin : pc'.inside c = true → s'.mutex = some t)
    (hout : ∀ u, u ≠ t → (s.pc u).inside c = true → s'.mutex = some u)
    (hsettled : ∀ name, Settled c s' name ∨ pc'.writes = some name ∨
      ∃ u, u ≠ t ∧ (s.pc u).writes = some name)
    (hok : pc'.MutexOk c s') (hothers : ∀ u, u ≠ t → (s.pc u).MutexOk c s') : MutexInv c s' where
  calls := hcalls
  one_name := hname
  there := hthere
  holder u := by
    rw [hpc]
    by_cases hu : u = t
    · subst hu
      rwa [Function.update_self]
    · rw [Function.update_of_ne hu]
      exact hout u hu
  settled name := by
    rcases hsettled name with hs | hw | ⟨u, hu, hw⟩
    · exact .inl hs
    · exact .inr ⟨t, by rwa [hpc, Function.update_self]⟩
    · exact .inr ⟨u, by rwa [hpc, Function.update_of_ne hu]⟩
  pcs u := by
    rw [hpc]
    by_cases hu : u = t
    · subst hu
      rwa [Function.update_self]
    · rw [Function.update_of_ne hu]
      exact hothers u hu

/-- Only `t` goes on. What it was writing is settled, or it still writes it. -/
theorem goto (h : MutexInv c s) {pc' : Pc} (htold : pc'.Told c s.history)
    (hin : pc'.inside c = true → (s.pc t).inside c = true)
    (hsettled : ∀ name, (s.pc t).writes = some name →
      Settled c s name ∨ pc'.writes = some name)
    (hok : pc'.MutexOk c s) : MutexInv c (s.goto t pc') := by
  refine turn (t := t) rfl (h.calls.move htold) h.one_name h.there
    (fun hi => h.holder t (hin hi)) (fun u _ hu => h.holder u hu) (fun name => ?_)
    (hok.still rfl rfl (List.Subset.refl _) fun _ hmem => hmem)
    (fun u _ => (h.pcs u).still rfl rfl (List.Subset.refl _) fun _ hmem => hmem)
  have hcongr : Settled c s name → Settled c (s.goto t pc') name := fun hs =>
    hs.congr rfl (fun _ _ => rfl) (List.Subset.refl _) fun _ hmem => hmem
  rcases h.settled name with hs | ⟨u, hu⟩
  · exact .inl (hcongr hs)
  · by_cases hut : u = t
    · subst hut
      exact (hsettled name hu).imp hcongr .inl
    · exact .inr (.inr ⟨u, hut, hu⟩)

/-- A process takes the mutex. -/
theorem lock (h : MutexInv c s) {pc' : Pc} (hfree : s.mutex = none)
    (htold : pc'.Told c s.history) (hok : pc'.MutexOk c s) :
    MutexInv c { s.goto t pc' with mutex := some t } := by
  have hnobody : ∀ u, (s.pc u).inside c ≠ true := by
    intro u hu
    have := h.holder u hu
    rw [hfree] at this
    cases this
  refine turn (t := t) rfl (h.calls.move htold) h.one_name h.there (fun _ => rfl)
    (fun u _ hu => absurd hu (hnobody u)) (fun name => .inl ?_)
    (hok.still rfl rfl (List.Subset.refl _) fun _ hmem => hmem)
    (fun u _ => (h.pcs u).still rfl rfl (List.Subset.refl _) fun _ hmem => hmem)
  have hs : Settled c s name := (h.settled name).resolve_right fun ⟨u, hu⟩ =>
    hnobody u (Pc.inside_of_writes hu)
  exact hs.congr rfl (fun _ _ => rfl) (List.Subset.refl _) fun _ hmem => hmem

/-- The process that has the mutex gives it up, and the call returns, or goes on with a view. -/
theorem unlock (h : MutexInv c s) {pc' : Pc} {history : List Event}
    (ht : (s.pc t).inside c = true) (hw : (s.pc t).writes = none)
    (hcalls : Calls c (Function.update s.pc t pc') history) (hh : s.history ⊆ history)
    (hsaved : ∀ key, .saved key ∈ history → .saved key ∈ s.history ∨
      ∃ p, s.named (cStr key) = some p ∧ Stored c s (cStr key) p)
    (hin : pc'.inside c ≠ true)
    (hok : pc'.MutexOk c { s.goto t pc' with mutex := none, history := history }) :
    MutexInv c { s.goto t pc' with mutex := none, history := history } := by
  have hout : ∀ u, u ≠ t → (s.pc u).inside c ≠ true := fun u hu hui => hu (h.alone ht hui)
  refine turn (t := t) rfl hcalls h.one_name h.there (fun hi => absurd hi hin)
    (fun u hu hui => absurd hui (hout u hu)) (fun name => .inl ?_) hok
    (fun u hu => (h.pcs u).outside (hout u hu) (fun _ _ => rfl) hh)
  have hs : Settled c s name := h.settled_inside ht (by rw [hw]; exact fun hn => by cases hn)
  rcases hs with ⟨hnone, hno⟩ | ⟨p, hp, hstored⟩
  · refine .inl ⟨hnone, fun key hkey hmem => ?_⟩
    rcases hsaved key hmem with hold | ⟨p, hp, -⟩
    · exact hno key hkey hold
    · rw [hkey, hnone] at hp
      cases hp
  · exact .inr ⟨p, hp, hstored.mono rfl hh⟩

/-- The process that has the mutex writes to a name. Views that others have are not touched. -/
theorem write (h : MutexInv c s) (name : String) {object : Int → Option Object}
    {named : String → Option Int}
    {pc' : Pc} (htold : pc'.Told c s.history) (ht : (s.pc t).inside c = true)
    (hwas : ∀ name', (s.pc t).writes = some name' → name' = name)
    (hwrites : pc'.writes = some name)
    (hnamed : ∀ name', name' ≠ name → named name' = s.named name')
    (hobject : ∀ name' q, name' ≠ name → s.named name' = some q → object q = s.object q)
    (hname : ∀ q, named name = some q → ∀ name', name' ≠ name → s.named name' ≠ some q)
    (hthere : ∀ q, named name = some q → ∃ content, object q = some (.bytes content))
    (hviews : ∀ u q, (s.pc u).source = some q → object q = s.object q)
    (hok : pc'.MutexOk c { s.goto t pc' with object := object, named := named }) :
    MutexInv c { s.goto t pc' with object := object, named := named } := by
  have hout : ∀ u, u ≠ t → (s.pc u).inside c ≠ true := fun u hu hui => hu (h.alone ht hui)
  refine turn (t := t) rfl (h.calls.move htold) ?_ ?_ (fun _ => h.holder t ht)
    (fun u hu hui => absurd hui (hout u hu)) (fun name' => ?_) hok
    (fun u hu => (h.pcs u).outside (hout u hu) (fun q hq => hviews u q hq) (List.Subset.refl _))
  · intro n n' q hq hq'
    by_cases hn : n = name
    · by_cases hn' : n' = name
      · rw [hn, hn']
      · subst hn
        exact absurd ((hnamed n' hn').symm.trans hq') (hname q hq n' hn')
    · by_cases hn' : n' = name
      · subst hn'
        exact absurd ((hnamed n hn).symm.trans hq) (hname q hq' n hn)
      · exact h.one_name n n' q ((hnamed n hn).symm.trans hq) ((hnamed n' hn').symm.trans hq')
  · intro n q hq
    by_cases hn : n = name
    · subst hn
      exact hthere q hq
    · have hold := (hnamed n hn).symm.trans hq
      obtain ⟨content, hcontent⟩ := h.there n q hold
      exact ⟨content, (hobject n q hn hold).trans hcontent⟩
  · by_cases hn : name' = name
    · exact .inr (.inl (hwrites.trans (congrArg some hn.symm)))
    · have hs : Settled c s name' := h.settled_inside ht fun hw => hn (hwas name' hw)
      exact .inl (hs.congr (hnamed name' hn) (fun q hq => hobject name' q hn hq)
        (List.Subset.refl _) fun _ hmem => hmem)

/-- A call begins, or a load without the mutex returns. -/
theorem outside (h : MutexInv c s) {pc' : Pc} {history : List Event}
    (ht : (s.pc t).inside c ≠ true) (hin : pc'.inside c ≠ true)
    (hcalls : Calls c (Function.update s.pc t pc') history) (hh : s.history ⊆ history)
    (hsaved : ∀ key, .saved key ∈ history → .saved key ∈ s.history)
    (hok : pc'.MutexOk c { s.goto t pc' with history := history }) :
    MutexInv c { s.goto t pc' with history := history } := by
  refine turn (t := t) rfl hcalls h.one_name h.there (fun hi => absurd hi hin)
    (fun u _ hu => h.holder u hu) (fun name => ?_) hok
    (fun u _ => (h.pcs u).still rfl rfl hh hsaved)
  rcases h.settled name with hs | ⟨u, hu⟩
  · exact .inl (hs.congr rfl (fun _ _ => rfl) hh hsaved)
  · refine .inr (.inr ⟨u, ?_, hu⟩)
    rintro rfl
    exact ht (Pc.inside_of_writes hu)

/-- The value is constructed under its name. -/
theorem newValue (h : MutexInv c s) {key : String} {data : Bytes} {place : Int} {sz : Nat}
    (htold : (s.pc t).Told c s.history → (Pc.fill key data place 0).Told c s.history)
    (ht : (s.pc t).inside c = true)
    (hwas : ∀ name', (s.pc t).writes = some name' → name' = cStr key)
    (hsz : sz = data.length) (hfree : s.object place = none) :
    MutexInv c ((s.construct (cStr key) place (.bytes (List.replicate sz 0))).goto t
      (.fill key data place 0)) := by
  have hold : ∀ name' q, s.named name' = some q → q ≠ place := by
    rintro name' q hq rfl
    obtain ⟨content, hcontent⟩ := h.there name' q hq
    rw [hfree] at hcontent
    cases hcontent
  have hplace : ∀ q, Function.update s.named (cStr key) (some place) (cStr key) = some q →
      place = q := by
    intro q hq
    rw [Function.update_self] at hq
    exact Option.some.inj hq
  have hview : ∀ u q, (s.pc u).source = some q → q ≠ place := by
    rintro u q hq rfl
    have hok := h.pcs u
    cases hpc : s.pc u with
    | copy key' due p sz' result =>
        rw [hpc] at hq hok
        cases hq
        obtain ⟨content, hcontent, -⟩ := hok
        rw [hfree] at hcontent
        cases hcontent
    | unlockView key' due p sz' =>
        rw [hpc] at hq hok
        cases hq
        obtain ⟨-, content, hcontent, -⟩ := hok
        rw [hfree] at hcontent
        cases hcontent
    | _ =>
        rw [hpc] at hq
        cases hq
  refine h.write (t := t) (cStr key) (htold (h.calls.told t)) ht hwas rfl
    (fun name' hne => Function.update_of_ne hne _ _)
    (fun name' q _ hq => Function.update_of_ne (hold name' q hq) _ _) ?_ ?_
    (fun u q hq => Function.update_of_ne (hview u q hq) _ _) ?_
  · rintro q hq name' - hq'
    obtain rfl := hplace q hq
    exact hold name' place hq' rfl
  · intro q hq
    obtain rfl := hplace q hq
    exact ⟨_, Function.update_self _ _ _⟩
  · exact ⟨Function.update_self _ _ _, _, Function.update_self _ _ _, by simp [hsz], rfl⟩

/-- The old value is destroyed, while nobody has a view of it. -/
theorem destroy (h : MutexInv c s) {key : String} {data : Bytes}
    (hpc : s.pc t = .destroy key data p)
    (hview : ∀ u, (s.pc u).source ≠ some p) :
    MutexInv c ((s.destroy (cStr key) p).goto t (.constructNamed key data)) := by
  have htold := h.calls.told t
  have hok := h.pcs t
  rw [hpc] at htold hok
  have hnone : (s.destroy (cStr key) p).named (cStr key) = none := Function.update_self _ _ _
  refine h.write (t := t) (cStr key) htold (by rw [hpc]; rfl)
    (fun name' hw => by rw [hpc] at hw; cases hw) rfl
    (fun name' hne => Function.update_of_ne hne _ _) ?_ ?_ ?_ ?_ (Function.update_self _ _ _)
  · intro name' q hne hq
    refine Function.update_of_ne ?_ _ _
    rintro rfl
    exact hne (h.one_name _ _ _ hq hok)
  · intro q hq
    cases hnone.symm.trans hq
  · intro q hq
    cases hnone.symm.trans hq
  · intro u q hq
    refine Function.update_of_ne ?_ _ _
    rintro rfl
    exact hview u hq

/-- One byte is overwritten, while nobody has a view. -/
theorem fill (h : MutexInv c s) {key : String} {data content : Bytes} {i : Nat} {b : UInt8}
    (hpc : s.pc t = .fill key data p i) (hb : data[i]? = some b)
    (hobject : s.object p = some (.bytes content)) (hview : ∀ u, (s.pc u).source ≠ some p) :
    MutexInv c ((s.put p (some (.bytes (content.set i b)))).goto t (.fill key data p (i + 1))) := by
  have htold := h.calls.told t
  have hok := h.pcs t
  rw [hpc] at htold hok
  obtain ⟨hnamed, content', hcontent', hlen, htake⟩ := hok
  cases hobject.symm.trans hcontent'
  refine h.write (t := t) (cStr key) htold (by rw [hpc]; rfl) (fun name' hw => ?_) rfl
    (fun name' _ => rfl) ?_ ?_ ?_ ?_ ⟨hnamed, _, Function.update_self _ _ _, ?_, ?_⟩
  · rw [hpc] at hw
    exact (Option.some.inj hw).symm
  · intro name' q hne hq
    refine Function.update_of_ne ?_ _ _
    rintro rfl
    exact hne (h.one_name _ _ _ hq hnamed)
  · intro q hq name' hne hq'
    exact hne (h.one_name _ _ _ hq' hq)
  · intro q hq
    cases hq.symm.trans hnamed
    exact ⟨_, Function.update_self _ _ _⟩
  · intro u q hq
    refine Function.update_of_ne ?_ _ _
    rintro rfl
    exact hview u hq
  · rw [List.length_set, hlen]
  · have hi : i < content.length := hlen ▸ (List.getElem?_eq_some_iff.mp hb).1
    rw [List.take_add_one, List.take_add_one, hb, List.getElem?_set_self hi,
      List.take_set_of_le (Nat.le_refl i), htake]

/-- A load has all bytes. -/
theorem copied (h : MutexInv c s) {key : String} {due : Bool} {sz : Nat} {result : Bytes}
    (hc : c.strategy = .mutexProtected) (hpc : s.pc t = .copy key due p sz result)
    (hge : ¬ result.length < sz) : MutexInv c (copied c s t key due result) := by
  have htold := h.calls.told t
  have hok := h.pcs t
  rw [hpc] at htold hok
  have hgiven : ∀ data, some result = some data → Given c s.history (cStr key) data := by
    intro data hdata
    cases hdata
    exact Copied.given hok hge
  rw [ExtraData.copied]
  by_cases hplain : (c.plain (cStr key)).isSome = true
  · rw [if_pos ⟨hc, hplain⟩]
    refine h.goto htold (fun _ => by rw [hpc]; exact hplain) (fun name hw => ?_)
      ⟨hgiven, fun hnone => by cases hnone⟩
    rw [hpc] at hw
    cases hw
  · rw [if_neg fun hm => hplain hm.2]
    refine h.outside (t := t) (by rw [hpc]; exact hplain) (fun hin => by cases hin)
      (h.calls.loaded htold hgiven fun hnone => by cases hnone) (List.subset_cons_self _ _)
      (fun key' hmem => ?_) trivial
    rcases List.mem_cons.mp hmem with heq | hold
    · cases heq
    · exact hold

end MutexInv

theorem mutexInv_go (h : MutexInv c s) (hc : c.strategy = .mutexProtected)
    {place : Int} {stray : UInt8} (hg : Orderly s (.go t place stray))
    (hs : go c s t place stray = some s') : MutexInv c s' := by
  have htold := h.calls.told t
  have hok := h.pcs t
  simp only [Orderly] at hg
  simp only [go] at hs
  cases hpc : s.pc t with
  | idle =>
      rw [hpc] at hs
      cases hs
  | lockToSave key data =>
      rw [hpc] at htold
      simp only [hpc] at hs
      split at hs
      case isTrue hfree =>
        obtain rfl := Option.some.inj hs
        exact h.lock hfree htold trivial
      case isFalse => cases hs
  | lockToLoad key due =>
      rw [hpc] at htold
      simp only [hpc] at hs
      split at hs
      case isTrue hfree =>
        obtain rfl := Option.some.inj hs
        exact h.lock hfree htold trivial
      case isFalse => cases hs
  | findToSave key data =>
      rw [hpc] at htold
      have ht : (s.pc t).inside c = true := by rw [hpc]; rfl
      have hw : ∀ name, (s.pc t).writes ≠ some name := by
        intro name hw
        rw [hpc] at hw
        cases hw
      simp only [hpc] at hs
      split at hs
      case h_1 p sz hp hplain =>
        obtain rfl := Option.some.inj hs
        obtain ⟨q, hq, content, hcontent, -, hsize⟩ : ∃ q, s.named (cStr key) = some q ∧
            Stored c s (cStr key) q := by
          refine (h.settled_inside ht (hw _)).resolve_left fun hnone => ?_
          rw [hp] at hnone
          cases hnone.1
        cases hp.symm.trans hq
        have hlen : content.length = data.length := by
          have hdata := htold.2
          rw [hplain, Option.getD_some] at hsize hdata
          omega
        exact h.goto htold (fun _ => ht) (fun name hn => absurd hn (hw name))
          ⟨hp, content, hcontent, hlen, rfl⟩
      case h_2 sz hp hplain =>
        split at hs
        case isTrue hfree =>
          obtain rfl := Option.some.inj hs
          have hsz := htold.2
          rw [hplain, Option.getD_some] at hsz
          exact h.newValue (fun _ => htold) ht (fun name hn => absurd hn (hw name)) hsz hfree
        case isFalse => cases hs
      case h_3 p hp hplain =>
        obtain rfl := Option.some.inj hs
        obtain ⟨content, hcontent⟩ := h.there _ _ hp
        split
        case isTrue => exact h.goto htold (fun _ => ht) (fun name hn => absurd hn (hw name)) hp
        case isFalse hsize =>
          rw [sizeAt, hcontent, not_not] at hsize
          exact h.goto htold (fun _ => ht) (fun name hn => absurd hn (hw name))
            ⟨hp, content, hcontent, hsize, rfl⟩
      case h_4 hp hplain =>
        obtain rfl := Option.some.inj hs
        exact h.goto htold (fun _ => ht) (fun name hn => absurd hn (hw name)) hp
  | destroy key data oldDataPtr =>
      rw [hpc] at hg
      simp only [hpc, Option.some.injEq] at hs
      subst hs
      exact h.destroy hpc hg
  | constructNamed key data =>
      simp only [hpc] at hs
      split at hs
      case isTrue hfree =>
        obtain rfl := Option.some.inj hs
        refine h.newValue (fun htold => ?_) (by rw [hpc]; rfl) (fun name hn => ?_) rfl hfree
        · rw [hpc] at htold
          exact htold
        · rw [hpc] at hn
          exact (Option.some.inj hn).symm
      case isFalse => cases hs
  | fill key data dataPtr i =>
      rw [hpc] at htold hok hg
      simp only [hpc] at hs
      split at hs
      case h_1 hdone =>
        obtain rfl := Option.some.inj hs
        have hstored := hok.2.stored hdone ⟨⟨key, rfl, htold.1⟩, htold.2⟩
        refine h.goto htold (fun _ => by rw [hpc]; rfl) (fun name hn => .inl ?_)
          ⟨dataPtr, hok.1, hstored⟩
        rw [hpc] at hn
        obtain rfl := Option.some.inj hn
        exact .inr ⟨dataPtr, hok.1, hstored⟩
      case h_2 b hb =>
        obtain ⟨content, hcontent, -⟩ := hok.2
        simp only [hcontent, Option.some.injEq] at hs
        subst hs
        exact h.fill hpc hb hcontent (hg (List.getElem?_eq_some_iff.mp hb).1)
  | unlockSaved key data =>
      rw [hpc] at htold hok
      simp only [hpc, Option.some.injEq] at hs
      subst hs
      refine h.unlock (t := t) (by rw [hpc]; rfl) (by rw [hpc]; rfl) (h.calls.saved htold.1)
        (List.subset_cons_self _ _) (fun key' hmem => ?_) (fun hin => by cases hin) trivial
      rcases List.mem_cons.mp hmem with heq | hold
      · cases heq
        exact .inr hok
      · exact .inl hold
  | findToLoad key due =>
      rw [hpc] at htold
      have ht : (s.pc t).inside c = true := by rw [hpc]; rfl
      have hw : ∀ name, (s.pc t).writes ≠ some name := by
        intro name hw
        rw [hpc] at hw
        cases hw
      simp only [hpc, Option.some.injEq] at hs
      subst hs
      rcases h.settled_inside ht (hw (cStr key)) with ⟨hnone, hno⟩ | ⟨p, hp, hstored⟩
      · rw [hnone]
        refine h.goto htold (fun _ => ht) (fun name hn => absurd hn (hw name)) ⟨?_, ?_⟩
        · intro data hdata
          cases hdata
        · intro _
          exact hno key rfl
      · rw [hp]
        cases hplain : c.plain (cStr key) with
        | none =>
            exact h.goto htold (fun _ => ht) (fun name hn => absurd hn (hw name))
              ⟨hplain, hstored.copied⟩
        | some sz =>
            exact h.goto htold (fun _ => by rw [hpc]; rfl) (fun name hn => absurd hn (hw name))
              (hstored.copied_plain hplain)
  | unlockLoaded key due result =>
      rw [hpc] at htold hok
      simp only [hpc, Option.some.injEq] at hs
      subst hs
      refine h.unlock (t := t) (by rw [hpc]; rfl) (by rw [hpc]; rfl)
        (h.calls.loaded htold hok.1 hok.2) (List.subset_cons_self _ _) (fun key' hmem => ?_)
        (fun hin => by cases hin) trivial
      rcases List.mem_cons.mp hmem with heq | hold
      · cases heq
      · exact .inl hold
  | unlockView key due dataPtr sz =>
      rw [hpc] at htold hok
      simp only [hpc, Option.some.injEq] at hs
      subst hs
      refine h.unlock (t := t) (by rw [hpc]; rfl) (by rw [hpc]; rfl) (h.calls.move htold)
        (List.Subset.refl _) (fun key' hmem => .inl hmem) ?_ (hok.2.mono rfl (List.Subset.refl _))
      rw [Pc.inside, hok.1]
      exact Bool.false_ne_true
  | copy key due dataPtr sz result =>
      rw [hpc] at htold hok
      simp only [hpc] at hs
      split at hs
      case isTrue hlt =>
        obtain rfl := Option.some.inj hs
        refine h.goto htold (fun hin => by rw [hpc]; exact hin) (fun name hn => ?_)
          (Copied.next hok hlt stray)
        rw [hpc] at hn
        cases hn
      case isFalse hge =>
        obtain rfl := Option.some.inj hs
        exact h.copied hc hpc hge
  | _ =>
      rw [hpc] at hok
      exact hok.elim

theorem mutexInv_step (h : MutexInv c s) (hc : c.strategy = .mutexProtected)
    {a : Act ι} (hg : Orderly s a) (hs : step c s a = some s') : MutexInv c s' := by
  cases a with
  | save t key data =>
      simp only [step, hc] at hs
      split at hs
      case isTrue hidle =>
        obtain rfl := Option.some.inj hs
        refine h.outside (t := t) (by rw [hidle.1]; exact Bool.false_ne_true) Bool.false_ne_true
          (h.calls.note hg trivial ⟨List.mem_cons_self, hidle.2⟩) (List.subset_cons_self _ _)
          (fun key' hmem => ?_) trivial
        rcases List.mem_cons.mp hmem with heq | hold
        · cases heq
        · exact hold
      case isFalse => cases hs
  | load t key =>
      simp only [step, hc] at hs
      split at hs
      case isTrue hidle =>
        obtain rfl := Option.some.inj hs
        refine h.outside (t := t) (by rw [hidle]; exact Bool.false_ne_true) Bool.false_ne_true
          (h.calls.note hg trivial ⟨List.mem_cons_self, fun hdue => ?_⟩)
          (List.subset_cons_self _ _) (fun key' hmem => ?_) trivial
        · exact List.mem_cons_of_mem _ (of_decide_eq_true hdue)
        · rcases List.mem_cons.mp hmem with heq | hold
          · cases heq
          · exact hold
      case isFalse => cases hs
  | go t place stray => exact mutexInv_go h hc hg hs

theorem mutexInv_init : MutexInv c (machine ι c).init where
  calls := ⟨fun _ => trivial, fun e he => absurd he List.not_mem_nil, trivial⟩
  one_name name name' p hp := by cases hp
  there name p hp := by cases hp
  holder t ht := by cases ht
  settled name := .inl (.inl ⟨rfl, fun key _ hmem => absurd hmem List.not_mem_nil⟩)
  pcs _ := trivial

end Steps

end ExtraData
