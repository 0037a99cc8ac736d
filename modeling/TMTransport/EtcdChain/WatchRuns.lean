import TMTransport.EtcdChain.WatchClients
import TMTransport.EtcdChain.AppendOnly

/-!
# The watch shortcut is sound

In every run in which the watch threads do their work, each time `fetchNext`
returned without asking it was right to: a reader that polls cannot be stuck
before an item that exists.

A watch thread that ends, as it does when its stream ends, leaves
`latestModRevision_` as it is. `fetchNext` goes on trusting it.
-/

namespace EtcdChain

open Etcd Interleave

variable {T : Type}

/-- What a call may count on when it starts, and whenever it goes round its loop. -/
structure WatchReady (cfg : Config) (cd : Codecs T) (n : Nat) (c : Req T)
    (st : State × WatchGhost T) : Prop where
  idle : Unheard n st
  handed : c.isCpp = true → ∀ cur, c.current = some cur → Fresh cfg cd cur st.1.etcd

/-- The items that a C++ call had or came by are fresh. -/
def WatchAnswered (cfg : Config) (cd : Codecs T) (c : Req T) (r : Except String (Reply T))
    (st : State × WatchGhost T) : Prop :=
  c.isCpp = true → (∀ cur, c.current = some cur → Fresh cfg cd cur st.1.etcd) ∧
    ∀ rep it, r = .ok rep → rep.current = some it → Fresh cfg cd it st.1.etcd

/-- One turn of a call ends with its answer, or with the next turn to take. -/
def WatchTurned (cfg : Config) (cd : Codecs T) (n : Nat) (c : Req T) (r : Req T ⊕ Reply T)
    (st : State × WatchGhost T) : Prop :=
  match r with
  | .inl c' => WatchReady cfg cd n c' st
  | .inr a => WatchAnswered cfg cd c (.ok a) st

section Body

variable {cfg : Config} {opts : Nat → Options} {cd : Codecs T} {n : Nat} {c : Req T}
  {st st' : State × WatchGhost T}

theorem WatchAnswered.stable {r : Except String (Reply T)} (h : WatchAnswered cfg cd c r st)
    (hm : Watches opts n st st') : WatchAnswered cfg cd c r st' := fun hc =>
  ⟨fun cur hcur => ((h hc).1 cur hcur).stable hm.grows,
    fun rep it hr hit => ((h hc).2 rep it hr hit).stable hm.grows⟩

variable [Inhabited T]

/-- A call in another language ends with an answer. -/
theorem foreign_answered {β : Type} {p : Call β} {f : β → Reply T} (hi : WatchInv cfg opts cd st)
    (hp : p.Only Op.Foreign) (hc : c.isCpp = false) (hidle : Unheard n st) :
    WatchMeets cfg opts cd n c (WatchTurned cfg cd n c)
      (fun e => WatchAnswered cfg cd c (.error e)) (p.bind fun a => .ret (.inr (f a))) st := by
  have hno : ∀ r s, WatchAnswered cfg cd c r s := fun r s h => by rw [hc] at h; cases h
  exact Safe.bind ((foreign_meets hp hc hidle).mono (fun _ _ _ h => h) (fun _ s _ _ => hno _ s))
    (fun a s _ _ => fun s' _ _ => hno _ s') hi

/-- A C++ call that keeps the item it was handed and comes by fresh ones. -/
theorem cpp_answered {β : Type} {p : Call β} {f : β → Reply T} (hi : WatchInv cfg opts cd st)
    (hcur : ∀ cur, c.current = some cur → Fresh cfg cd cur st.1.etcd)
    (hp : WatchMeets cfg opts cd n c
      (fun a s => ∀ it, (f a).current = some it → Fresh cfg cd it s.1.etcd)
        (fun _ _ => True) p st) :
    WatchMeets cfg opts cd n c (WatchTurned cfg cd n c)
      (fun e => WatchAnswered cfg cd c (.error e)) (p.bind fun a => .ret (.inr (f a))) st := by
  refine Safe.bind ((hp.frame (F := fun s => ∀ cur, c.current = some cur →
      Fresh cfg cd cur s.1.etcd) hcur (fun _ _ _ hr h cur hc => (h cur hc).stable hr.grows)).mono
    (fun _ _ _ h => h) (fun e s _ h _ => ⟨h.2, by rintro _ _ ⟨⟩⟩)) (fun a s _ h => ?_) hi
  have ha : WatchAnswered cfg cd c (.ok (f a)) s :=
    fun _ => ⟨h.2, by rintro _ it ⟨⟩ hit; exact h.1 it hit⟩
  exact fun s' hr _ => ha.stable hr

theorem body_watch (hi : WatchInv cfg opts cd st) (hr : WatchReady cfg cd n c st) :
    WatchMeets cfg opts cd n c (WatchTurned cfg cd n c)
      (fun e => WatchAnswered cfg cd c (.error e)) (body cfg opts cd c) st := by
  cases c with
  | head chain =>
      refine cpp_answered hi (hr.handed rfl) ((head_watch rfl hi).mono ?_ (fun _ _ _ h => h))
      rintro a s _ h it ⟨⟩
      exact h
  | loadUntil chain id =>
      have happ : (Req.loadUntil chain id : Req T).appends = none := by
        by_cases hid : id = "" <;> simp [Req.appends, Req.kind, hid]
      refine cpp_answered hi (hr.handed rfl)
        ((loadUntil_watch id happ hi).mono ?_ (fun _ _ _ h => h))
      rintro a s _ h it ⟨⟩
      exact h
  | fetchNext chain cur =>
      exact cpp_answered hi (hr.handed rfl) (fetchNext_watch rfl hi (hr.handed rfl cur rfl))
  | appendAfter chain cur id d =>
      refine cpp_answered hi (hr.handed rfl)
        ((appendAfter_watch cur _ rfl rfl rfl hr.idle).mono ?_ (fun _ _ _ h => h))
      rintro a s _ _ it ⟨⟩
  | appendAfterBatch chain cur l =>
      refine cpp_answered hi (hr.handed rfl)
        ((appendAfterBatch_watch cur _ rfl rfl rfl hr.idle).mono ?_ (fun _ _ _ h => h))
      rintro a s _ _ it ⟨⟩
  | start lang chain d =>
      exact foreign_answered hi (Script.start_foreign lang cfg (opts chain) cd d) rfl hr.idle
  | tryLoadUntil lang chain id =>
      exact foreign_answered hi ((Script.tryLoadUntil_reads lang cfg (opts chain) cd id).mono
        (fun _ => Op.Reads.foreign)) rfl hr.idle
  | next lang chain cur =>
      exact foreign_answered hi ((Script.next_reads lang cfg (opts chain) cd cur).mono
        (fun _ => Op.Reads.foreign)) rfl hr.idle
  | tryAppend lang chain cur id d =>
      refine Safe.bind ((foreign_meets (Script.tryAppend_foreign lang cfg (opts chain) cd cur id d)
        rfl hr.idle).mono (fun _ _ _ h => h) (fun _ _ _ _ => by rintro ⟨⟩)) (fun r s _ h => ?_) hi
      cases r with
      | inl it => exact fun s' hm _ => ⟨h.stable hm, by rintro ⟨⟩⟩
      | inr r => exact fun s' _ _ => by rintro ⟨⟩
  | dotNetHead chain d =>
      exact foreign_answered hi (DotNet.head_foreign cfg (opts chain) cd d) rfl hr.idle
  | dotNetLoadUntil chain id d =>
      exact foreign_answered hi (DotNet.loadUntil_foreign cfg (opts chain) cd id d) rfl hr.idle
  | dotNetFetchNext chain cur =>
      exact foreign_answered hi ((DotNet.fetchNext_reads cfg (opts chain) cd cur).mono
        (fun _ => Op.Reads.foreign)) rfl hr.idle
  | dotNetAppendAfter chain cur id d =>
      exact foreign_answered hi (DotNet.appendAfter_foreign cfg (opts chain) cd cur _) rfl hr.idle

end Body

/-! ## Runs -/

section Runs

variable {cfg : Config} {opts : Nat → Options} {cd : Codecs T}

theorem watchInv_init : WatchInv cfg opts cd (State.init, {}) := by
  refine ⟨sound_empty, ?_, fun c _ => Or.inl ⟨rfl, rfl⟩, by simp, by simp⟩
  intro key v r hv
  exact absurd hv (by simp [State.init])

/-- A stream comes up having missed nothing, and delivers its events in order. -/
theorem watchInv_env {s t : State} {g : WatchGhost T} (hi : WatchInv cfg opts cd (s, g))
    (he : Env opts s t) (hg : (watched opts cd).env (s, g) t) :
    WatchInv cfg opts cd (t, g) ∧ Grows opts s t := by
  cases he with
  | expire key =>
      refine ⟨⟨hi.sound, fun key' v r hv => ?_, hi.tracked, hi.stored, hi.shortcuts⟩,
        ⟨Nat.le_refl _, fun _ => Or.inl rfl, fun _ _ => Nat.le_refl _,
          fun _ evs _ h => ⟨evs, h, fun _ h => Or.inl h⟩⟩⟩
      by_cases hk : key' = key
      · subst hk; simp at hv
      · exact hi.cache key' v r (by simpa [Function.update_of_ne hk] using hv)
  | @watchCreated c hw hnot =>
      refine ⟨⟨hi.sound, hi.cache, fun ch hw' => ?_, hi.stored, hi.shortcuts⟩,
        ⟨Nat.le_refl _, fun _ => Or.inl rfl, fun _ _ => Nat.le_refl _, fun ch evs _ h => ?_⟩⟩
      · by_cases hch : ch = c
        · subst hch
          refine Or.inr ⟨[], by simp, s.etcd.revision, Nat.le_refl _, List.Pairwise.nil, by simp,
            Or.inl ?_, fun id kv hkv hlt => ?_⟩
          · rcases hi.tracked ch hw with ⟨-, h⟩ | ⟨evs, h, -⟩
            · exact h
            · rw [hnot] at h; cases h
          · have : kv.modRevision ≤ s.etcd.revision := (hi.sound _ _ hkv).2.1
            omega
        · simpa [Function.update_of_ne hch] using hi.tracked ch hw'
      · have hch : ch ≠ c := by rintro rfl; rw [hnot] at h; cases h
        exact ⟨evs, by simpa [Function.update_of_ne hch] using h, fun _ h => Or.inl h⟩
  | @watchDelivered c ev rev evs halive hev hrev =>
      have hle : (opts c).useWatchThread = true → s.latestModRevision c ≤ rev := fun hw => by
        simpa using (hg c hw).2
      have hlatest : ∀ ch, (opts ch).useWatchThread = true → s.latestModRevision ch ≤
          Function.update s.latestModRevision c rev ch := by
        intro ch hw
        by_cases hch : ch = c
        · subst hch; rw [Function.update_self]; exact hle hw
        · rw [Function.update_of_ne hch]
      have hpos : (opts c).useWatchThread = true → 0 < ev := fun hw => by
        rcases hi.tracked c hw with ⟨h, -⟩ | ⟨evs', h, seen, -, -, h', -⟩
        · rw [halive] at h; cases h
        · rw [halive] at h
          cases h
          exact Nat.zero_lt_of_lt (h' ev (List.mem_cons_self ..)).1
      refine ⟨⟨hi.sound, hi.cache, fun ch hw => ?_, fun e he hs hw => ?_, hi.shortcuts⟩,
        ⟨Nat.le_refl _, fun _ => Or.inl rfl, hlatest, fun ch evs' hw h => ?_⟩⟩
      · by_cases hch : ch = c
        · subst hch
          rcases hi.tracked ch hw with ⟨h, -⟩ | ⟨evs', h, seen, h1, h2, h3, h4, h5⟩
          · rw [halive] at h; cases h
          · rw [halive] at h
            cases h
            obtain ⟨h6, h7⟩ := List.pairwise_cons.mp h2
            refine Or.inr ⟨evs, by simp, ev, hev.trans hrev, h7, fun e he => ⟨h6 e he,
              (h3 e (List.mem_cons_of_mem _ he)).2⟩, Or.inr (by simpa using hev), ?_⟩
            intro id kv hkv hlt
            have hseen := (h3 ev (List.mem_cons_self ..)).1
            rcases List.mem_cons.mp (h5 id kv hkv (hseen.trans hlt)) with he | he
            · omega
            · exact he
        · simpa [Function.update_of_ne hch] using hi.tracked ch hw
      · exact (hi.stored e he hs hw).trans (hlatest _ hw)
      · by_cases hch : ch = c
        · subst hch
          rw [halive] at h
          cases h
          refine ⟨evs, by simp, fun e he => ?_⟩
          rcases List.mem_cons.mp he with rfl | he
          · right
            have := hpos hw
            simp only [Function.update_self]
            omega
          · exact Or.inl he
        · exact ⟨evs', by simpa [Function.update_of_ne hch] using h, fun _ h => Or.inl h⟩
  | watchEnded c =>
      have hne : ∀ ch, (opts ch).useWatchThread = true → ch ≠ c := by
        rintro ch hw rfl
        exact (hg ch hw).1 (by simp)
      refine ⟨⟨hi.sound, hi.cache, fun ch hw => ?_, hi.stored, hi.shortcuts⟩,
        ⟨Nat.le_refl _, fun _ => Or.inl rfl, fun _ _ => Nat.le_refl _, fun ch evs hw h => ?_⟩⟩
      · simpa [Function.update_of_ne (hne ch hw)] using hi.tracked ch hw
      · exact ⟨evs, by simpa [Function.update_of_ne (hne ch hw)] using h, fun _ h => Or.inl h⟩

variable [Inhabited T]

theorem watchObligations (cfg : Config) (opts : Nat → Options) (cd : Codecs T) :
    Obligations (watchSystem cfg opts cd) (watched opts cd) (watchContract cfg opts cd)
      (State.init, {}) Unheard (WatchReady cfg cd)
      (fun _ c r st => WatchAnswered cfg cd c r st) where
  init := watchInv_init
  fresh_init := fun n => ⟨by simp, fun h => h⟩
  fresh_stable := fun n s s' h hr => h.stable hr
  env := fun s t hi he hg => by
    obtain ⟨h1, h2⟩ := watchInv_env hi he hg
    exact ⟨h1, fun n => ⟨h2, fun _ h _ => h, id⟩⟩
  post_stable := fun n c r s s' h hr _ => h.stable hr
  call := fun n c s h _ hid hp hm => by
    refine ⟨hid, fun hc cur hcur => ?_⟩
    obtain ⟨e, he, hec, hheld⟩ := hm cur hcur
    obtain ⟨h1, h2⟩ := hp e he (hec.trans hc)
    rcases hheld with hheld | ⟨rep, hr, hit⟩
    · exact h1 cur hheld
    · exact h2 rep cur hr hit
  body := fun n c s hi hr => (body_watch hi hr).mono
    (fun r s' _ h => by cases r <;> exact h) (fun _ _ _ h => h)

/-- **The watch shortcut is sound** in every run in which the watch threads do their work. -/
theorem shortcuts_sound (cfg : Config) (opts : Nat → Options) (cd : Codecs T)
    {w : World Op Op.Res State (WatchGhost T) (Req T) String (Reply T)}
    (hr : Reachable (watchSystem cfg opts cd) (watched opts cd) (State.init, {}) w) :
    ∀ x ∈ w.st.2.shortcuts, x.Sound cfg cd :=
  (safe_reachable (watchObligations cfg opts cd) hr).inv.shortcuts

end Runs

/-! ## Two runs -/

/-- The first object has a watch thread, the others have none. -/
def firstWatches : Nat → Options
  | 0 => { useWatchThread := true }
  | _ => {}

/-- The clients of a chain with separate storage, with `firstWatches`. -/
abbrev watchedSystem : System Op Op.Res State (WatchGhost Unit) (Req Unit) String (Reply Unit) :=
  watchSystem {} firstWatches Codecs.unit

/-- What happens on its own. -/
abbrev World.become (w : World Op Op.Res State (WatchGhost Unit) (Req Unit) String (Reply Unit))
    (s : State) : World Op Op.Res State (WatchGhost Unit) (Req Unit) String (Reply Unit) :=
  { w with st := (s, w.st.2) }

/-- The head item of that chain, as it is when the head has just been made. -/
def watchedHead : ChainItem Unit := ⟨2, "", some (), ""⟩

/-- The stream comes up, and the first object makes the head. -/
def headMade : World Op Op.Res State (WatchGhost Unit) (Req Unit) String (Reply Unit) :=
  (World.mk ({ State.init with watch := Function.update State.init.watch 0 (.alive []) }, {})
    0 (fun _ => none) []).solo watchedSystem (.head 0)

/-- The event of the head is delivered. -/
def headHeard : World Op Op.Res State (WatchGhost Unit) (Req Unit) String (Reply Unit) :=
  World.become headMade { headMade.st.1 with
    latestModRevision := Function.update headMade.st.1.latestModRevision 0 2
    watch := Function.update headMade.st.1.watch 0 (.alive []) }

theorem headHeard_reachable :
    Reachable watchedSystem (watched firstWatches Codecs.unit) (State.init, {}) headHeard := by
  refine .env (reachable_solo (.env .init (Env.watchCreated rfl rfl) ?_) ?_ ?_)
    (Env.watchDelivered rfl (Nat.le_refl _) (Nat.le_refl _)) ?_
  · intro c hc
    cases c with
    | zero => exact ⟨by decide, by decide⟩
    | succ c => cases hc
  · rintro _ ⟨⟩
  · refine ⟨⟨?_, ?_, ?_, ?_⟩, trivial⟩
    · rintro t resp ⟨⟩ _ _ ⟨⟩
    · rintro chain rev ⟨⟩
    · rintro chain ⟨⟩
    · rintro arg key v ttl r ⟨⟩
  · intro c hc
    cases c with
    | zero => exact ⟨by decide, by decide⟩
    | succ c => cases hc

/-- The first object has heard of the head and of nothing since; nothing follows it. -/
theorem shortcuts_sound_single :
    ∃ w, Reachable watchedSystem (watched firstWatches Codecs.unit) (State.init, {}) w ∧
      (1, .fetchNext 0 watchedHead, .ok (.next none)) ∈ w.returned ∧ w.st.2.shortcuts.length = 1 ∧
      ∀ x ∈ w.st.2.shortcuts, x.Sound {} Codecs.unit := by
  have hr : Reachable watchedSystem (watched firstWatches Codecs.unit) (State.init, {})
      (headHeard.solo watchedSystem (.fetchNext 0 watchedHead)) := by
    refine reachable_solo headHeard_reachable ?_ ⟨⟨?_, ?_, ?_, ?_⟩, trivial⟩
    · rintro _ ⟨⟩
      exact ⟨(0, .head 0, .ok (.item watchedHead)), List.Mem.head _, rfl, Or.inr ⟨_, rfl, rfl⟩⟩
    · rintro t resp ⟨⟩
    · rintro chain rev ⟨⟩
    · rintro chain ⟨⟩ e he
      cases he
    · rintro arg key v ttl r ⟨⟩
  exact ⟨_, hr, List.Mem.head _, rfl, shortcuts_sound _ _ _ hr⟩

/--
The stream ends, another client appends, and the first object never hears of it:
`fetchNext` on it returns none before an item that exists.
-/
theorem not_shortcuts_sound_ended :
    ∃ w, Reachable watchedSystem Guard.any (State.init, {}) w ∧
      (1, .appendAfter 1 watchedHead "a" (), .ok (.appended true none)) ∈ w.returned ∧
      (2, .fetchNext 0 watchedHead, .ok (.next none)) ∈ w.returned ∧
      ¬ ∀ x ∈ w.st.2.shortcuts, x.Sound {} Codecs.unit := by
  have hany : ∀ (p : Call (Req Unit ⊕ Reply Unit)) (n : Nat) (c : Req Unit) st,
      p.Along (watchedSystem.exec n c) (Guard.any.op c) st :=
    fun p n c st => Prog.Along.of_forall _ (fun _ _ => trivial) p st
  have hended : Reachable watchedSystem Guard.any (State.init, {}) (World.become headHeard
      { headHeard.st.1 with watch := Function.update headHeard.st.1.watch 0 .ended }) :=
    .env (headHeard_reachable.mono (fun _ _ _ _ => trivial) (fun _ _ _ => trivial))
      (Env.watchEnded 0) trivial
  have hr := reachable_solo (reachable_solo hended (c := .appendAfter 1 watchedHead "a" ()) ?_
    (hany ..)) (c := .fetchNext 0 watchedHead) ?_ (hany ..)
  · refine ⟨_, hr, List.Mem.tail _ (List.Mem.head _), List.Mem.head _, fun h => ?_⟩
    obtain ⟨⟨evs, ev, halive, -⟩, -⟩ := h _ (List.Mem.head _) 3 ⟨_, "a", rfl, rfl, rfl, by decide⟩
    cases halive
  · rintro _ ⟨⟩
    exact ⟨(0, .head 0, .ok (.item watchedHead)), List.Mem.head _, rfl, Or.inr ⟨_, rfl, rfl⟩⟩
  · rintro _ ⟨⟩
    exact ⟨(0, .head 0, .ok (.item watchedHead)), List.Mem.tail _ (List.Mem.head _), rfl,
      Or.inr ⟨_, rfl, rfl⟩⟩

end EtcdChain
