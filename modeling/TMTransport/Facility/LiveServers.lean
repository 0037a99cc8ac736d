import TMTransport.Facility.Heartbeat
import TMTransport.Facility.RemoteFacility

/-!
# From heartbeats to the servers that take requests

The commands of the heartbeat converter go to remote facilities, of which each takes
the actions at its own place. They are put out in one order and taken in that order,
only later. Without distinguished facilities there is nothing else that a command
waits for.

Once all commands are taken, each good server has one sender in the facility, and
each sender has one good server, as long as the locators tell the servers apart.
-/

namespace LiveServers

open Facility Heartbeat Interleave Ledger RemoteFacility

/-- `setupNonDistinguishedRemoteFacilitiesInternal`, at one index. -/
structure Setup where
  converter : Converter
  env : Environment
  noDistinguished : converter.distinguishedFacilityNames = []
  currentIdx : Fin converter.nonDistinguishedFacilityNames.length

namespace Setup

variable (S : Setup)

/-- What the facility gets of the channels. -/
def channelOf (channels : Channels) : Option Channel := channels.2[S.currentIdx.val]?

def getOneAction (x : List Action × List Action) : Option Action := x.2[S.currentIdx.val]?

end Setup

/-- `actuallyHandleFacilityAction`: which function is called. -/
def toAct (action : Action) (outcome : Outcome) : RemoteFacility.Act :=
  match action.actionType with
  | .register => .register action.connectionType action.connectionLocator outcome
  | .deregister => .deregister action.connectionType action.connectionLocator

/-- What the converter puts out in a step. -/
def put (c : Converter) (s : Heartbeat.State) : Heartbeat.Act → List Command
  | .heartbeat h now => (handleHeartbeat c s.serverInfos h now).2
  | .timer tp order => (handleTimer c s.serverInfos tp order).2

structure System where
  converter : Heartbeat.State
  /-- The commands that the facility has still to take. The oldest comes first. -/
  pending : List Command
  facility : World
  /-- The commands that the facility has taken. The latest comes first. -/
  taken : List Command

inductive Act where
  | converter (a : Heartbeat.Act)
  /-- The facility takes the next command. -/
  | take (outcome : Outcome)
  | request (l : ConnectionLocator.Locator) (rand : Nat)

def step (S : Setup) (s : System) : Act → Option System
  | .converter a =>
    (Heartbeat.step S.converter s.converter a).map fun converter =>
      { s with converter := converter, pending := s.pending ++ put S.converter s.converter a }
  | .take outcome =>
    match s.pending with
    | [] => none
    | cmd :: rest =>
      match S.getOneAction (cmd.actions S.converter) with
      | none => none
      | some action =>
        (RemoteFacility.step .random S.env s.facility (toAct action outcome)).map fun w =>
          { s with pending := rest, facility := w, taken := cmd :: s.taken }
  | .request l rand =>
    (RemoteFacility.step .random S.env s.facility (.request l rand)).map fun w =>
      { s with facility := w }

def machine (S : Setup) : Machine System Act where
  init := ⟨(Heartbeat.machine S.converter).init, [],
    (RemoteFacility.machine .random S.env).init, []⟩
  step := step S

/-! ## What the facility is kept for -/

/-- The server is good, and its channel for the facility is this one. -/
def Live (S : Setup) (s : System) (id : ConnectionLocator.Text) (p : Channel) : Prop :=
  ∃ channels, HeldGood s.converter.serverInfos id channels ∧ S.channelOf channels = some p

/-- The senders are those of the good servers, and they take the requests. -/
structure Serves (S : Setup) (s : System) : Prop where
  one_sender : ∀ id p, Live S s id p →
    ∃! x, x ∈ s.facility.facility.underlyingSenders ∧ x.client.pair = p
  one_server : ∀ x ∈ s.facility.facility.underlyingSenders, ∃! id, Live S s id x.client.pair
  /-- The transports hold no other clients than those of good servers. -/
  clients : ∀ c ∈ s.facility.facility.clients, ∃ id, Live S s id c.pair
  passed : ∀ id p l rand, Live S s id p → ∃ x ∈ s.facility.facility.underlyingSenders,
    (handle .random S.env s.facility.facility (.request l rand)).2 = .passed x.ptr ∧
      ∃ id', Live S s id' x.client.pair
  rejected : (∀ id p, ¬ Live S s id p) → ∀ l rand,
    (handle .random S.env s.facility.facility (.request l rand)).2 = .rejected

/-- The locator for the facility tells the two tuples of channels apart, also to a
transport that looks at the host and the port only. -/
def Apart (S : Setup) (channels channels' : Channels) : Prop :=
  ∀ p p', S.channelOf channels = some p → S.channelOf channels' = some p' →
    (p.2 = p'.2 → channels = channels') ∧
    (p.1 = .socketRPC → p'.1 = .socketRPC → sameHostAndPort p.2 p'.2 = true → p.2 = p'.2)

/-- The channels of the server that a step hears of. -/
def announced (c : Converter) : Heartbeat.Act → Option Channels
  | .heartbeat h _ => if c.senderRE h.senderDescription then c.announced h else none
  | .timer _ _ => none

/-- The heartbeats are orderly and tell the servers apart, and the transports make the
clients that they are asked for. -/
def Orderly (S : Setup) (s : System) : Act → Prop
  | .converter a => Heartbeat.Orderly S.converter s.converter a ∧
      ∀ channels, announced S.converter a = some channels →
        ∀ cmd ∈ s.converter.history, Apart S channels cmd.channels
  | .take outcome => ∀ cmd action, s.pending.head? = some cmd →
      S.getOneAction (cmd.actions S.converter) = some action →
      action.actionType = .register → carriedOut S.env (toAct action outcome) = true
  | .request _ _ => True

/-! ## The commands -/

variable {S : Setup} {s s' : System} {a : Act} {cmd : Command} {channels channels' : Channels}
  {p : Channel} {outcome : Outcome}

theorem step_history {c : Converter} {s s' : Heartbeat.State} {a : Heartbeat.Act}
    (h : Heartbeat.step c s a = some s') : s'.history = (put c s a).reverse ++ s.history := by
  cases a with
  | heartbeat h' now =>
      cases h
      rfl
  | timer tp order =>
      obtain ⟨-, rfl⟩ := of_guarded h
      rfl

theorem length_readAll {facilityInfo : ConnectionLocator.Text → Option ConnectionLocator.Text}
    {names : List ConnectionLocator.Text} {l : List Channel}
    (h : readAll facilityInfo names = some l) : l.length = names.length := by
  induction names generalizing l with
  | nil =>
      cases h
      rfl
  | cons nm names ih =>
      simp only [readAll, Option.bind_eq_bind, Option.bind_eq_some_iff, Option.pure_def,
        Option.some.injEq] at h
      obtain ⟨spec, -, rest, hrest, rfl⟩ := h
      rw [List.length_cons, List.length_cons, ih hrest]

theorem length_announced {c : Converter} {a : Heartbeat.Act}
    (h : announced c a = some channels) :
    channels.2.length = c.nonDistinguishedFacilityNames.length := by
  cases a with
  | timer tp order => cases h
  | heartbeat h' now =>
      simp only [announced, Option.ite_none_right_eq_some, Converter.announced,
        Option.bind_eq_bind, Option.bind_eq_some_iff, Option.pure_def, Option.some.injEq] at h
      obtain ⟨-, -, -, l, hl, rfl⟩ := h
      exact length_readAll hl

/-- A command is about the server that is heard of, or about one that is good. -/
theorem mem_put {c : Converter} {s : Heartbeat.State} {a : Heartbeat.Act}
    (h : cmd ∈ put c s a) :
    announced c a = some cmd.channels ∨ ∃ id, HeldGood s.serverInfos id cmd.channels := by
  cases a with
  | heartbeat h' now =>
      have hcmd : cmd ∈ (handleHeartbeat c s.serverInfos h' now).2 := h
      rcases handleHeartbeat_cases c s.serverInfos h' now with
        ⟨hnone, -⟩ | ⟨hsender, -, info, -, hannounced, heq⟩
      · rw [hnone] at hcmd
        cases hcmd
      · left
        rw [heq, becomeGood] at hcmd
        have hchannels : cmd.channels = info.channels := by
          rcases List.mem_append.mp hcmd with hmem | hmem
          · split at hmem
            · cases hmem
            · rw [List.mem_singleton.mp hmem]
          · rw [List.mem_singleton.mp hmem]
        rw [announced, if_pos hsender, hannounced, hchannels]
  | timer tp order =>
      right
      obtain ⟨item, hitem, rfl⟩ := List.mem_map.mp h
      obtain ⟨hlookup, hgood⟩ := mem_timedOut hitem
      exact ⟨item.1, item.2, hlookup, hgood, rfl⟩

/-! ## The invariant -/

structure Inv (S : Setup) (s : System) : Prop where
  register : ExactRegister s.converter
  history : s.converter.history = s.pending.reverse ++ s.taken
  apart : ∀ cmd ∈ s.converter.history, ∀ cmd' ∈ s.converter.history,
    Apart S cmd.channels cmd'.channels
  full : ∀ cmd ∈ s.converter.history,
    cmd.channels.2.length = S.converter.nonDistinguishedFacilityNames.length
  facility : RemoteFacility.Inv .random s.facility
  /-- The registered pairs are those of the tuples that are open after the commands taken. -/
  registered : ∀ p, p ∈ s.facility.registered ↔
    ∃ channels, S.channelOf channels = some p ∧ IsOpen channels (s.taken.map entry)
  supported : ∀ p ∈ s.facility.registered, S.env.hasComponent p.1 = true

theorem inv_init (S : Setup) : Inv S (machine S).init where
  register := exactRegister_init S.converter
  history := rfl
  apart cmd hcmd := by cases hcmd
  full cmd hcmd := by cases hcmd
  facility := RemoteFacility.inv_init .random S.env
  registered p := by
    refine iff_of_false (Finset.notMem_empty p) fun ⟨channels, _, hopen⟩ => ?_
    exact not_isOpen_nil channels hopen
  supported p hp := absurd hp (Finset.notMem_empty p)

theorem Apart.symm (h : Apart S channels channels') : Apart S channels' channels := by
  intro p p' hp hp'
  obtain ⟨hsame, hsocket⟩ := h p' p hp' hp
  refine ⟨fun hl => (hsame hl.symm).symm, fun ht ht' hhost => (hsocket ht' ht ?_).symm⟩
  rw [sameHostAndPort, decide_eq_true_iff] at hhost ⊢
  exact ⟨hhost.1.symm, hhost.2.symm⟩

theorem Apart.refl (S : Setup) (channels : Channels) : Apart S channels channels := by
  intro p p' hp hp'
  cases hp.symm.trans hp'
  exact ⟨fun _ => rfl, fun _ _ _ => rfl⟩

/-- A tuple that is open has been registered. -/
theorem exists_mem_of_isOpen {commands : List Command}
    (h : IsOpen channels (commands.map entry)) : ∃ cmd ∈ commands, cmd.channels = channels := by
  obtain ⟨cmd, hcmd, heq⟩ := List.mem_map.mp (mem_of_isOpen h)
  exact ⟨cmd, hcmd, congrArg Prod.fst heq⟩

/-- A tuple that a good server has is in the history. -/
theorem exists_mem_of_heldGood {c : Heartbeat.State} {id : ConnectionLocator.Text}
    (h : ExactRegister c) (hid : HeldGood c.serverInfos id channels) :
    ∃ cmd ∈ c.history, cmd.channels = channels :=
  exists_mem_of_isOpen ((h.open_iff channels).mpr ⟨id, hid⟩)

/-! ## The converter takes a step -/

theorem inv_converter {a : Heartbeat.Act} {converter : Heartbeat.State} (h : Inv S s)
    (ho : Orderly S s (.converter a))
    (hstep : Heartbeat.step S.converter s.converter a = some converter) :
    Inv S { s with
      converter := converter, pending := s.pending ++ put S.converter s.converter a } := by
  have hhistory := step_history hstep
  -- the channels of a command are announced, or they are in the history already
  have hnew : ∀ cmd ∈ converter.history, announced S.converter a = some cmd.channels ∨
      ∃ old ∈ s.converter.history, old.channels = cmd.channels := by
    intro cmd hcmd
    rw [hhistory, List.mem_append, List.mem_reverse] at hcmd
    rcases hcmd with hput | hold
    · rcases mem_put hput with hannounced | ⟨id, hid⟩
      · exact .inl hannounced
      · exact .inr (exists_mem_of_heldGood h.register hid)
    · exact .inr ⟨cmd, hold, rfl⟩
  refine ⟨exactRegister_step h.register ho.1 hstep, ?_, fun cmd hcmd cmd' hcmd' => ?_,
    fun cmd hcmd => ?_, h.facility, h.registered, h.supported⟩
  · rw [hhistory, h.history, List.reverse_append, List.append_assoc]
  · rcases hnew cmd hcmd with hann | ⟨old, hold, heq⟩
    · rcases hnew cmd' hcmd' with hann' | ⟨old', hold', heq'⟩
      · rw [Option.some.inj (hann.symm.trans hann')]
        exact Apart.refl S _
      · rw [← heq']
        exact ho.2 _ hann old' hold'
    · rcases hnew cmd' hcmd' with hann' | ⟨old', hold', heq'⟩
      · rw [← heq]
        exact (ho.2 _ hann' old hold).symm
      · rw [← heq, ← heq']
        exact h.apart old hold old' hold'
  · rcases hnew cmd hcmd with hann | ⟨old, hold, heq⟩
    · exact length_announced hann
    · rw [← heq]
      exact h.full old hold

/-! ## The facility takes a command -/

theorem getOneAction_eq (S : Setup) (cmd : Command) :
    S.getOneAction (cmd.actions S.converter) = (S.channelOf cmd.channels).map fun p =>
      ⟨cmd.actionType, p.1, p.2,
        S.converter.nonDistinguishedFacilityNames[S.currentIdx.val]⟩ := by
  rw [Setup.getOneAction, Command.actions, List.getElem?_zipWith, Setup.channelOf,
    List.getElem?_eq_getElem S.currentIdx.isLt]
  cases cmd.channels.2[S.currentIdx.val]? <;> rfl

/-- What a step of the facility with a command is. -/
theorem take_cases (hstep : (machine S).step s (.take outcome) = some s') :
    ∃ cmd rest p w nm, s.pending = cmd :: rest ∧ S.channelOf cmd.channels = some p ∧
      RemoteFacility.step .random S.env s.facility
        (toAct ⟨cmd.actionType, p.1, p.2, nm⟩ outcome) = some w ∧
      S.getOneAction (cmd.actions S.converter) = some ⟨cmd.actionType, p.1, p.2, nm⟩ ∧
      s' = { s with pending := rest, facility := w, taken := cmd :: s.taken } := by
  simp only [machine, step] at hstep
  cases hpending : s.pending with
  | nil =>
      rw [hpending] at hstep
      cases hstep
  | cons cmd rest =>
      have haction := getOneAction_eq S cmd
      cases hp : S.channelOf cmd.channels with
      | none =>
          rw [hp] at haction
          simp only [hpending, haction, Option.map_none] at hstep
          cases hstep
      | some p =>
          rw [hp] at haction
          simp only [hpending, haction, Option.map_some, Option.map_eq_some_iff] at hstep
          obtain ⟨w, hw, rfl⟩ := hstep
          exact ⟨cmd, rest, p, w, _, rfl, hp, hw, haction, rfl⟩

theorem mem_history_pending (h : Inv S s) {rest : List Command}
    (hpending : s.pending = cmd :: rest) : cmd ∈ s.converter.history := by
  rw [h.history, hpending, List.reverse_cons]
  simp

theorem mem_history_taken (h : Inv S s) (hcmd : cmd ∈ s.taken) : cmd ∈ s.converter.history := by
  rw [h.history]
  exact List.mem_append_right _ hcmd

/-- The arrays are never too short for the index. -/
theorem action_of_pending (h : Inv S s) {rest : List Command} (hpending : s.pending = cmd :: rest) :
    ∃ action, S.getOneAction (cmd.actions S.converter) = some action := by
  have hfull := h.full cmd (mem_history_pending h hpending)
  have hlt : S.currentIdx.val < cmd.channels.2.length := by
    rw [hfull]
    exact S.currentIdx.isLt
  rw [getOneAction_eq, Setup.channelOf, List.getElem?_eq_getElem hlt]
  exact ⟨_, rfl⟩

/-- The marks of a tuple, when the next command is about to be taken. -/
theorem alternates_next (h : Inv S s) {rest : List Command} (hpending : s.pending = cmd :: rest)
    (channels : Channels) :
    Alternates (marks channels
      (rest.reverse.map entry ++ entry cmd :: s.taken.map entry)) := by
  have halternates := h.register.alternates channels
  rw [h.history, hpending] at halternates
  simpa using halternates

/-- The tuple of a sender is the one of the command if the locators are the same. -/
theorem channels_eq_of_locator (h : Inv S s) {rest : List Command}
    (hpending : s.pending = cmd :: rest) (hp : S.channelOf cmd.channels = some p) {q : Channel}
    (hq : S.channelOf channels = some q) (hopen : IsOpen channels (s.taken.map entry))
    (hl : q.2 = p.2) : channels = cmd.channels := by
  obtain ⟨old, hold, rfl⟩ := exists_mem_of_isOpen hopen
  exact (h.apart old (mem_history_taken h hold) cmd (mem_history_pending h hpending) q p hq hp).1 hl

/-- A sender is of a tuple that is open. -/
theorem open_of_sender (h : Inv S s) {x : Sender}
    (hx : x ∈ s.facility.facility.underlyingSenders) :
    ∃ channels, S.channelOf channels = some x.client.pair ∧
      IsOpen channels (s.taken.map entry) :=
  (h.registered x.client.pair).mp ((h.facility.mem_senders x.client.pair).mp ⟨x, hx, rfl⟩)

theorem hasComponent_of_carriedOut {t : ConnectionType} {l : ConnectionLocator.Locator}
    {env : Environment} (h : carriedOut env (.register t l outcome) = true) :
    env.hasComponent t = true := by
  cases outcome with
  | nothing => cases h
  | exception => cases h
  | client n =>
      have hsupports : env.supports t = true := h
      cases t <;> simp_all [Environment.supports]

theorem tidy_register (h : Inv S s) {rest : List Command} (hpending : s.pending = cmd :: rest)
    (hp : S.channelOf cmd.channels = some p) (htype : cmd.actionType = .register)
    (hout : carriedOut S.env (.register p.1 p.2 outcome) = true) :
    Tidy S.env s.facility (.register p.1 p.2 outcome) := by
  refine ⟨fun _ houtcome => ?_, fun _ x hx hl => ?_⟩
  · rw [houtcome] at hout
    cases hout
  · obtain ⟨channels, hchannels, hopen⟩ := open_of_sender h hx
    have hsame : channels = cmd.channels :=
      channels_eq_of_locator h hpending hp hchannels hopen ((h.facility.locator x hx).symm.trans hl)
    -- what is registered next is not open
    have hnext := alternates_next h hpending cmd.channels
    rw [entry, htype] at hnext
    exact not_isOpen_of_opened hnext (hsame ▸ hopen)

theorem tidy_deregister (h : Inv S s) {rest : List Command} (hpending : s.pending = cmd :: rest)
    (hp : S.channelOf cmd.channels = some p) :
    Tidy S.env s.facility (.deregister p.1 p.2) := by
  intro x hx
  obtain ⟨channels, hchannels, hopen⟩ := open_of_sender h hx
  have hlocator := h.facility.locator x hx
  refine ⟨fun hl => ?_, fun ht hsocket hhost => ?_⟩
  · have hsame : channels = cmd.channels :=
      channels_eq_of_locator h hpending hp hchannels hopen (hlocator.symm.trans hl)
    rw [hsame, hp] at hchannels
    exact (congrArg Prod.fst (Option.some.inj hchannels)).symm
  · obtain ⟨old, hold, rfl⟩ := exists_mem_of_isOpen hopen
    have hapart := h.apart old (mem_history_taken h hold) cmd (mem_history_pending h hpending) _ _
      hchannels hp
    rw [hlocator] at hhost ⊢
    exact hapart.2 hsocket ht hhost

theorem inv_take (h : Inv S s) (ho : Orderly S s (.take outcome))
    (hstep : (machine S).step s (.take outcome) = some s') : Inv S s' := by
  obtain ⟨cmd, rest, p, w, nm, hpending, hp, hw, haction, rfl⟩ := take_cases hstep
  have hnext := alternates_next h hpending cmd.channels
  have hhistory : s.converter.history = rest.reverse ++ cmd :: s.taken := by
    rw [h.history, hpending, List.reverse_cons, List.append_assoc]
    rfl
  cases htype : cmd.actionType with
  | register =>
      have hout : carriedOut S.env (.register p.1 p.2 outcome) = true := by
        have := ho cmd _ (by rw [hpending]; rfl) haction htype
        rwa [htype] at this
      rw [htype] at hw
      have hfacility := RemoteFacility.inv_step h.facility
        (tidy_register h hpending hp htype hout) hw
      have hregistered : w.registered = insert p s.facility.registered := by
        obtain ⟨-, rfl⟩ := of_guarded hw
        show (RemoteFacility.Act.register p.1 p.2 outcome).update S.env _ = _
        rw [RemoteFacility.Act.update, if_pos hout]
      refine ⟨h.register, hhistory, h.apart, h.full, hfacility, fun q => ?_, fun q hq => ?_⟩
      · rw [hregistered, Finset.mem_insert, h.registered q, List.map_cons, entry, htype]
        simp only [mark, isOpen_cons_opened]
        constructor
        · intro hq
          rcases hq with rfl | ⟨channels, hchannels, hopen⟩
          · exact ⟨cmd.channels, hp, .inl rfl⟩
          · exact ⟨channels, hchannels, .inr hopen⟩
        · intro hq
          obtain ⟨channels, hchannels, hq⟩ := hq
          rcases hq with rfl | hopen
          · exact .inl (Option.some.inj (hchannels.symm.trans hp))
          · exact .inr ⟨channels, hchannels, hopen⟩
      · rw [hregistered, Finset.mem_insert] at hq
        rcases hq with rfl | hold
        · exact hasComponent_of_carriedOut hout
        · exact h.supported q hold
  | deregister =>
      rw [htype] at hw
      have hfacility := RemoteFacility.inv_step h.facility (tidy_deregister h hpending hp) hw
      -- what is deregistered was open, so its transport is there
      have hopen : IsOpen cmd.channels (s.taken.map entry) := by
        rw [entry, htype] at hnext
        exact isOpen_of_closed hnext
      have hcomponent : S.env.hasComponent p.1 = true :=
        h.supported p ((h.registered p).mpr ⟨_, hp, hopen⟩)
      have hregistered : w.registered = s.facility.registered.erase p := by
        cases hw
        show (RemoteFacility.Act.deregister p.1 p.2).update S.env _ = _
        rw [RemoteFacility.Act.update, carriedOut, if_pos hcomponent]
      refine ⟨h.register, hhistory, h.apart, h.full, hfacility, fun q => ?_, fun q hq => ?_⟩
      · rw [hregistered, Finset.mem_erase, h.registered q, List.map_cons, entry, htype]
        simp only [mark, isOpen_cons_closed]
        constructor
        · intro hq
          obtain ⟨hq, channels, hchannels, hopenq⟩ := hq
          refine ⟨channels, hchannels, fun heq => hq ?_, hopenq⟩
          rw [← heq, hp] at hchannels
          exact (Option.some.inj hchannels).symm
        · intro hq
          obtain ⟨channels, hchannels, hne, hopenq⟩ := hq
          refine ⟨fun heq => hne ?_, channels, hchannels, hopenq⟩
          exact (channels_eq_of_locator h hpending hp hchannels hopenq
            (congrArg Prod.snd heq)).symm
      · rw [hregistered] at hq
        exact h.supported q (Finset.mem_of_mem_erase hq)

theorem inv_step (h : Inv S s) (ho : Orderly S s a) (hstep : (machine S).step s a = some s') :
    Inv S s' := by
  cases a with
  | converter a =>
      simp only [machine, step, Option.map_eq_some_iff] at hstep
      obtain ⟨converter, hconverter, rfl⟩ := hstep
      exact inv_converter h ho hconverter
  | take outcome => exact inv_take h ho hstep
  | request l rand =>
      simp only [machine, step, Option.map_eq_some_iff] at hstep
      obtain ⟨w, hw, rfl⟩ := hstep
      -- a request changes nothing in the facility
      have hsame : w = s.facility := by
        cases hw
        simp [handle, RemoteFacility.Act.update]
      rw [hsame]
      exact h

/-! ## When all commands are taken -/

/-- With no command left, a pair is registered if and only if a good server has it. -/
theorem mem_registered_iff (h : Inv S s) (hpending : s.pending = []) (p : Channel) :
    p ∈ s.facility.registered ↔ ∃ id, Live S s id p := by
  have hhistory : s.converter.history = s.taken := by
    rw [h.history, hpending, List.reverse_nil, List.nil_append]
  have hopen : ∀ channels, IsOpen channels (s.taken.map entry) ↔
      ∃ id, HeldGood s.converter.serverInfos id channels := by
    rw [← hhistory]
    exact h.register.open_iff
  rw [h.registered p]
  constructor
  · intro ⟨channels, hchannels, hch⟩
    obtain ⟨id, hid⟩ := (hopen channels).mp hch
    exact ⟨id, channels, hid, hchannels⟩
  · intro ⟨id, channels, hid, hchannels⟩
    exact ⟨channels, hchannels, (hopen channels).mpr ⟨id, hid⟩⟩

/-- Two good servers with the same pair are one. -/
theorem live_unique (h : Inv S s) {id id' : ConnectionLocator.Text} (hid : Live S s id p)
    (hid' : Live S s id' p) : id = id' := by
  obtain ⟨channels, hheld, hp⟩ := hid
  obtain ⟨channels', hheld', hp'⟩ := hid'
  obtain ⟨cmd, hcmd, rfl⟩ := exists_mem_of_heldGood h.register hheld
  obtain ⟨cmd', hcmd', rfl⟩ := exists_mem_of_heldGood h.register hheld'
  have hsame : cmd.channels = cmd'.channels := (h.apart cmd hcmd cmd' hcmd' p p hp hp').1 rfl
  exact h.register.holder_unique cmd.channels id id' hheld (hsame ▸ hheld')

theorem inv_of_orderly (h : (machine S).Reach (Orderly S) s) : Inv S s :=
  h.invariant (inv_init S) fun _ _ _ => inv_step

/-- **Once all commands are taken, the facility serves the good servers**, one sender for each,
and only them. -/
theorem serves_of_orderly (h : (machine S).Reach (Orderly S) s) (hpending : s.pending = []) :
    Serves S s := by
  have hinv := inv_of_orderly h
  have hregistered := mem_registered_iff hinv hpending
  have hsenders : ∀ p, (∃ x ∈ s.facility.facility.underlyingSenders, x.client.pair = p) ↔
      ∃ id, Live S s id p := fun p => (hinv.facility.mem_senders p).trans (hregistered p)
  have hlive : ∀ x ∈ s.facility.facility.underlyingSenders, ∃ id, Live S s id x.client.pair :=
    fun x hx => (hsenders _).mp ⟨x, hx, rfl⟩
  have hrequest : ∀ l rand,
      ((handle .random S.env s.facility.facility (.request l rand)).2 = .rejected ∧
        s.facility.facility.underlyingSenders = []) ∨
      ∃ x ∈ s.facility.facility.underlyingSenders,
        (handle .random S.env s.facility.facility (.request l rand)).2 = .passed x.ptr :=
    fun l rand => by
      have hdone : RightlyDone .random S.env s.facility (.request l rand) _ :=
        rightlyDone_request hinv.facility rfl
      exact hdone
  refine ⟨fun id p hid => ?_, fun x hx => ?_, fun c hc => ?_, fun id p l rand hid => ?_,
    fun hnone l rand => ?_⟩
  · obtain ⟨x, hx, hpair⟩ := (hsenders p).mpr ⟨id, hid⟩
    refine ⟨x, ⟨hx, hpair⟩, fun y ⟨hy, hpair'⟩ => ?_⟩
    exact List.inj_on_of_nodup_map hinv.facility.senders_nodup hy hx (hpair'.trans hpair.symm)
  · obtain ⟨id, hid⟩ := hlive x hx
    exact ⟨id, hid, fun id' hid' => live_unique hinv hid' hid⟩
  · obtain ⟨-, x, hx, rfl⟩ := (hinv.facility.clients c).mp hc
    exact hlive x hx
  · rcases hrequest l rand with ⟨-, hempty⟩ | ⟨x, hx, hpassed⟩
    · obtain ⟨x, hx, -⟩ := (hsenders p).mpr ⟨id, hid⟩
      rw [hempty] at hx
      cases hx
    · exact ⟨x, hx, hpassed, hlive x hx⟩
  · rcases hrequest l rand with ⟨hrejected, -⟩ | ⟨x, hx, -⟩
    · exact hrejected
    · obtain ⟨id, hid⟩ := hlive x hx
      exact absurd hid (hnone id x.client.pair)

/-! ## A run with two servers -/

def apartTest (S : Setup) (channels channels' : Channels) : Bool :=
  (S.channelOf channels).all fun p => (S.channelOf channels').all fun p' =>
    (p.2 ≠ p'.2 || channels = channels') && (! sameHostAndPort p.2 p'.2 || p.2 = p'.2)

theorem apart_of_test (h : apartTest S channels channels' = true) : Apart S channels channels' := by
  intro p p' hp hp'
  simp only [apartTest, hp, hp', Option.all_some, Bool.and_eq_true, Bool.or_eq_true,
    decide_eq_true_eq, Bool.not_eq_true'] at h
  refine ⟨fun hl => h.1.resolve_left (not_not.mpr hl), fun _ _ hhost => ?_⟩
  exact h.2.resolve_left fun hno => by rw [hno] at hhost; cases hhost

/-- A test for `Orderly` that looks at all entries and all commands. -/
def calm (S : Setup) (s : System) : Act → Bool
  | .converter a => Heartbeat.calm S.converter s.converter a &&
      (announced S.converter a).all fun channels =>
        s.converter.history.all fun cmd => apartTest S channels cmd.channels
  | .take outcome => s.pending.head?.all fun cmd =>
      (S.getOneAction (cmd.actions S.converter)).all fun action =>
        carriedOut S.env (toAct action outcome)
  | .request _ _ => true

theorem orderly_of_calm (h : calm S s a = true) : Orderly S s a := by
  cases a with
  | converter a =>
      simp only [calm, Bool.and_eq_true] at h
      refine ⟨Heartbeat.orderly_of_calm h.1, fun channels hannounced cmd hcmd => ?_⟩
      have hall := h.2
      rw [hannounced, Option.all_some, List.all_eq_true] at hall
      exact apart_of_test (hall cmd hcmd)
  | take outcome =>
      intro cmd action hcmd haction _
      simpa only [calm, hcmd, haction, Option.all_some] using h
  | request l rand => trivial

def twoFacilities : Setup where
  converter := ⟨fun _ => true, [], [['x'], ['a']], 10⟩
  env := allTransports
  noDistinguished := rfl
  currentIdx := ⟨1, by decide⟩

/-- A server that announces one channel for both facilities. -/
def serverAt (uuid : ConnectionLocator.Text) (channel : String) : HeartbeatMessage :=
  ⟨uuid, [], fun _ => some channel.toList⟩

/-- The first server is not heard of again, and its client goes. -/
def oneLeaves : List Act :=
  [.converter (.heartbeat (serverAt ['1'] "redis://h") 0),
    .converter (.heartbeat (serverAt ['2'] "rabbitmq://k") 5),
    .take (.client 1), .converter (.timer 12 [['2'], ['1']]), .take (.client 7),
    .take .exception, .request default 3]

def afterLeaving : System :=
  (machine twoFacilities).exec (machine twoFacilities).init oneLeaves

theorem serves_oneLeaves :
    afterLeaving.facility.facility.clients.map Client.number = [7] ∧
    Serves twoFacilities afterLeaving :=
  ⟨by decide +kernel, serves_of_orderly (S := twoFacilities)
    (Machine.Reach.init.exec (Machine.Within.of_all (fun _ _ => orderly_of_calm)
      (by decide +kernel)))
    (by decide +kernel)⟩

end LiveServers
