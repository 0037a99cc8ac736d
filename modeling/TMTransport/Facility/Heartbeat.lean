import Mathlib.Data.List.AList
import TMTransport.Facility.Channel
import TMTransport.Library.Ledger
import TMTransport.Library.Machine

/-!
# From heartbeats to commands

The converter keeps an entry for each sender of heartbeats. An entry is good once a
heartbeat has announced all facilities, and then they are registered. An entry goes
when it has not been heard of for too long, and when another entry becomes good
that has the same channels. Then they are deregistered.

An entry that is not good has the channels that were read before one was missing,
and for the rest what an array has at first. Such an entry is cleared as well, with
a command, although nothing is registered for it.
-/

namespace Heartbeat

open ConnectionLocator Facility Interleave Ledger

/-! ## The converter -/

/-- `OneServerInfo` -/
structure OneServerInfo where
  good : Bool
  distinguishedFacilityLocators : List Channel
  nonDistinguishedFacilityLocators : List Channel
  lastGoodTime : Int
  deriving DecidableEq

/-- `HeartbeatMessage`, as far as the converter looks at it. -/
structure HeartbeatMessage where
  uuidStr : Text
  senderDescription : Text
  facilityChannels : Text → Option Text

/-- The channels of all facilities, the distinguished ones first. -/
abbrev Channels := List Channel × List Channel

structure Command where
  actionType : ActionType
  channels : Channels
  deriving DecidableEq

abbrev ServerInfos := AList fun _ : Text => OneServerInfo

/-- `HeartbeatMessageToRemoteFacilityCommandConverter`, as it is constructed. -/
structure Converter where
  /-- `std::regex_match` with the expression for the senders. -/
  senderRE : Text → Bool
  distinguishedFacilityNames : List Text
  nonDistinguishedFacilityNames : List Text
  ttl : Int

namespace OneServerInfo

def channels (e : OneServerInfo) : Channels :=
  (e.distinguishedFacilityLocators, e.nonDistinguishedFacilityLocators)

def hasSameInfo (e info : OneServerInfo) : Bool :=
  e.distinguishedFacilityLocators = info.distinguishedFacilityLocators ∧
    e.nonDistinguishedFacilityLocators = info.nonDistinguishedFacilityLocators

theorem hasSameInfo_iff {e info : OneServerInfo} :
    e.hasSameInfo info = true ↔ e.channels = info.channels := by
  simp [hasSameInfo, channels]

end OneServerInfo

/-- What is put out: an action for each facility. -/
def Command.actions (c : Converter) (cmd : Command) : List Action × List Action :=
  let action (channel : Channel) (name : Text) : Action :=
    ⟨cmd.actionType, channel.1, channel.2, name⟩
  (cmd.channels.1.zipWith action c.distinguishedFacilityNames,
    cmd.channels.2.zipWith action c.nonDistinguishedFacilityNames)

/-- `OneServerInfo{}` -/
def Converter.newInfo (c : Converter) : OneServerInfo where
  good := false
  distinguishedFacilityLocators := .replicate c.distinguishedFacilityNames.length .unset
  nonDistinguishedFacilityLocators := .replicate c.nonDistinguishedFacilityNames.length .unset
  lastGoodTime := 0

/-- The loop over the names. It stops where a channel is missing or cannot be read;
the array then has the new channels up to there. It has as many places as there are
names. -/
def fillLocators (facilityInfo : Text → Option Text) :
    List Text → List Channel → List Channel × Bool
  | [], _ => ([], true)
  | nm :: names, locators =>
    match (facilityInfo nm).bind parseServerSpec with
    | none => (locators, false)
    | some spec =>
      let (rest, complete) := fillLocators facilityInfo names locators.tail
      (spec :: rest, complete)

/-- The ids of the other entries that have the same channels. -/
def duplicates (infos : ServerInfos) (id : Text) (info : OneServerInfo) : List Text :=
  (infos.entries.filter fun item => item.1 ≠ id ∧ item.2.hasSameInfo info).map Sigma.fst

def eraseAll (infos : ServerInfos) (ids : List Text) : ServerInfos :=
  ids.foldl (fun infos id => infos.erase id) infos

/-- The entry has all channels. -/
def becomeGood (infos : ServerInfos) (id : Text) (info : OneServerInfo) (now : Int) :
    ServerInfos × List Command :=
  let ids := duplicates infos id info
  ((eraseAll infos ids).insert id { info with lastGoodTime := now },
    (if ids = [] then [] else [⟨.deregister, info.channels⟩]) ++ [⟨.register, info.channels⟩])

def handleHeartbeat (c : Converter) (infos : ServerInfos) (h : HeartbeatMessage) (now : Int) :
    ServerInfos × List Command :=
  if ¬ c.senderRE h.senderDescription then (infos, [])
  else
    let info := (infos.lookup h.uuidStr).getD c.newInfo
    if info.good then (infos.insert h.uuidStr { info with lastGoodTime := now }, [])
    else
      let distinguished := fillLocators h.facilityChannels c.distinguishedFacilityNames
        info.distinguishedFacilityLocators
      let info := { info with distinguishedFacilityLocators := distinguished.1 }
      if ¬ distinguished.2 then (infos.insert h.uuidStr info, [])
      else
        let nonDistinguished := fillLocators h.facilityChannels c.nonDistinguishedFacilityNames
          info.nonDistinguishedFacilityLocators
        let info := { info with nonDistinguishedFacilityLocators := nonDistinguished.1 }
        if ¬ nonDistinguished.2 then (infos.insert h.uuidStr info, [])
        else becomeGood infos h.uuidStr { info with good := true } now

/-- The good entries that have not been heard of since `ttl`, in the order in which
the map is walked. -/
def timedOut (c : Converter) (infos : ServerInfos) (tp : Int) (order : List Text) :
    List (Text × OneServerInfo) :=
  order.filterMap fun id =>
    match infos.lookup id with
    | none => none
    | some info => if info.good ∧ info.lastGoodTime + c.ttl < tp then some (id, info) else none

def handleTimer (c : Converter) (infos : ServerInfos) (tp : Int) (order : List Text) :
    ServerInfos × List Command :=
  let late := timedOut c infos tp order
  (eraseAll infos (late.map Prod.fst), late.map fun item => ⟨.deregister, item.2.channels⟩)

structure State where
  serverInfos : ServerInfos
  /-- All commands that have been put out. The latest comes first. -/
  history : List Command

inductive Act where
  | heartbeat (h : HeartbeatMessage) (now : Int)
  /-- The map has no order of its own; it may be walked in any. -/
  | timer (tp : Int) (order : List Text)

def State.record (s : State) (result : ServerInfos × List Command) : State where
  serverInfos := result.1
  history := result.2.reverse ++ s.history

def step (c : Converter) (s : State) : Act → Option State
  | .heartbeat h now => some (s.record (handleHeartbeat c s.serverInfos h now))
  | .timer tp order =>
    if order.Perm s.serverInfos.keys then
      some (s.record (handleTimer c s.serverInfos tp order))
    else none

def machine (c : Converter) : Machine State Act where
  init := ⟨∅, []⟩
  step := step c

/-! ## The register that the converter keeps -/

/-- The entry is good, with these channels. -/
def HeldGood (infos : ServerInfos) (id : Text) (channels : Channels) : Prop :=
  ∃ info, infos.lookup id = some info ∧ info.good = true ∧ info.channels = channels

def mark : ActionType → Mark
  | .register => .opened
  | .deregister => .closed

def entry (cmd : Command) : Channels × Mark := (cmd.channels, mark cmd.actionType)

/-- The commands of each tuple of channels register and deregister it in turns, those
registered last are those of the good entries, and no two good entries have the same. -/
def ExactRegister (s : State) : Prop := Exact (HeldGood s.serverInfos) (s.history.map entry)

/-- All channels that the message announces, if there is a readable one for each name. -/
def readAll (facilityInfo : Text → Option Text) : List Text → Option (List Channel)
  | [] => some []
  | nm :: names => do
    let spec ← (facilityInfo nm).bind parseServerSpec
    let rest ← readAll facilityInfo names
    return spec :: rest

def Converter.announced (c : Converter) (h : HeartbeatMessage) : Option Channels := do
  let distinguished ← readAll h.facilityChannels c.distinguishedFacilityNames
  let nonDistinguished ← readAll h.facilityChannels c.nonDistinguishedFacilityNames
  return (distinguished, nonDistinguished)

/-- Where a heartbeat makes an entry good, another entry has the same channels only if
a good one has them. -/
def Orderly (c : Converter) (s : State) : Act → Prop
  | .heartbeat h _ => c.senderRE h.senderDescription = true →
      (∀ channels, ¬ HeldGood s.serverInfos h.uuidStr channels) →
      ∀ channels, c.announced h = some channels →
      ∀ id info, id ≠ h.uuidStr → s.serverInfos.lookup id = some info →
      info.channels = channels → ∃ id', HeldGood s.serverInfos id' channels
  | .timer _ _ => True

/-! ## Good entries -/

variable {c : Converter} {infos : ServerInfos} {s s' : State} {id id' : Text}
  {info : OneServerInfo} {channels : Channels} {h : HeartbeatMessage} {now tp : Int}

theorem lookup_eraseAll (infos : ServerInfos) (ids : List Text) (id : Text) :
    (eraseAll infos ids).lookup id = if id ∈ ids then none else infos.lookup id := by
  induction ids generalizing infos with
  | nil => simp [eraseAll]
  | cons i ids ih =>
      have : eraseAll infos (i :: ids) = eraseAll (infos.erase i) ids := rfl
      rw [this, ih]
      by_cases hi : id = i
      · subst hi
        simp
      · simp [hi, AList.lookup_erase_ne hi]

theorem heldGood_eraseAll {ids : List Text} :
    HeldGood (eraseAll infos ids) id channels ↔ HeldGood infos id channels ∧ id ∉ ids := by
  unfold HeldGood
  rw [lookup_eraseAll]
  split <;> simp [*]

theorem heldGood_insert_self :
    HeldGood (infos.insert id info) id channels ↔ info.good = true ∧ info.channels = channels := by
  simp [HeldGood, AList.lookup_insert]

theorem heldGood_insert_ne (h : id' ≠ id) :
    HeldGood (infos.insert id info) id' channels ↔ HeldGood infos id' channels := by
  simp [HeldGood, AList.lookup_insert_ne h]

theorem not_heldGood_of_bad (hbad : ((infos.lookup id).getD c.newInfo).good = false) :
    ¬ HeldGood infos id channels := by
  rintro ⟨info, hinfo, hgood, -⟩
  rw [hinfo, Option.getD_some, hgood] at hbad
  cases hbad

/-- An entry that is not good stays so, whatever it is. -/
theorem heldGood_insert_bad (hbad : ((infos.lookup id).getD c.newInfo).good = false)
    (hinfo : info.good = false) :
    HeldGood (infos.insert id info) id' channels ↔ HeldGood infos id' channels := by
  by_cases hid : id' = id
  · subst hid
    rw [heldGood_insert_self, hinfo]
    exact iff_of_false (by simp) (not_heldGood_of_bad hbad)
  · exact heldGood_insert_ne hid

theorem mem_duplicates :
    id' ∈ duplicates infos id info ↔
      id' ≠ id ∧ ∃ other, infos.lookup id' = some other ∧ other.channels = info.channels := by
  simp only [duplicates, List.mem_map, List.mem_filter, Sigma.exists, ← AList.mem_lookup_iff,
    Option.mem_def, decide_eq_true_eq, Bool.decide_and, Bool.and_eq_true,
    OneServerInfo.hasSameInfo_iff]
  constructor
  · rintro ⟨i, other, ⟨hother, hne, hsame⟩, rfl⟩
    exact ⟨hne, other, hother, hsame⟩
  · rintro ⟨hne, other, hother, hsame⟩
    exact ⟨id', other, ⟨hother, hne, hsame⟩, rfl⟩

theorem readAll_of_fillLocators {facilityInfo : Text → Option Text} {names : List Text}
    {locators : List Channel} (hfill : (fillLocators facilityInfo names locators).2 = true) :
    readAll facilityInfo names = some (fillLocators facilityInfo names locators).1 := by
  induction names generalizing locators with
  | nil => rfl
  | cons nm names ih =>
      cases hspec : (facilityInfo nm).bind parseServerSpec with
      | none => simp [fillLocators, hspec] at hfill
      | some spec =>
          simp only [fillLocators, hspec] at hfill
          simp [fillLocators, readAll, hspec, ih hfill]

/-! ## What a heartbeat does -/

/-- A heartbeat puts nothing out and leaves the good entries as they are, or it makes
an entry good with all channels that it announces. -/
theorem handleHeartbeat_cases (c : Converter) (infos : ServerInfos) (h : HeartbeatMessage)
    (now : Int) :
    ((handleHeartbeat c infos h now).2 = [] ∧ ∀ id channels,
      HeldGood (handleHeartbeat c infos h now).1 id channels ↔ HeldGood infos id channels) ∨
    (c.senderRE h.senderDescription = true ∧ (∀ channels, ¬ HeldGood infos h.uuidStr channels) ∧
      ∃ info, info.good = true ∧ c.announced h = some info.channels ∧
        handleHeartbeat c infos h now = becomeGood infos h.uuidStr info now) := by
  unfold handleHeartbeat
  split
  case isTrue => exact .inl ⟨rfl, fun _ _ => Iff.rfl⟩
  case isFalse hsender =>
    dsimp only
    split
    case isTrue hgood =>
      -- the entry must be in the map, as a new one is not good
      cases hlookup : infos.lookup h.uuidStr with
      | none =>
          rw [hlookup] at hgood
          cases hgood
      | some info =>
          rw [hlookup, Option.getD_some] at hgood
          refine .inl ⟨rfl, fun id channels => ?_⟩
          by_cases hid : id = h.uuidStr
          · subst hid
            rw [heldGood_insert_self]
            simp [HeldGood, hlookup, OneServerInfo.channels]
          · exact heldGood_insert_ne hid
    case isFalse hbad =>
      have hbad := eq_false_of_ne_true hbad
      split
      case isTrue => exact .inl ⟨rfl, fun _ _ => heldGood_insert_bad hbad hbad⟩
      case isFalse hdist =>
        split
        case isTrue => exact .inl ⟨rfl, fun _ _ => heldGood_insert_bad hbad hbad⟩
        case isFalse hnon =>
          refine .inr ⟨not_not.mp hsender, fun _ => not_heldGood_of_bad hbad, _, rfl, ?_, rfl⟩
          rw [Converter.announced, readAll_of_fillLocators (not_not.mp hdist),
            readAll_of_fillLocators (not_not.mp hnon)]
          rfl

theorem heldGood_becomeGood (hgood : info.good = true)
    (hbad : ∀ channels, ¬ HeldGood infos id channels) :
    HeldGood (becomeGood infos id info now).1 id' channels ↔
      (HeldGood infos id' channels ∧ channels ≠ info.channels) ∨
        id' = id ∧ channels = info.channels := by
  by_cases hid : id' = id
  · subst hid
    simp only [becomeGood, heldGood_insert_self, hgood, true_and, hbad, false_and, false_or]
    exact eq_comm
  · simp only [becomeGood, heldGood_insert_ne hid, heldGood_eraseAll, hid, false_and, or_false]
    refine and_congr_right fun ⟨other, hother, _, hchannels⟩ => not_congr ?_
    rw [mem_duplicates]
    constructor
    · rintro ⟨-, other', hother', hsame⟩
      cases hother.symm.trans hother'
      rw [← hchannels, hsame]
    · intro hsame
      exact ⟨hid, other, hother, hchannels.trans hsame⟩

/-! ## The steps -/

theorem exactRegister_init (c : Converter) : ExactRegister (machine c).init :=
  exact_nil fun i _ ⟨_, hinfo, _⟩ => by cases hinfo

theorem exactRegister_heartbeat (hs : ExactRegister s) (ho : Orderly c s (.heartbeat h now)) :
    ExactRegister (s.record (handleHeartbeat c s.serverInfos h now)) := by
  rcases handleHeartbeat_cases c s.serverInfos h now with
    ⟨hnone, hheld⟩ | ⟨hsender, hbad, info, hgood, hannounced, heq⟩
  · simp only [ExactRegister, State.record, hnone]
    exact Exact.congr hs hheld
  · have hduplicate := ho hsender hbad _ hannounced
    have hheld : ∀ id channels,
        HeldGood (becomeGood s.serverInfos h.uuidStr info now).1 id channels ↔
        (HeldGood s.serverInfos id channels ∧ channels ≠ info.channels) ∨
          id = h.uuidStr ∧ channels = info.channels :=
      fun _ _ => heldGood_becomeGood hgood hbad
    rw [heq]
    by_cases hids : duplicates s.serverInfos h.uuidStr info = []
    · have hfree : ∀ id, ¬ HeldGood s.serverInfos id info.channels := by
        intro id hid
        by_cases heqid : id = h.uuidStr
        · exact hbad _ (heqid ▸ hid)
        · obtain ⟨other, hother, -, hchannels⟩ := hid
          exact List.not_mem_nil (hids ▸ mem_duplicates.mpr ⟨heqid, other, hother, hchannels⟩)
      have hheld' : ∀ id channels,
          HeldGood (becomeGood s.serverInfos h.uuidStr info now).1 id channels ↔
            HeldGood s.serverInfos id channels ∨ id = h.uuidStr ∧ channels = info.channels := by
        intro id channels
        rw [hheld]
        refine or_congr_left (and_iff_left_of_imp fun hid heqc => ?_)
        exact hfree id (heqc ▸ hid)
      have hopened := Exact.opened hs (i := h.uuidStr) hfree hheld'
      simpa [ExactRegister, State.record, becomeGood, hids, entry, mark] using hopened
    · obtain ⟨id, hid⟩ := List.exists_mem_of_ne_nil _ hids
      obtain ⟨hne, other, hother, hchannels⟩ := mem_duplicates.mp hid
      obtain ⟨holder, hholder⟩ := hduplicate id other hne hother hchannels
      -- first the server is deregistered, by the name of whoever holds it
      have hclosed : Exact
          (fun id channels => HeldGood s.serverInfos id channels ∧ channels ≠ info.channels) _ :=
        Exact.closed hs hholder fun _ _ => Iff.rfl
      have hopened := hclosed.opened (i := h.uuidStr) (k := info.channels)
        (fun _ hheld => hheld.2 rfl) hheld
      simpa [ExactRegister, State.record, becomeGood, hids, entry, mark] using hopened

/-- Holders of different channels give them up one after the other. -/
theorem exact_eraseAll {infos : ServerInfos} {commands : List Command}
    {late : List (Text × OneServerInfo)}
    (hs : Exact (HeldGood infos) (commands.map entry))
    (hgood : ∀ item ∈ late, infos.lookup item.1 = some item.2 ∧ item.2.good = true)
    (hnodup : (late.map Prod.fst).Nodup) :
    Exact (HeldGood (eraseAll infos (late.map Prod.fst)))
      (((late.map fun item => (⟨.deregister, item.2.channels⟩ : Command)).reverse ++
        commands).map entry) := by
  induction late generalizing infos commands with
  | nil => exact hs
  | cons item late ih =>
      obtain ⟨hlookup, hitem⟩ := hgood item List.mem_cons_self
      obtain ⟨hfresh, hrest⟩ := List.nodup_cons.mp hnodup
      have hheld : HeldGood infos item.1 item.2.channels := ⟨item.2, hlookup, hitem, rfl⟩
      have hclosed : Exact (HeldGood (infos.erase item.1)) _ := hs.closed hheld ?held
      case held =>
        intro id channels
        by_cases hid : id = item.1
        · subst hid
          refine iff_of_false (by simp [HeldGood]) fun ⟨hold, hne⟩ => hne ?_
          obtain ⟨info, hinfo, -, hchannels⟩ := hold
          cases hinfo.symm.trans hlookup
          exact hchannels.symm
        · simp only [HeldGood, AList.lookup_erase_ne hid]
          refine (and_iff_left_of_imp fun hold heq => hid ?_).symm
          exact hs.holder_unique channels id item.1 hold (heq ▸ hheld)
      have hclosed : Exact (HeldGood (infos.erase item.1))
          ((⟨.deregister, item.2.channels⟩ :: commands).map entry) := hclosed
      have := ih hclosed (fun other hother => ?keep) hrest
      case keep =>
        obtain ⟨hlook, hgo⟩ := hgood other (List.mem_cons_of_mem _ hother)
        refine ⟨?_, hgo⟩
        rw [AList.lookup_erase_ne fun heq : other.1 = item.1 =>
          hfresh (heq ▸ List.mem_map_of_mem hother), hlook]
      simpa [eraseAll] using this

theorem mem_timedOut {order : List Text} {item : Text × OneServerInfo}
    (hitem : item ∈ timedOut c infos tp order) :
    infos.lookup item.1 = some item.2 ∧ item.2.good = true := by
  obtain ⟨id, -, hid⟩ := List.mem_filterMap.mp hitem
  cases hlookup : infos.lookup id with
  | none =>
      rw [hlookup] at hid
      cases hid
  | some info =>
      simp only [hlookup, Option.ite_none_right_eq_some, Option.some.injEq] at hid
      obtain ⟨⟨hgood, -⟩, rfl⟩ := hid
      exact ⟨hlookup, hgood⟩

theorem timedOut_sublist (c : Converter) (infos : ServerInfos) (tp : Int) (order : List Text) :
    ((timedOut c infos tp order).map Prod.fst).Sublist order := by
  induction order with
  | nil => exact .slnil
  | cons id order ih =>
      simp only [timedOut, List.filterMap_cons]
      split
      · exact ih.cons id
      · rename_i item hitem
        have : item.1 = id := by
          revert hitem
          cases infos.lookup id with
          | none => exact fun hitem => by cases hitem
          | some info =>
              simp only [Option.ite_none_right_eq_some, Option.some.injEq]
              exact fun ⟨_, heq⟩ => heq ▸ rfl
        rw [List.map_cons, this]
        exact ih.cons_cons id

theorem exactRegister_timer {order : List Text} (hs : ExactRegister s)
    (horder : order.Perm s.serverInfos.keys) :
    ExactRegister (s.record (handleTimer c s.serverInfos tp order)) := by
  have hnodup : order.Nodup := horder.nodup_iff.mpr s.serverInfos.keys_nodup
  exact exact_eraseAll hs (fun _ => mem_timedOut)
    (hnodup.sublist (timedOut_sublist c s.serverInfos tp order))

theorem exactRegister_step {a : Act} (hs : ExactRegister s) (ho : Orderly c s a)
    (hstep : (machine c).step s a = some s') : ExactRegister s' := by
  cases a with
  | heartbeat h now =>
      cases hstep
      exact exactRegister_heartbeat hs ho
  | timer tp order =>
      simp only [machine, step, Option.ite_none_right_eq_some, Option.some.injEq] at hstep
      obtain ⟨horder, rfl⟩ := hstep
      exact exactRegister_timer hs horder

/-- **The register is exact in every orderly run.** -/
theorem exactRegister_of_orderly (h : (machine c).Reach (Orderly c) s) : ExactRegister s :=
  h.invariant (exactRegister_init c) fun _ _ _ => exactRegister_step

/-! ## Runs with one facility -/

/-- A test for `Orderly` that looks at all entries. -/
def calm (c : Converter) (s : State) : Act → Bool
  | .heartbeat h _ => (c.announced h).all fun channels =>
      s.serverInfos.entries.any (fun item => item.2.good && item.2.channels = channels) ||
        s.serverInfos.entries.all fun item => item.2.channels ≠ channels
  | .timer _ _ => true

theorem orderly_of_calm {a : Act} (hcalm : calm c s a = true) : Orderly c s a := by
  cases a with
  | timer tp order => trivial
  | heartbeat h now =>
      intro _ _ channels hannounced id info _ hinfo hchannels
      simp only [calm, hannounced, Option.all_some, Bool.or_eq_true, List.any_eq_true,
        Bool.and_eq_true, decide_eq_true_eq, List.all_eq_true] at hcalm
      rcases hcalm with ⟨item, hitem, hgood, heq⟩ | hnone
      · exact ⟨item.1, item.2, AList.mem_lookup_iff.mpr hitem, hgood, heq⟩
      · exact absurd hchannels (hnone ⟨id, info⟩ (AList.mem_lookup_iff.mp hinfo))

def oneFacility : Converter := ⟨fun _ => true, [['a']], [], 10⟩

def heartbeatFrom (uuid : Text) (channel : Option Text) : HeartbeatMessage :=
  ⟨uuid, [], fun nm => if nm = ['a'] then channel else none⟩

/-- A server is restarted, and then it is heard of no more. -/
def restart : List Act :=
  [.heartbeat (heartbeatFrom ['1'] "redis://h".toList) 0,
    .heartbeat (heartbeatFrom ['2'] "redis://h".toList) 1,
    .timer 12 [['2']]]

theorem exactRegister_restart :
    (((machine oneFacility).exec (machine oneFacility).init restart).history.map
      Command.actionType = [.deregister, .register, .deregister, .register]) ∧
    ExactRegister ((machine oneFacility).exec (machine oneFacility).init restart) :=
  ⟨by decide +kernel, exactRegister_of_orderly (c := oneFacility)
    (Machine.Reach.init.exec (Machine.Within.of_all (fun _ _ => orderly_of_calm)
      (by decide +kernel)))⟩

/-- A sender does not announce the facility. Another one announces it without a host. -/
def withoutHost : List Act :=
  [.heartbeat (heartbeatFrom ['1'] none) 0,
    .heartbeat (heartbeatFrom ['2'] "rabbitmq://".toList) 1]

theorem not_exactRegister_withoutHost :
    ¬ ∀ c s, (machine c).Reach (fun _ _ => True) s → ExactRegister s := by
  intro hall
  have hexact := hall oneFacility _
    (Machine.Reach.init.exec (Machine.Within.of_forall (fun _ _ => trivial) _ withoutHost))
  -- the first of its commands is to deregister
  have halternates := hexact.alternates ([.unset], [])
  have hmarks : marks ([.unset], []) (((machine oneFacility).exec (machine oneFacility).init
      withoutHost).history.map entry) = [.opened, .closed] := by decide +kernel
  rw [hmarks] at halternates
  exact absurd halternates.2.1 (by decide)

end Heartbeat
