import Stoop.Alerts.Counts

/-!
# What the client counts as an alert

The client's counts between the server's answers (`web/src/core/alerts.ts`, `web/src/api/alerts.ts`): what a
`MessageCreated` does to the held channels and spaces (`messageCreated` of `web/src/api/ws.ts`), for a client
whose caches are the server's rows as the message commits (`Agrees`).

The client judges by the event and what it holds, and so leaves out four things that the query looks at
(`Drifts`): the kind of the channel, which people `@channel` and `@here` told, the mute of a thread that has no
summary to carry it, and the markers. It adds to its count and the server's does not grow exactly where one of
them decides.
-/

set_option autoImplicit false

namespace Stoop.Alerts.Noted

open Stoop.Alerts.Counts

/-! ## The caches -/

structure Channel where
  id : Nat
  lastMessageId : Option Nat
  lastReadMessageId : Option Nat
  unreadCount : Nat
  alertCount : Nat
  muted : Bool
  deriving DecidableEq, Repr

structure Space where
  id : Nat
  hasUnread : Bool
  alertCount : Nat
  muted : Bool
  deriving DecidableEq, Repr

/-- A root's thread summary, as far as an alert looks at it. -/
structure ThreadSummary where
  muted : Bool
  deriving DecidableEq, Repr

/-- The keys of the queries that are asked for again. -/
inductive QueryKey
  | channels (spaceId : Nat)
  | spaces
  | activity
  deriving DecidableEq, Repr

/-- What the client holds: `channels` by space, `dms` apart, and of the channel logs the roots' summaries. `stale`
is what has been asked for again. -/
structure Client where
  userId : Option Nat
  activeChannelId : Option Nat
  openThreadRootId : Option Nat
  hasAttention : Bool
  channels : Nat → Option (List Channel)
  spaces : Option (List Space)
  dms : Option (List Channel)
  blocked : Option (List Nat)
  readRow : Nat → Nat → Option (Option ThreadSummary)
  inFlight : QueryKey → Bool
  readOnArrival : Nat → Option Nat
  stale : List QueryKey

namespace Client

def heldChannel (c : Client) (spaceId : Option Nat) (channelId : Nat) : Option Channel :=
  (match spaceId with | some space => c.channels space | none => c.dms).bind fun held =>
    held.find? (·.id == channelId)

def heldSpace (c : Client) (spaceId : Nat) : Option Space := c.spaces.bind fun held => held.find?
    (·.id == spaceId)

/-- The alerts the client shows for a channel. -/
def alertCount (c : Client) (spaceId : Option Nat) (channelId : Nat) : Nat :=
  (c.heldChannel spaceId channelId).elim 0 Channel.alertCount

/-! ## Mutes -/

def spaceMuted (c : Client) (spaceId : Nat) : Option Bool :=
  c.spaces.map fun _ => (c.heldSpace spaceId).any Space.muted

def channelMuted (c : Client) (spaceId : Option Nat) (channelId : Nat) : Option Bool :=
  (match spaceId with | some space => c.channels space | none => c.dms).map fun _ =>
    (c.heldChannel spaceId channelId).any Channel.muted

/-- `isMuted`: the channel's own mute or its space's, or none while a list that would say is not held. -/
def isMuted (c : Client) (spaceId : Option Nat) (channelId : Nat) : Option Bool :=
  let channel := c.channelMuted spaceId channelId
  let space := match spaceId with | some space => c.spaceMuted space | none => some false
  if channel = some true then some true
  else if space = some true then some true
  else if channel = none ∨ space = none then none
  else some false

/-! ## Patches -/

/-- `patchChannel`; the order `patchDirectMessage` puts its list in is left out. -/
def patchChannel (c : Client) (spaceId : Option Nat) (channelId : Nat) (patch : Channel → Channel) : Client :=
  let patched := List.map fun held => if held.id = channelId then patch held else held
  match spaceId with
  | some space =>
    { c with channels := fun s => if s = space then (c.channels s).map patched else c.channels s }
  | none => { c with dms := c.dms.map patched }

def patchSpace (c : Client) (spaceId : Nat) (patch : Space → Space) : Client :=
  { c with spaces := c.spaces.map <| List.map fun held => if held.id = spaceId then patch held else held }

def setSpaceUnread (c : Client) (spaceId : Option Nat) (hasUnread : Bool) : Client :=
  spaceId.elim c fun space => c.patchSpace space ({ · with hasUnread })

def refetchKey (c : Client) (key : QueryKey) : Client := { c with stale := c.stale ++ [key] }

def refetchIfInFlight (c : Client) (key : QueryKey) : Client := if c.inFlight key then c.refetchKey key else c

def refetchAlerts (c : Client) (spaceId : Nat) : Client := (c.refetchKey (.channels spaceId)).refetchKey .spaces

def refetchAlertsIfAny (c : Client) (spaceId : Option Nat) (channelId : Nat) : Client :=
  spaceId.elim c fun space =>
    if 0 < c.alertCount spaceId channelId ∨ 0 < (c.heldSpace space).elim 0 Space.alertCount then
      c.refetchAlerts space
    else c

/-! ## An arrival -/

/-- `addressesMe`. -/
def addressesMe (c : Client) (m : MessageCreated) : Bool :=
  match c.userId with
  | none => false
  | some me =>
    m.authorId != me &&
      (m.mentionUserIds.contains me || m.mentionsEntireChannel || m.mentionsHere || m.replyToAuthor == some me)

def fromBlocked (c : Client) (m : MessageCreated) : Bool :=
    c.blocked.any fun blocked => blocked.contains m.authorId

def addAlert (c : Client) (spaceId channelId : Nat) : Client :=
  let c := c.patchChannel (some spaceId) channelId fun held => { held with alertCount := held.alertCount + 1 }
  let c := c.patchSpace spaceId fun held => { held with alertCount := held.alertCount + 1 }
  (c.refetchIfInFlight (.channels spaceId)).refetchIfInFlight .spaces

def noteAlert (c : Client) (spaceId : Option Nat) (channelId : Nat) (threadRootId : Option Nat) : Client :=
  match spaceId with
  | none => c
  | some space =>
    match c.isMuted spaceId channelId with
    | none => c.refetchKey .spaces
    | some true => c
    | some false =>
      match threadRootId with
      | none => c.addAlert space channelId
      | some root =>
        match c.readRow channelId root with
        | none => c.refetchAlerts space
        | some thread => if thread.any ThreadSummary.muted then c else c.addAlert space channelId

/-- A reply that stays in its thread. -/
def staysInThread (m : MessageCreated) : Bool := m.threadRootId.isSome && !m.inChannel

/-- Whether the reader is looking at where a message lands: its thread, for a reply that stays there, or its
channel. -/
def reading (c : Client) (m : MessageCreated) : Bool :=
  c.hasAttention &&
    if staysInThread m then c.openThreadRootId == m.threadRootId else c.activeChannelId == some m.channelId

/-- A channel whose newest message has moved, read as it lands or not. -/
def arrived (m : MessageCreated) (read : Bool) (held : Channel) : Channel :=
  { held with
    lastMessageId := some m.id
    lastReadMessageId := if read then some m.id else held.lastReadMessageId
    unreadCount := if read then 0 else held.unreadCount + 1 }

/-- The handler's case `messageCreated`, after the log has taken the message. Whether the activity feed is asked
for again is left out: the feed holds no counts of alerts. -/
def messageCreated (c : Client) (m : MessageCreated) : Client :=
  let mine := c.userId == some m.authorId
  if staysInThread m then
    if mine then c.refetchAlertsIfAny m.spaceId m.channelId
    else if c.addressesMe m && !c.reading m && !c.fromBlocked m then
      c.noteAlert m.spaceId m.channelId m.threadRootId
    else c
  else
    let patched := c.patchChannel m.spaceId m.channelId (arrived m (mine || c.reading m))
    if mine then patched.refetchAlertsIfAny m.spaceId m.channelId
    else if c.reading m then
      { patched with
        readOnArrival := fun channel => if channel = m.channelId then some m.id else c.readOnArrival channel }
    else
      let told :=
        match patched.isMuted m.spaceId m.channelId with
        | none => patched.refetchKey .spaces
        | some true => patched
        | some false => patched.setSpaceUnread m.spaceId true
      if c.addressesMe m && !c.fromBlocked m then told.noteAlert m.spaceId m.channelId m.threadRootId else told

/-! ## What a patch leaves -/

section

variable {c : Client} {spaceId : Option Nat} {channelId : Nat}

theorem find?_patched {α : Type} {key : α → Nat} {id : Nat} {patch : α → α} (hkey : ∀ a, key (patch a) = key a)
    (held : List α) :
    (held.map fun a => if key a = id then patch a else a).find? (key · == id) =
      (held.find? (key · == id)).map patch := by
  induction held with
  | nil => rfl
  | cons a held ih =>
    rw [List.map_cons]
    by_cases ha : key a = id
    · rw [if_pos ha, List.find?_cons_of_pos (by simp [hkey, ha]), List.find?_cons_of_pos (by simp [ha]),
        Option.map_some]
    · rw [if_neg ha, List.find?_cons_of_neg (by simp [ha]), List.find?_cons_of_neg (by simp [ha]), ih]

theorem heldChannel_patchChannel {patch : Channel → Channel} (hid : ∀ h, (patch h).id = h.id) :
    (c.patchChannel spaceId channelId patch).heldChannel spaceId channelId =
      (c.heldChannel spaceId channelId).map patch := by
  cases spaceId with
  | none =>
    cases hdms : c.dms with
    | none => simp [patchChannel, heldChannel, hdms]
    | some held =>
      simp only [patchChannel, heldChannel, hdms, Option.map_some, Option.bind_some]
      exact find?_patched hid held
  | some space =>
    cases hheld : c.channels space with
    | none => simp [patchChannel, heldChannel, hheld]
    | some held =>
      simp only [patchChannel, heldChannel, hheld, if_pos, Option.map_some, Option.bind_some]
      exact find?_patched hid held

theorem isMuted_patchChannel {patch : Channel → Channel} (hid : ∀ h, (patch h).id = h.id)
    (hmuted : ∀ h, (patch h).muted = h.muted) :
    (c.patchChannel spaceId channelId patch).isMuted spaceId channelId = c.isMuted spaceId channelId := by
  have hchannel : (c.patchChannel spaceId channelId patch).channelMuted spaceId channelId =
      c.channelMuted spaceId channelId := by
    have hany : ((c.heldChannel spaceId channelId).map patch).any Channel.muted =
        (c.heldChannel spaceId channelId).any Channel.muted := by
      rw [Option.any_map]
      congr 1
      funext h
      exact hmuted h
    simp only [channelMuted, heldChannel_patchChannel hid, hany]
    cases spaceId with
    | none => simp only [patchChannel, Option.map_map, Function.comp_def]
    | some space => simp only [patchChannel, if_pos, Option.map_map, Function.comp_def]
  have hspace : ∀ space, (c.patchChannel spaceId channelId patch).spaceMuted space = c.spaceMuted space := by
    intro space
    cases spaceId <;> rfl
  simp only [isMuted, hchannel, hspace]

theorem isMuted_patchSpace {patch : Space → Space} (hid : ∀ h, (patch h).id = h.id)
    (hmuted : ∀ h, (patch h).muted = h.muted) {space : Nat} :
    (c.patchSpace space patch).isMuted (some space) channelId = c.isMuted (some space) channelId := by
  have hspace : (c.patchSpace space patch).spaceMuted space = c.spaceMuted space := by
    simp only [spaceMuted, patchSpace, heldSpace]
    cases hspaces : c.spaces with
    | none => rfl
    | some held =>
      have hfind := @find?_patched Space Space.id space patch hid held
      simp only [Option.map_some, Option.bind_some, hfind, Option.any_map]
      congr 2
      funext h
      exact hmuted h
  simp only [isMuted, hspace]
  rfl

theorem heldChannel_refetchIfInFlight (key : QueryKey) :
    (c.refetchIfInFlight key).heldChannel spaceId channelId = c.heldChannel spaceId channelId := by
  unfold refetchIfInFlight
  split <;> rfl

theorem alertCount_addAlert {space : Nat} :
    (c.addAlert space channelId).alertCount (some space) channelId =
      c.alertCount (some space) channelId + if (c.heldChannel (some space) channelId).isSome then 1 else 0 := by
  have hheld : (c.addAlert space channelId).heldChannel (some space) channelId =
      (c.heldChannel (some space) channelId).map fun held => { held with alertCount := held.alertCount + 1 } := by
    rw [addAlert, heldChannel_refetchIfInFlight, heldChannel_refetchIfInFlight]
    exact @heldChannel_patchChannel c (some space) channelId
      (fun held => { held with alertCount := held.alertCount + 1 }) fun _ => rfl
  rw [alertCount, hheld, alertCount]
  cases c.heldChannel (some space) channelId with
  | none => rfl
  | some held => rfl

/-- Whether an alert adds to the count of a channel: it is held and not muted, nor its space, and its thread's
root is held and not shown as muted. -/
def notes (c : Client) (spaceId : Option Nat) (channelId : Nat) (threadRootId : Option Nat) : Bool :=
  spaceId.isSome && c.isMuted spaceId channelId == some false && (c.heldChannel spaceId channelId).isSome &&
    threadRootId.all fun root => (c.readRow channelId root).any fun thread => !thread.any ThreadSummary.muted

theorem alertCount_noteAlert (threadRootId : Option Nat) :
    (c.noteAlert spaceId channelId threadRootId).alertCount spaceId channelId =
      c.alertCount spaceId channelId + if c.notes spaceId channelId threadRootId then 1 else 0 := by
  cases spaceId with
  | none => rfl
  | some space =>
    unfold noteAlert notes
    cases hmuted : c.isMuted (some space) channelId with
    | none => rfl
    | some muted =>
      cases muted with
      | true => rfl
      | false =>
        cases threadRootId with
        | none =>
          dsimp only
          rw [alertCount_addAlert]
          simp
        | some root =>
          cases hrow : c.readRow channelId root with
          | none =>
            simp only [Option.all_some, hrow, Option.any_none, Bool.and_false, Bool.false_eq_true, if_false,
              Nat.add_zero]
            rfl
          | some thread =>
            simp only [Option.all_some, hrow, Option.any_some]
            cases thread.any ThreadSummary.muted with
            | true => simp
            | false =>
              rw [if_neg Bool.false_ne_true, alertCount_addAlert]
              simp

theorem alertCount_refetchAlertsIfAny (c : Client) :
    (c.refetchAlertsIfAny spaceId channelId).alertCount spaceId channelId = c.alertCount spaceId channelId := by
  cases spaceId with
  | none => rfl
  | some space =>
    simp only [refetchAlertsIfAny, Option.elim_some]
    split <;> rfl

end

/-! ## What an arrival adds -/

theorem addressesMe_mine {c : Client} {m : MessageCreated} (h : (c.userId == some m.authorId) = true) :
    c.addressesMe m = false := by
  rw [addressesMe, beq_iff_eq.mp h]
  simp

section

variable {c : Client} {spaceId : Option Nat} {channelId : Nat} {patch : Channel → Channel}

theorem alertCount_patchChannel (hid : ∀ h, (patch h).id = h.id) (hcount : ∀ h, (patch h).alertCount =
    h.alertCount) :
    (c.patchChannel spaceId channelId patch).alertCount spaceId channelId = c.alertCount spaceId channelId := by
  rw [alertCount, heldChannel_patchChannel hid, alertCount]
  cases c.heldChannel spaceId channelId with
  | none => rfl
  | some held => exact hcount held

theorem notes_patchChannel (hid : ∀ h, (patch h).id = h.id) (hmuted : ∀ h, (patch h).muted = h.muted)
    (threadRootId : Option Nat) :
    (c.patchChannel spaceId channelId patch).notes spaceId channelId threadRootId =
      c.notes spaceId channelId threadRootId := by
  have hrows : (c.patchChannel spaceId channelId patch).readRow = c.readRow := by cases spaceId <;> rfl
  simp only [notes, isMuted_patchChannel hid hmuted, heldChannel_patchChannel hid, Option.isSome_map, hrows]

theorem notes_setSpaceUnread (hasUnread : Bool) (threadRootId : Option Nat) :
    (c.setSpaceUnread spaceId hasUnread).notes spaceId channelId threadRootId =
      c.notes spaceId channelId threadRootId := by
  cases spaceId with
  | none => rfl
  | some space =>
    have hmuted := @isMuted_patchSpace c channelId ({ · with hasUnread }) (fun _ => rfl) (fun _ => rfl) space
    simp only [notes, setSpaceUnread, Option.elim_some, hmuted]
    rfl

theorem alertCount_setSpaceUnread (hasUnread : Bool) :
    (c.setSpaceUnread spaceId hasUnread).alertCount spaceId channelId = c.alertCount spaceId channelId := by
  cases spaceId <;> rfl

end

/-- A message that lands where the reader is not looking adds to the count what its alert does. -/
theorem alertCount_messageCreated {c : Client} {m : MessageCreated} (haway : c.reading m = false) :
    (c.messageCreated m).alertCount m.spaceId m.channelId =
      c.alertCount m.spaceId m.channelId +
        if c.addressesMe m && !c.fromBlocked m && c.notes m.spaceId m.channelId m.threadRootId then 1 else 0 := by
  have hcount : ∀ read, (c.patchChannel m.spaceId m.channelId (arrived m read)).alertCount m.spaceId m.channelId =
      c.alertCount m.spaceId m.channelId := fun read =>
    @alertCount_patchChannel c m.spaceId m.channelId (arrived m read) (fun _ => rfl) fun _ => rfl
  have hnotes : ∀ read, (c.patchChannel m.spaceId m.channelId (arrived m read)).notes m.spaceId m.channelId
      m.threadRootId = c.notes m.spaceId m.channelId m.threadRootId := fun read =>
    @notes_patchChannel c m.spaceId m.channelId (arrived m read) (fun _ => rfl) (fun _ => rfl) m.threadRootId
  unfold messageCreated
  cases hmine : c.userId == some m.authorId with
  | true =>
    have hzero : (c.addressesMe m && !c.fromBlocked m && c.notes m.spaceId m.channelId m.threadRootId) =
      false := by
      rw [addressesMe_mine hmine, Bool.false_and, Bool.false_and]
    rw [hzero, if_neg Bool.false_ne_true, Nat.add_zero]
    dsimp only
    split
    · rw [if_pos rfl, alertCount_refetchAlertsIfAny]
    · rw [if_pos rfl, alertCount_refetchAlertsIfAny, hcount]
  | false =>
    dsimp only
    simp only [haway, Bool.false_eq_true, if_false, Bool.not_false, Bool.and_true, Bool.or_false]
    split
    · cases c.addressesMe m && !c.fromBlocked m with
      | true => rw [if_pos rfl, alertCount_noteAlert, Bool.true_and]
      | false => rw [if_neg Bool.false_ne_true, Bool.false_and, if_neg Bool.false_ne_true, Nat.add_zero]
    · cases c.addressesMe m && !c.fromBlocked m with
      | true =>
        rw [if_pos rfl, alertCount_noteAlert, Bool.true_and]
        split
        · exact congrArg₂ _ (hcount false) (congrArg (fun b : Bool => if b then 1 else 0) (hnotes false))
        · rw [hcount, hnotes]
        · rw [alertCount_setSpaceUnread, notes_setSpaceUnread, hcount, hnotes]
      | false =>
        rw [if_neg Bool.false_ne_true, Bool.false_and, if_neg Bool.false_ne_true, Nat.add_zero]
        split
        · exact hcount false
        · exact hcount false
        · rw [alertCount_setSpaceUnread, hcount]

end Client

/-! ## Caches that agree -/

/-- A reader's caches are the server's rows where a message lands: the space's channels are held, with the one
it is in if the reader reads it, and so are the spaces, the people blocked, and its thread's root. A root's
summary carries its mute, and is missing only while nobody has replied. -/
structure Agrees (db : Tables) (user : Nat) (c : Client) (e : MessageCreated) : Prop where
  me : c.userId = some user
  channel : ∀ space, e.spaceId = some space → (c.channels space).isSome = true ∧
    (c.heldChannel e.spaceId e.channelId).isSome = db.channelReaders e.channelId user ∧
      ∀ held, c.heldChannel e.spaceId e.channelId = some held → held.muted = db.channelMutes user e.channelId
  space : ∀ space, e.spaceId = some space → c.spaceMuted space = some (db.spaceMutes user space)
  blocked : c.fromBlocked e = db.userBlocks user e.authorId
  root : ∀ root, e.threadRootId = some root → ∃ thread, c.readRow e.channelId root = some thread ∧
    (thread = none → db.threads root = none) ∧ ∀ t, thread = some t → t.muted = db.threadMutes user root

/-- What the client goes by, of a message and of what it holds. -/
structure Noticed (db : Tables) (user : Nat) (c : Client) (e : MessageCreated) : Prop where
  reads : e.spaceId.isSome = true ∧ db.channelReaders e.channelId user = true
  others : e.authorId ≠ user
  unblocked : db.userBlocks user e.authorId = false
  channelUnmuted : db.channelMutes user e.channelId = false
  spaceUnmuted : ∀ space, e.spaceId = some space → db.spaceMutes user space = false
  addressed : user ∈ e.mentionUserIds ∨ e.mentionsEntireChannel = true ∨ e.mentionsHere = true ∨
    e.replyToAuthor = some user
  threadUnmuted : ∀ root, e.threadRootId = some root → ∀ t, c.readRow e.channelId root = some (some t) →
    t.muted = false

/-- The marker a message counts against. -/
def markerOf (db : Tables) (user : Nat) (e : MessageCreated) : Option Nat :=
  if e.inChannel then db.channelReads user e.channelId else e.threadRootId.bind (db.threadReads user)

/-- What the client leaves out of a message it notices: the channel is a voice channel; the words `@channel` or
`@here` alone address the reader, who was not among the people they told; the thread is muted, and its root has no
summary to say so; or the reader's marker is past the message. -/
def Drifts (db : Tables) (user : Nat) (c : Client) (e : MessageCreated) : Prop :=
  Noticed db user c e ∧
    ((∃ row, db.channels e.channelId = some row ∧ row.kind = .voice) ∨
      (user ∉ e.mentionUserIds ∧ e.replyToAuthor ≠ some user) ∨
      (∃ root, e.threadRootId = some root ∧ db.threadMutes user root = true) ∨
      past (markerOf db user e) e.id = false)

section

variable {db : Tables} {user : Nat} {c : Client} {e : MessageCreated}

theorem isMuted_eq (hagrees : Agrees db user c e) {space : Nat} (hspace : e.spaceId = some space)
    (hreader : db.channelReaders e.channelId user = true) :
    c.isMuted e.spaceId e.channelId =
      some (db.channelMutes user e.channelId || db.spaceMutes user space) := by
  obtain ⟨hlist, hheld, hmuted⟩ := hagrees.channel space hspace
  obtain ⟨held, hsome⟩ := Option.isSome_iff_exists.mp (hheld.trans hreader)
  have hchannel : c.channelMuted e.spaceId e.channelId = some (db.channelMutes user e.channelId) := by
    obtain ⟨list, hlist⟩ := Option.isSome_iff_exists.mp hlist
    rw [hspace] at hsome hmuted ⊢
    simp only [Client.channelMuted, hlist, hsome, Option.map_some, Option.any_some, hmuted held hsome]
  rw [hspace] at hchannel
  simp only [Client.isMuted, hchannel, hspace, hagrees.space space hspace]
  cases db.channelMutes user e.channelId <;> cases db.spaceMutes user space <;> rfl

theorem addressesMe_iff (hagrees : Agrees db user c e) :
    c.addressesMe e = true ↔ e.authorId ≠ user ∧ (user ∈ e.mentionUserIds ∨ e.mentionsEntireChannel = true ∨
      e.mentionsHere = true ∨ e.replyToAuthor = some user) := by
  simp [Client.addressesMe, hagrees.me, or_assoc]

/-- The thread of an agreeing client's message is one it shows as muted or not. -/
theorem thread_iff (hagrees : Agrees db user c e) :
    (e.threadRootId.all fun root =>
        (c.readRow e.channelId root).any fun thread => !thread.any ThreadSummary.muted) = true ↔
      ∀ root, e.threadRootId = some root → ∀ t, c.readRow e.channelId root = some (some t) → t.muted = false := by
  cases hroot : e.threadRootId with
  | none => simp
  | some root =>
    obtain ⟨thread, hrow, -⟩ := hagrees.root root hroot
    cases thread with
    | none => simp [hrow]
    | some t => simp [hrow]

theorem notes_iff (hagrees : Agrees db user c e) :
    c.notes e.spaceId e.channelId e.threadRootId = true ↔
      (e.spaceId.isSome = true ∧ db.channelReaders e.channelId user = true) ∧
        db.channelMutes user e.channelId = false ∧
        (∀ space, e.spaceId = some space → db.spaceMutes user space = false) ∧
        ∀ root, e.threadRootId = some root → ∀ t, c.readRow e.channelId root = some (some t) → t.muted =
          false := by
  rw [← thread_iff hagrees, Client.notes]
  cases hspace : e.spaceId with
  | none => simp
  | some space =>
    have hheld := (hagrees.channel space hspace).2.1
    rw [hspace] at hheld
    rw [hheld]
    cases hreader : db.channelReaders e.channelId user with
    | false => simp
    | true =>
      have hmuted := isMuted_eq hagrees hspace hreader
      rw [hspace] at hmuted
      rw [hmuted]
      simp [and_assoc]

theorem noticed_iff (hagrees : Agrees db user c e) :
    (c.addressesMe e && !c.fromBlocked e && c.notes e.spaceId e.channelId e.threadRootId) = true ↔
      Noticed db user c e := by
  rw [Bool.and_eq_true, Bool.and_eq_true, addressesMe_iff hagrees, notes_iff hagrees, hagrees.blocked,
    Bool.not_eq_true']
  constructor
  · rintro ⟨⟨⟨hothers, haddressed⟩, hblocked⟩, hreads, hchannel, hspace, hthread⟩
    exact ⟨hreads, hothers, hblocked, hchannel, hspace, haddressed, hthread⟩
  · rintro ⟨hreads, hothers, hblocked, hchannel, hspace, haddressed, hthread⟩
    exact ⟨⟨⟨hothers, haddressed⟩, hblocked⟩, hreads, hchannel, hspace, hthread⟩

theorem channel_of_commit {s : Sending} {id : Nat} {db' : Tables} (h : db.commit s id = some (db', e)) :
    ∃ channel, db.channels e.channelId = some channel ∧ e.spaceId = channel.spaceId := by
  obtain ⟨channel, mentions, -, -, hchannel, -, -, rfl⟩ := commit_cases h
  exact ⟨channel, hchannel, rfl⟩

/-- What the query asks of a message a send commits. -/
theorem counts_commit {s : Sending} {id : Nat} {db' : Tables} (h : db.commit s id = some (db', e)) :
    db.counts user none (s.row id) = true ↔
      ∃ space, e.spaceId = some space ∧ db.channels e.channelId = some ⟨some space, .text⟩ ∧
        db.channelReaders e.channelId user = true ∧ e.authorId ≠ user ∧ db.userBlocks user e.authorId = false ∧
        past (markerOf db user e) e.id = true ∧ db.channelMutes user e.channelId = false ∧
        db.spaceMutes user space = false ∧ ∀ root, e.threadRootId = some root → db.threadMutes user root =
          false := by
  obtain ⟨channel, mentions, hfresh, hreply, hchannel, -, -, rfl⟩ := commit_cases h
  have hrow : db.channels (s.row id).channelId = some channel := hchannel
  have hevent : db.channels (db.event (s.row id) channel.spaceId mentions).channelId = some channel := hchannel
  rw [Tables.counts, hrow, hevent]
  obtain ⟨spaceId, kind⟩ := channel
  cases spaceId with
  | none => simp [Tables.event]
  | some space =>
    cases kind with
    | voice => simp
    | text =>
      have hmarker : markerOf db user (db.event (s.row id) (some space) mentions) = db.marker user
        (s.row id) := rfl
      rw [hmarker]
      cases hroot : (s.row id).threadRootId with
      | none => simp [Tables.event, hroot, and_assoc]
      | some root => simp [Tables.event, hroot, and_assoc]

/-- A message the query counts, of those addressed to a reader, is one the client notices and does not drift on.
-/
theorem counts_iff {s : Sending} {id : Nat} {db' : Tables} (h : db.commit s id = some (db', e))
    (hagrees : Agrees db user c e) :
    (db.counts user none (s.row id) = true ∧ (user ∈ e.mentionUserIds ∨ e.replyToAuthor = some user)) ↔
      Noticed db user c e ∧ ¬Drifts db user c e := by
  rw [counts_commit h]
  constructor
  · rintro ⟨⟨space, hspace, hchannel, hreader, hothers, hblocked, hpast, hmute, hspaceMute, hthread⟩, hnamed⟩
    have hnoticed : Noticed db user c e := by
      refine ⟨⟨by rw [hspace]; rfl, hreader⟩, hothers, hblocked, hmute, fun other hother => ?_, ?_, ?_⟩
      · obtain rfl := Option.some.inj (hspace.symm.trans hother)
        exact hspaceMute
      · exact hnamed.imp_right fun hreply => .inr (.inr hreply)
      · intro root hroot t ht
        obtain ⟨thread, hrow, -, hmuted⟩ := hagrees.root root hroot
        rw [hmuted t (Option.some.inj (hrow.symm.trans ht))]
        exact hthread root hroot
    refine ⟨hnoticed, ?_⟩
    rintro ⟨-, ⟨row, hrow, hvoice⟩ | ⟨hunnamed, hunanswered⟩ | ⟨root, hroot, hmuted⟩ | hbehind⟩
    · rw [hchannel] at hrow
      obtain rfl := Option.some.inj hrow
      exact nomatch hvoice
    · exact hnamed.elim hunnamed hunanswered
    · exact Bool.false_ne_true ((hthread root hroot).symm.trans hmuted)
    · exact Bool.false_ne_true (hbehind.symm.trans hpast)
  · rintro ⟨hnoticed, hdrifts⟩
    have hgaps := fun hgap => hdrifts ⟨hnoticed, hgap⟩
    obtain ⟨hvoice, hgaps⟩ := not_or.mp hgaps
    obtain ⟨hwords, hgaps⟩ := not_or.mp hgaps
    obtain ⟨hmutes, hbehind⟩ := not_or.mp hgaps
    obtain ⟨space, hspace⟩ := Option.isSome_iff_exists.mp hnoticed.reads.1
    obtain ⟨channel, hchannel, hof⟩ := channel_of_commit h
    have htext : channel = ⟨some space, .text⟩ := by
      obtain ⟨spaceId, kind⟩ := channel
      obtain rfl : spaceId = some space := hof.symm.trans hspace
      cases kind with
      | text => rfl
      | voice => exact absurd ⟨_, hchannel, rfl⟩ hvoice
    refine ⟨⟨space, hspace, htext ▸ hchannel, hnoticed.reads.2, hnoticed.others, hnoticed.unblocked,
      (Bool.eq_false_or_eq_true _).resolve_right hbehind, hnoticed.channelUnmuted,
        hnoticed.spaceUnmuted space hspace, ?_⟩, ?_⟩
    · exact fun root hroot => Bool.eq_false_iff.mpr fun hmuted => hmutes ⟨root, hroot, hmuted⟩
    · by_contra hnone
      exact hwords (not_or.mp hnone)

end

/-- A client whose caches agree, and whose reader is not looking at where a message lands, adds one to the
channel's alerts exactly if the server's count grows by one, unless it drifts. -/
theorem alert_noted {db db' : Tables} {s : Sending} {id user : Nat} {e : MessageCreated} {c : Client}
    (h : db.commit s id = some (db', e)) (hagrees : Agrees db user c e) (haway : c.reading e = false) :
    ((c.messageCreated e).alertCount e.spaceId e.channelId = c.alertCount e.spaceId e.channelId + 1 ↔
        db'.alertCount user none e.channelId = db.alertCount user none e.channelId + 1) ↔
      ¬Drifts db user c e := by
  rw [alertCount_commit h user none, counts_iff h hagrees, Client.alertCount_messageCreated haway]
  have hclient : (c.alertCount e.spaceId e.channelId +
      if c.addressesMe e && !c.fromBlocked e && c.notes e.spaceId e.channelId e.threadRootId then 1 else 0) =
        c.alertCount e.spaceId e.channelId + 1 ↔ Noticed db user c e := by
    rw [← noticed_iff hagrees]
    split
    · next hyes => exact iff_of_true rfl hyes
    · next hno => exact iff_of_false (fun heq => absurd heq (by omega)) hno
  rw [hclient]
  constructor
  · intro hsame hdrifts
    exact (hsame.mp hdrifts.1).2 hdrifts
  · intro hdrifts
    exact ⟨fun hnoticed => ⟨hnoticed, hdrifts⟩, And.left⟩

/-! ## A voice channel -/

/-- A space's one channel, with nothing in it. -/
def oneChannel (kind : ChannelKind) : Tables where
  messages := []
  messageMentions _ _ := false
  channels id := if id = 10 then some ⟨some 5, kind⟩ else none
  channelReaders _ _ := true
  channelReads _ _ := none
  threadReads _ _ := none
  userBlocks _ _ := false
  channelMutes _ _ := false
  spaceMutes _ _ := false
  threadMutes _ _ := false
  threads _ := none
  distinct := List.nodup_nil
  mentioned _ _ h := nomatch h
  answered _ h := nomatch h

/-- A message that names the first person, from the second. -/
def greeting : Sending := ⟨2, 10, none, false, none, ⟨[1], [], [1, 2], [1, 2], false, false⟩, true⟩

def greeted : MessageCreated := ⟨1, 10, some 5, 2, [1], false, false, none, none, true⟩

/-- The first person's client, looking elsewhere. -/
def elsewhere : Client where
  userId := some 1
  activeChannelId := none
  openThreadRootId := none
  hasAttention := true
  channels _ := some [⟨10, none, none, 0, 0, false⟩]
  spaces := some [⟨5, false, 0, false⟩]
  dms := some []
  blocked := some []
  readRow _ _ := none
  inFlight _ := false
  readOnArrival _ := none
  stale := []

theorem elsewhere_agrees (kind : ChannelKind) : Agrees (oneChannel kind) 1 elsewhere greeted where
  me := rfl
  channel space hspace := by
    obtain rfl := Option.some.inj hspace
    refine ⟨rfl, rfl, fun held hheld => ?_⟩
    obtain rfl : (⟨10, none, none, 0, 0, false⟩ : Channel) = held := Option.some.inj hheld
    rfl
  space space hspace := by
    obtain rfl := Option.some.inj hspace
    rfl
  blocked := rfl
  root _ h := nomatch h

theorem greeting_commits (kind : ChannelKind) : ∃ db', (oneChannel kind).commit greeting 1 = some (db',
    greeted) := by
  cases kind
  · exact ⟨_, rfl⟩
  · exact ⟨_, rfl⟩

/-- A message to a voice channel, of which the query counts none, adds one to the client's count. -/
theorem voice_channel_drifts : ∃ db', (oneChannel .voice).commit greeting 1 = some (db', greeted) ∧
    Agrees (oneChannel .voice) 1 elsewhere greeted ∧ elsewhere.reading greeted = false ∧
    (elsewhere.messageCreated greeted).alertCount (some 5) 10 = elsewhere.alertCount (some 5) 10 + 1 ∧
      ¬db'.alertCount 1 none 10 = (oneChannel .voice).alertCount 1 none 10 + 1 := by
  obtain ⟨db', hcommit⟩ := greeting_commits .voice
  refine ⟨db', hcommit, elsewhere_agrees .voice, rfl, by decide, fun hgrows => ?_⟩
  have hcounted := ((alertCount_commit hcommit 1 none).mp hgrows).1
  exact absurd hcounted (by decide)

/-- The same to a text channel is counted by both. -/
theorem text_channel_noted : ∃ db', (oneChannel .text).commit greeting 1 = some (db', greeted) ∧
    (((elsewhere.messageCreated greeted).alertCount (some 5) 10 = elsewhere.alertCount (some 5) 10 + 1 ↔
        db'.alertCount 1 none 10 = (oneChannel .text).alertCount 1 none 10 + 1) ↔
      ¬Drifts (oneChannel .text) 1 elsewhere greeted) := by
  obtain ⟨db', hcommit⟩ := greeting_commits .text
  exact ⟨db', hcommit, alert_noted hcommit (elsewhere_agrees .text) rfl⟩

end Stoop.Alerts.Noted
