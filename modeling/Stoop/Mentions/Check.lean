import Mathlib
import Stoop.Lib.Keyed
import Stoop.Lib.Settle
import Stoop.Markdown.Server

/-!
# Whom a message may name

Before a message is stored its tokens are checked. One that the parse shows as a mention, and that names
a reader of the channel (or, in a public channel, a group or a public text channel of its space), is
kept, with the name they have now; any other is written as text. A token written as text can join what
is around it into a new one, so the content is written again until it settles.

## What a message shows

`walkInline`, `readMentions`, `mayNameEveryone`

## The check

`storedForm`, `checkMentions`

## Whom it may name

`Directory.live`
-/

set_option autoImplicit false

namespace Stoop.Mentions

open Stoop.Lib Stoop.Markdown Stoop.Markdown.Server

attribute [local instance] lawfulText

/-! ## What a message shows -/

mutual

/-- A node, and then its children. -/
def walkNode : InlineNode → List InlineNode
  | .styled children => .styled children :: walk children
  | .link href children => .link href children :: walk children
  | .text text => [.text text]
  | .code text => [.code text]
  | .mention token offset own => [.mention token offset own]

def walk : List InlineNode → List InlineNode
  | [] => []
  | node :: nodes => walkNode node ++ walk nodes

end

/-- Each inline node of the parse, a node before its children. Code blocks have none. -/
def walkInline (blocks : List Block) : List InlineNode :=
  blocks.flatMap fun block => (block.lines ++ block.items).flatMap walk

/-- Whether text starts with a word in either case. -/
def startsWord : (word : Text) → Text → Bool
  | [], _ => true
  | letter :: word, c :: text => foldEq letter c && startsWord word text
  | _ :: _, [] => false

/-- `\w` in a Go regular expression. -/
def isWordChar (c : Char) : Bool :=
  decide ('a' ≤ c) && decide (c ≤ 'z') || decide ('A' ≤ c) && decide (c ≤ 'Z') || isDigit c || c == '_'

/-- What `(?i)[a-z0-9_@]` matches: a letter of either case and what folds to one. -/
def refusesBefore (c : Char) : Bool := isWordChar c || c == 'ſ' || c == '\u212a' || c == '@'

/-- Whether "@" and the word stand somewhere in the text, the word whole and nothing a name or an address
has before the "@"; `prev` is what stands before the text. -/
def everyoneFrom (word : Text) : (prev : Option Char) → Text → Bool
  | _, [] => false
  | prev, c :: rest =>
    c == '@' && !prev.any refusesBefore && startsWord word rest &&
      !((rest.drop word.length).head?.any isWordChar) || everyoneFrom word (some c) rest

/-- `everyoneRE`, for one of its two words. -/
def everyoneRE (word text : Text) : Bool := everyoneFrom word none text

def entireChannelHandle : Text := "channel".toList
def hereHandle : Text := "here".toList

/-- Whether content may use @channel or @here; `readMentions` says whether it does. -/
def mayNameEveryone : Text → Bool
  | [] => false
  | c :: rest =>
    c == '@' && (startsWord entireChannelHandle rest || startsWord hereHandle rest) ||
      mayNameEveryone rest

/-- A token a message shows: as it is written, and where. -/
structure ShownToken where
  text : Text
  offset : Nat
  deriving DecidableEq, Repr

/-- What a message shows as mentions: its tokens, in order, and whether @channel or @here is a word of
its text. -/
structure ShownMentions where
  tokens : List ShownToken
  entireChannel : Bool
  here : Bool
  deriving DecidableEq, Repr

/-- The token a node is. -/
def shownToken : InlineNode → Option ShownToken
  | .mention text offset _ => some ⟨text, offset⟩
  | .text _ | .code _ | .link _ _ | .styled _ => none

/-- Whether a node is text that uses one of the two words. -/
def usesWord (word : Text) : InlineNode → Bool
  | .text text => everyoneRE word text
  | .code _ | .link _ _ | .styled _ | .mention _ _ _ => false

/-- The mentions are read off the parse, as the client draws them. -/
def readMentions (content : Text) : ShownMentions :=
  let nodes := walkInline (parseMarkdown content)
  { tokens := nodes.filterMap shownToken
    entireChannel := nodes.any (usesWord entireChannelHandle)
    here := nodes.any (usesWord hereHandle) }

/-! ## The directory -/

/-- A person's account. A username is checked wherever one is set. -/
structure UserRecord where
  id : Text
  username : Text
  username_ok : TokenKind.person.Names (username.map Char.toLower)
  deriving DecidableEq

/-- A group of a space's people. Its handle is checked wherever one is set. -/
structure GroupRow where
  id : Text
  spaceId : Text
  handle : Text
  handle_ok : TokenKind.group.Names handle
  deriving DecidableEq

/-- A channel; a direct message has no space. `textual` is whether it is a text channel. -/
structure ChannelRow where
  id : Text
  spaceId : Option Text
  isPrivate : Bool
  textual : Bool
  name : Text
  deriving DecidableEq

/-- A lookup a check makes. -/
inductive Lookup
  | members
  | people
  | groups
  | channels
  deriving DecidableEq, Repr

/-- What the check looks up, and which lookups fail. -/
structure Directory where
  users : Keyed UserRecord.id
  groups : Keyed GroupRow.id
  channels : Keyed ChannelRow.id
  /-- The members of each space, as (space, person). -/
  members : List (Text × Text)
  fails : Lookup → Bool

def isDM (channel : ChannelRow) : Bool := channel.spaceId.isNone

/-- The rule for a channel's name. -/
def validChannelName (name : Text) : Bool :=
  match name with
  | [] => false
  | first :: rest =>
    decide (byteLength name ≤ 32) && (isHandleChar first && first != '_') && rest.all isChannelNameChar

/-- What a failed lookup is reported as. -/
def Lookup.error : Lookup → String
  | .members => "list members"
  | .people => "read mentioned people"
  | .groups => "read mentioned groups"
  | .channels => "read linked channels"

/-- The rows of a lookup. -/
def Directory.read {α : Type} (d : Directory) (lookup : Lookup) (rows : List α) :
    Except String (List α) :=
  if d.fails lookup then .error lookup.error else .ok rows

def Directory.getUsers (d : Directory) (ids : List Text) : Except String (List UserRecord) :=
  d.read .people (d.users.values.filter fun user => ids.contains user.id)

def Directory.listSpaceGroupsByIDs (d : Directory) (spaceId : Option Text) (ids : List Text) :
    Except String (List GroupRow) :=
  d.read .groups
    (d.groups.values.filter fun group => some group.spaceId == spaceId && ids.contains group.id)

def Directory.listLinkableChannelsByIDs (d : Directory) (spaceId : Option Text) (ids : List Text) :
    Except String (List ChannelRow) :=
  d.read .channels (d.channels.values.filter fun channel =>
    channel.spaceId == spaceId && ids.contains channel.id && !channel.isPrivate && channel.textual)

/-- Who can read the channel: the space's members, or the people of a private channel or a direct message
(passed in). -/
def Directory.channelReaders (d : Directory) (channel : ChannelRow) (participants : List Text) :
    Except String (List Text) :=
  if isDM channel || channel.isPrivate then .ok participants
  else d.read .members ((d.members.filter fun row => some row.1 == channel.spaceId).map (·.2))

/-! ## The check -/

/-- Whether a token stands somewhere in the content. -/
def hasTokens : Text → Bool
  | [] => false
  | c :: rest => tokenLength (c :: rest) != 0 || hasTokens rest

/-- The name each token's ID has now, by the token's kind. -/
abbrev Current := TokenKind → Text → Option Text

/-- The names with one more. -/
def Current.set (current : Current) (kind : TokenKind) (id name : Text) : Current :=
  fun kind' id' => if kind' = kind ∧ id' = id then some name else current kind' id'

/-- A token as it is saved: with its current name where it is shown and has one, and otherwise as its
handle or name, as text. -/
def storedToken (live : List ShownToken) (current : Current) (start : Nat) (token : Text) : Text :=
  let (kind, id, handle) := tokenParts token
  match current kind id with
  | some name =>
    if live.any (·.offset == start) then tokenText kind id name else tokenAsText kind handle
  | none => tokenAsText kind handle

/-- Content as saved. -/
def storedForm (content : Text) (live : List ShownToken) (current : Current) : Text :=
  eachToken (storedToken live current) content

/-- Who a message's kept tokens name, in the order they appear, whether it uses @channel and @here as
words, and the channel's readers for those. -/
structure MentionTargets where
  people : List Text := []
  groups : List Text := []
  readers : List Text := []
  entireChannel : Bool := false
  here : Bool := false
  deriving DecidableEq, Repr

/-- A list with one more, if it is not there. -/
def withID (ids : List Text) (id : Text) : List Text := if id ∈ ids then ids else ids ++ [id]

/-- The IDs the tokens of a kind name, each once. -/
def idsOf (kind : TokenKind) (keeps : Text → Bool) (tokens : List ShownToken) : List Text :=
  tokens.foldl (fun ids token =>
    let (kind', id, _) := tokenParts token.text
    if kind' = kind && keeps id then withID ids id else ids) []

/-- A lookup that is made only where something asks for it. -/
def lookUpIf {α : Type} (asks : Bool) (rows : Except String (List α)) : Except String (List α) :=
  if asks then rows else .ok []

/-- The current name behind each token that names someone it may. -/
def Directory.current (d : Directory) (channel : ChannelRow) (readers : List Text)
    (tokens : List ShownToken) : Except String Current := do
  let personIDs := idsOf .person readers.contains tokens
  let groupIDs := idsOf .group (fun _ => true) tokens
  let channelIDs := idsOf .channel (fun _ => true) tokens
  let isPublic := !isDM channel && !channel.isPrivate
  let users ← lookUpIf (personIDs != []) (d.getUsers personIDs)
  let groups ← lookUpIf (groupIDs != [] && isPublic) (d.listSpaceGroupsByIDs channel.spaceId groupIDs)
  -- a channel link can be followed by anyone who reads the message
  let channels ← lookUpIf (channelIDs != [] && isPublic) (d.listLinkableChannelsByIDs channel.spaceId channelIDs)
  let current : Current := users.foldl
    (fun current user => current.set .person user.id (user.username.map Char.toLower)) fun _ _ => none
  let current := groups.foldl (fun current group => current.set .group group.id group.handle) current
  return channels.foldl (fun current row =>
    if validChannelName row.name then current.set .channel row.id row.name else current) current

/-- One pass over content: the tokens its own parse shows are kept, and the others written as text. -/
def pass (current : Current) (content : Text) : Text :=
  storedForm content (readMentions content).tokens current

/-- Who is told, read from what is stored. -/
def targetsOf (readers : List Text) (stored : Text) : MentionTargets :=
  let shown := readMentions stored
  { people := idsOf .person (fun _ => true) shown.tokens
    groups := idsOf .group (fun _ => true) shown.tokens
    readers := readers, entireChannel := shown.entireChannel, here := shown.here }

/-- Content checked: what is stored, and who its kept tokens name. `fuel` bounds the passes; `none` is
that they were not enough. -/
def checkMentions (d : Directory) (channel : ChannelRow) (participants : List Text) (fuel : Nat)
    (content : Text) : Except String (Option (Text × MentionTargets)) := do
  if !hasTokens content && !mayNameEveryone content then return some (content, {})
  let shown := readMentions content
  if !hasTokens content && !shown.entireChannel && !shown.here then return some (content, {})
  let readers ← d.channelReaders channel participants
  if !hasTokens content then
    return some (content,
      { readers := readers, entireChannel := shown.entireChannel, here := shown.here })
  let current ← d.current channel readers shown.tokens
  -- a token written as text can join what is around it into a new one that nothing checked
  return (settle (pass current) fuel content).map fun stored => (stored, targetsOf readers stored)

/-! ## Whom it may name -/

/-- The live people, groups and channels that a message in a channel may name, and their names now. -/
def Directory.live (d : Directory) (channel : ChannelRow) (readers : List Text) : Current
  | .person, id =>
    if id ∈ readers then (d.users.get? id).map fun user => user.username.map Char.toLower else none
  | .group, id =>
    if isDM channel || channel.isPrivate then none
    else ((d.groups.get? id).filter fun group => some group.spaceId == channel.spaceId).map (·.handle)
  | .channel, id =>
    if isDM channel || channel.isPrivate then none
    else ((d.channels.get? id).filter fun row => row.spaceId == channel.spaceId && !row.isPrivate &&
      row.textual && validChannelName row.name).map (·.name)

end Stoop.Mentions
