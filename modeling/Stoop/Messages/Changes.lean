import Stoop.Channel.Answers
import Stoop.Messages.World

/-!
# Paging through a channel's changes

`ListChanges`, asked for page after page from a position while transactions commit and roll back. A
page's rows are listed in one statement, with their threads' summaries; what hangs off them
(`hydrateMessages`) is read in statements of its own before the page is answered. The client asks on
from the last row's seq (`nextSince`) until a page is not full.

`listChanges_complete` has two halves. A commit stamps what it changed above everything committed
before it, and a rollback leaves no trace. And when the last page is in, every row changed since the
channel stood at the position asked from was brought as the last list found it.
-/

set_option autoImplicit false

namespace Stoop.Messages

open Stoop.Lib
open Stoop.Channel (clampPageSize defaultChangesPageSize maxChangesPageSize clampPageSize_pos)

/-! ## Channels through time -/

/-- A channel as later transactions leave it: each message as it was, or stamped since. -/
structure Grows (c c' : Channel) : Prop where
  seq_le : c.seq ≤ c'.seq
  rows : ∀ id, Same c c' id ∨ ∃ row, c'.messages.get? id = some row ∧ c.seq < row.seq

section
variable {c c' c'' : Channel} {id : Nat}

theorem Grows.refl (c : Channel) : Grows c c := ⟨Nat.le_refl _, fun _ => .inl ⟨rfl, rfl⟩⟩

theorem Grows.trans (h : Grows c c') (h' : Grows c' c'') : Grows c c'' := by
  refine ⟨h.seq_le.trans h'.seq_le, fun id => ?_⟩
  rcases h'.rows id with ⟨hrow, hthread⟩ | ⟨row, hrow, habove⟩
  · rcases h.rows id with ⟨hrow', hthread'⟩ | ⟨row, hrow', habove⟩
    · exact .inl ⟨hrow.trans hrow', hthread.trans hthread'⟩
    · exact .inr ⟨row, hrow.trans hrow', habove⟩
  · exact .inr ⟨row, hrow, h.seq_le.trans_lt habove⟩

theorem Wrote.grows {write : Write} (h : Wrote write c c') : Grows c c' := by
  refine ⟨h.seq_le, fun id => ?_⟩
  rcases h.rows id with hsame | ⟨row, hrow, hfollows⟩
  · exact .inl hsame
  · exact .inr ⟨row, hrow, hfollows.above⟩

/-- **A row that is as it was has not changed meanwhile**: a stamp is not taken back. -/
theorem Same.between (hs : WellStamped c) (h : Grows c c') (h' : Grows c' c'') {row : MessageRow}
    (hrow : c.messages.get? id = some row) (hsame : Same c c'' id) : Same c c' id := by
  rcases h.rows id with hearly | ⟨found, hfound, habove⟩
  · exact hearly
  · -- stamped between, it would be stamped above the channel it came from
    have hlow := hs.low hrow
    have hnow : c''.messages.get? id = some row := hsame.1.trans hrow
    rcases h'.rows id with ⟨hlate, -⟩ | ⟨found', hfound', habove'⟩
    · obtain rfl : row = found := Option.some.inj (hnow.symm.trans (hlate.trans hfound))
      exact absurd hlow (Nat.not_le.mpr habove)
    · obtain rfl : row = found' := Option.some.inj (hnow.symm.trans hfound')
      exact absurd hlow (Nat.not_le.mpr (h.seq_le.trans_lt habove'))

/-- A row stamped no higher than the channel stood has been there since. -/
theorem Grows.unchanged (h : Grows c c') {row : MessageRow} (hrow : c'.messages.get? id = some row)
    (hlow : row.seq ≤ c.seq) : Same c c' id := by
  rcases h.rows id with hsame | ⟨found, hfound, habove⟩
  · exact hsame
  · obtain rfl : row = found := Option.some.inj (hrow.symm.trans hfound)
    exact absurd hlow (Nat.not_le.mpr habove)

end

/-! ## Pages -/

/-- A message as a page carries it. -/
structure Copy where
  row : MessageRow
  thread : Option Thread
  deriving DecidableEq, Repr

/-- What hangs off a page's messages, each read in a query of its own. -/
inductive Part
  | attachments
  | links
  | reactions
  | mentions
  | pin
  deriving DecidableEq, Repr

/-- A copy with one part as a row has it; a row that is gone has nothing. -/
def Part.fill (part : Part) (copy : MessageRow) (row : Option MessageRow) : MessageRow :=
  match part with
  | .attachments => { copy with attachments := (row.map (·.attachments)).getD [] }
  | .links => { copy with links := (row.map (·.links)).getD [] }
  | .reactions => { copy with reactions := (row.map (·.reactions)).getD [] }
  | .mentions => { copy with mentions := (row.map (·.mentions)).getD [] }
  | .pin => { copy with pinnedBy := row.bind (·.pinnedBy) }

/-- A row less what hangs off it: what the list statement itself reads. -/
def MessageRow.columns (row : MessageRow) : MessageRow :=
  { row with attachments := [], links := [], reactions := [], mentions := [], pinnedBy := none }

/-- A message as it stands, with its thread's summary. -/
def Channel.copyOf (c : Channel) (row : MessageRow) : Copy := ⟨row, c.threads.get? row.id⟩

/-- The rows stamped above a position, in seq order. -/
def Channel.changesAbove (c : Channel) (since : Nat) : List MessageRow :=
  (c.messages.values.filter fun row => decide (since < row.seq)).insertionSort fun x y => x.seq ≤ y.seq

/-- `ListMessageChanges`. -/
def Channel.listMessageChanges (c : Channel) (since limit : Nat) : List Copy :=
  ((c.changesAbove since).take limit).map c.copyOf

/-- The seq the next page is asked from. -/
def nextSince (since : Nat) (copies : List Copy) : Nat :=
  match copies.getLast? with
  | some last => max since last.row.seq
  | none => since

/-- A page being read: its size, the channel as the list statement found it, and its messages. -/
structure Page where
  limit : Nat
  listed : Channel
  copies : List Copy

/-- A catch-up: the position it began from and the one it has come to, the page being read, what has
come, and, once the last page is in, the channel as that page's list found it. -/
structure Pager where
  start : Nat
  since : Nat
  page : Option Page
  got : List Copy
  done : Option Channel

/-- A channel's calls, and a client that catches up beside them. -/
structure Reader where
  world : World
  pager : Option Pager

inductive ReaderStep
  | step (a : Step)
  | start (since : Nat)
  | list (requested : Nat)
  | hydrate (part : Part)
  | answer
  deriving DecidableEq, Repr

/-- A page listed; its size is the one asked for, within bounds. -/
def Pager.list (p : Pager) (c : Channel) (requested : Nat) : Option Pager :=
  if p.page.isNone && p.done.isNone then
    let limit := clampPageSize requested defaultChangesPageSize maxChangesPageSize
    some { p with page := some ⟨limit, c, c.listMessageChanges p.since limit⟩ }
  else none

/-- One of a page's queries. -/
def Page.hydrate (page : Page) (c : Channel) (part : Part) : Page :=
  { page with copies := page.copies.map fun copy =>
      { copy with row := part.fill copy.row (c.messages.get? copy.row.id) } }

/-- A page answered: the client asks on while pages are full. -/
def Pager.answer (p : Pager) (page : Page) : Pager :=
  if page.copies.length == page.limit then
    { p with since := nextSince p.since page.copies, page := none, got := p.got ++ page.copies }
  else { p with page := none, got := p.got ++ page.copies, done := some page.listed }

def Reader.step (r : Reader) : ReaderStep → Option Reader
  | .step a => (r.world.step a).map fun w => { r with world := w }
  | .start since => some { r with pager := some ⟨since, since, none, [], none⟩ }
  | .list requested => do
    let p ← r.pager
    let p ← p.list r.world.channel requested
    return { r with pager := some p }
  | .hydrate part => do
    let p ← r.pager
    let page ← p.page
    return { r with pager := some { p with page := some (page.hydrate r.world.channel part) } }
  | .answer => do
    let p ← r.pager
    let page ← p.page
    return { r with pager := some (p.answer page) }

/-! ## What a page carries -/

/-- A copy of a row as a list found it: its columns and its thread's, and the whole of it where the
message has not changed since. -/
structure Carries (listed c : Channel) (row : MessageRow) (copy : Copy) : Prop where
  columns : copy.row.columns = row.columns
  thread : copy.thread = listed.threads.get? row.id
  whole : Same listed c row.id → copy = listed.copyOf row

/-- A page is of the first rows above where it was asked from, as its list found them. -/
structure Page.Sound (since : Nat) (c : Channel) (page : Page) : Prop where
  stamped : WellStamped page.listed
  grows : Grows page.listed c
  limit_pos : 0 < page.limit
  ids : page.copies.map (·.row.id) = ((page.listed.changesAbove since).take page.limit).map (·.id)
  copies : ∀ copy ∈ page.copies, ∀ row, page.listed.messages.get? copy.row.id = some row →
    Carries page.listed c row copy

/-- A catch-up has brought all that is stamped from where it began to where it has come. -/
def Pager.Brought (p : Pager) (c : Channel) : Prop :=
  ∀ {id row}, c.messages.get? id = some row → p.start < row.seq → row.seq ≤ p.since → c.copyOf row ∈ p.got

/-- What a catch-up has brought: everything up to where it has come, as it stands, and as the page
being read found it; and when it is done, everything its last list found. -/
structure Pager.Sound (c : Channel) (p : Pager) : Prop where
  started : p.start ≤ p.since
  reached : p.since = p.start ∨ p.since ≤ c.seq
  brought : p.Brought c
  page : ∀ page ∈ p.page, page.Sound p.since c ∧ p.Brought page.listed
  done : ∀ listed ∈ p.done, WellStamped listed ∧ Grows listed c ∧
    ∀ {id row}, listed.messages.get? id = some row → p.start < row.seq →
      ∃ copy ∈ p.got, Carries listed c row copy

section
variable {c c' listed : Channel} {row : MessageRow} {copy : Copy} {since : Nat}

theorem mem_changesAbove : row ∈ c.changesAbove since ↔ c.messages.get? row.id = some row ∧ since < row.seq := by
  rw [Channel.changesAbove, List.mem_insertionSort, List.mem_filter, Keyed.mem_values, decide_eq_true_eq]

/-- What is carried stays carried as the channel grows. -/
theorem Carries.grows (hs : WellStamped listed) (hl : Grows listed c) (hg : Grows c c')
    (hrow : listed.messages.get? row.id = some row) (h : Carries listed c row copy) :
    Carries listed c' row copy :=
  ⟨h.columns, h.thread, fun hsame => h.whole (hsame.between hs hl hg hrow)⟩

/-- A query of a page that reads the channel as it stands keeps what is carried. -/
theorem Carries.fill (part : Part) (hrow : listed.messages.get? row.id = some row)
    (h : Carries listed c row copy) :
    Carries listed c row { copy with row := part.fill copy.row (c.messages.get? copy.row.id) } := by
  have hcolumns : ∀ found, (part.fill copy.row found).columns = copy.row.columns := fun found => by
    cases part <;> rfl
  refine ⟨(hcolumns _).trans h.columns, h.thread, fun hsame => ?_⟩
  obtain rfl := h.whole hsame
  have hnow : c.messages.get? row.id = some row := hsame.1.trans hrow
  have hfilled : part.fill row (some row) = row := by
    cases part <;> rfl
  simp only [Channel.copyOf, hnow, hfilled]

/-- A copy and the row it is of have one id. -/
theorem Carries.id_eq (h : Carries listed c row copy) : copy.row.id = row.id :=
  (congrArg MessageRow.id h.columns :)

theorem Carries.seq_eq (h : Carries listed c row copy) : copy.row.seq = row.seq :=
  (congrArg MessageRow.seq h.columns :)

/-- A page's rows: each has its copy on the page. -/
theorem Page.Sound.brings {page : Page} (h : page.Sound since c)
    (hrow : row ∈ (page.listed.changesAbove since).take page.limit) :
    ∃ copy ∈ page.copies, Carries page.listed c row copy := by
  have hid : row.id ∈ page.copies.map (·.row.id) := by
    rw [h.ids]
    exact List.mem_map.mpr ⟨row, hrow, rfl⟩
  obtain ⟨copy, hcopy, hcopyid⟩ := List.mem_map.mp hid
  have hget := (mem_changesAbove.mp (List.mem_of_mem_take hrow)).1
  exact ⟨copy, hcopy, h.copies copy hcopy row (hcopyid ▸ hget)⟩

/-- A page's copies are of its rows. -/
theorem Page.Sound.of_copy {page : Page} (h : page.Sound since c) (hcopy : copy ∈ page.copies) :
    ∃ row ∈ (page.listed.changesAbove since).take page.limit, Carries page.listed c row copy := by
  have hid : copy.row.id ∈ ((page.listed.changesAbove since).take page.limit).map (·.id) := by
    rw [← h.ids]
    exact List.mem_map.mpr ⟨copy, hcopy, rfl⟩
  obtain ⟨row, hrow, hrowid⟩ := List.mem_map.mp hid
  have hget := (mem_changesAbove.mp (List.mem_of_mem_take hrow)).1
  exact ⟨row, hrow, h.copies copy hcopy row (hrowid ▸ hget)⟩

/-- **What a full page reaches to**: its last row; all its list found up to there is on it. -/
theorem Page.Sound.full {page : Page} (h : page.Sound since c) (hfull : page.copies.length = page.limit) :
    since ≤ nextSince since page.copies ∧ nextSince since page.copies ≤ page.listed.seq ∧
      ∀ {id row}, page.listed.messages.get? id = some row → since < row.seq →
        row.seq ≤ nextSince since page.copies → row ∈ (page.listed.changesAbove since).take page.limit := by
  have hne : page.copies ≠ [] := by
    rintro hnil
    have hpos := h.limit_pos
    rw [← hfull, hnil] at hpos
    exact Nat.lt_irrefl 0 hpos
  have hlast : page.copies.getLast? = some (page.copies.getLast hne) := List.getLast?_eq_some_getLast hne
  obtain ⟨last, hlastrow, hcarries⟩ := h.of_copy (List.getLast_mem hne)
  obtain ⟨hlastget, hlastsince⟩ := mem_changesAbove.mp (List.mem_of_mem_take hlastrow)
  have hnext : nextSince since page.copies = last.seq := by
    simp only [nextSince, hlast, hcarries.seq_eq]
    omega
  rw [hnext]
  refine ⟨hlastsince.le, h.stamped.low hlastget, fun {id row} hget hsince hle => ?_⟩
  obtain rfl : row.id = id := Keyed.key_of_get? hget
  have hmem : row ∈ page.listed.changesAbove since := mem_changesAbove.mpr ⟨hget, hsince⟩
  rcases (List.mem_append.mp (by rwa [List.take_append_drop page.limit]) :
    row ∈ (page.listed.changesAbove since).take page.limit ∨
      row ∈ (page.listed.changesAbove since).drop page.limit) with htake | hdrop
  · exact htake
  · -- a row left behind is no lower than the last one taken, and no two rows have one stamp
    have hsorted := pairwise_sorted MessageRow.seq
      (page.listed.messages.values.filter fun row => decide (since < row.seq))
    have hge := le_of_mem_drop hsorted hlastrow hdrop
    have hid : row.id = last.id := h.stamped.apart hget hlastget (Nat.le_antisymm hle hge)
    rw [hid, hlastget, Option.some.injEq] at hget
    exact hget ▸ hlastrow

/-- **What a page that is not full leaves behind**: nothing. -/
theorem Page.Sound.short {page : Page} (h : page.Sound since c) (hshort : page.copies.length ≠ page.limit)
    {id : Nat} (hget : page.listed.messages.get? id = some row) (hsince : since < row.seq) :
    row ∈ (page.listed.changesAbove since).take page.limit := by
  obtain rfl : row.id = id := Keyed.key_of_get? hget
  have hlength := congrArg List.length h.ids
  rw [List.length_map, List.length_map, List.length_take] at hlength
  rw [List.take_of_length_le (by omega)]
  exact mem_changesAbove.mpr ⟨hget, hsince⟩

/-! ## What a catch-up has brought -/

theorem Page.Sound.grows_to {page : Page} (hg : Grows c c') (h : page.Sound since c) :
    page.Sound since c' :=
  ⟨h.stamped, h.grows.trans hg, h.limit_pos, h.ids, fun copy hcopy row hrow =>
    (h.copies copy hcopy row hrow).grows h.stamped h.grows hg (Keyed.key_of_get? hrow ▸ hrow)⟩

/-- A catch-up stays sound while transactions commit. -/
theorem Pager.Sound.grows {p : Pager} (hg : Grows c c') (h : p.Sound c) : p.Sound c' where
  started := h.started
  reached := h.reached.imp_right fun hle => hle.trans hg.seq_le
  brought {id row} hrow hstart hsince := by
    -- a row no higher than the catch-up has come was not stamped just now
    rcases h.reached with heq | hle
    · exact absurd hstart (Nat.not_lt.mpr (heq ▸ hsince))
    · obtain ⟨hsame, hthread⟩ := hg.unchanged hrow (hsince.trans hle)
      have hbrought := h.brought (hsame.symm.trans hrow) hstart hsince
      rwa [Channel.copyOf, Keyed.key_of_get? hrow, hthread, ← Keyed.key_of_get? hrow]
  page page hpage := (h.page page hpage).imp_left (·.grows_to hg)
  done listed hlisted := by
    obtain ⟨hstamped, hgrows, hall⟩ := h.done listed hlisted
    refine ⟨hstamped, hgrows.trans hg, fun hrow hstart => ?_⟩
    obtain ⟨copy, hcopy, hcarries⟩ := hall hrow hstart
    exact ⟨copy, hcopy, hcarries.grows hstamped hgrows hg (Keyed.key_of_get? hrow ▸ hrow)⟩

theorem sound_start (c : Channel) (since : Nat) : Pager.Sound c ⟨since, since, none, [], none⟩ :=
  ⟨Nat.le_refl _, .inl rfl, fun _ hstart hsince => absurd hstart (Nat.not_lt.mpr hsince), nofun, nofun⟩

theorem Pager.Sound.list {p p' : Pager} {requested : Nat} (hs : WellStamped c) (h : p.Sound c)
    (hlist : p.list c requested = some p') : p'.Sound c := by
  unfold Pager.list at hlist
  split at hlist
  next hidle =>
    obtain rfl := Option.some.inj hlist
    refine ⟨h.started, h.reached, h.brought, fun page hpage => ?_, h.done⟩
    obtain rfl := Option.some.inj hpage
    refine ⟨⟨hs, Grows.refl c, clampPageSize_pos _ (by decide) (by decide), ?_,
      fun copy hcopy row hrow => ?_⟩, h.brought⟩
    · rw [Channel.listMessageChanges, List.map_map]
      rfl
    · obtain ⟨found, hfound, rfl⟩ := List.mem_map.mp hcopy
      have hget := (mem_changesAbove.mp (List.mem_of_mem_take hfound)).1
      obtain rfl : row = found := Option.some.inj (hrow.symm.trans hget)
      exact ⟨rfl, rfl, fun _ => rfl⟩
  next => cases hlist

theorem Pager.Sound.hydrate {p : Pager} {page : Page} (part : Part) (h : p.Sound c)
    (hpage : p.page = some page) : Pager.Sound c { p with page := some (page.hydrate c part) } := by
  obtain ⟨hp, hbrought⟩ := h.page page hpage
  have hid : ∀ copy : Copy, (part.fill copy.row (c.messages.get? copy.row.id)).id = copy.row.id := by
    intro copy
    cases part <;> rfl
  refine ⟨h.started, h.reached, h.brought, fun page' hpage' => ?_, h.done⟩
  obtain rfl := Option.some.inj hpage'
  refine ⟨⟨hp.stamped, hp.grows, hp.limit_pos, ?_, fun copy' hcopy' row hrow => ?_⟩, hbrought⟩
  · have hids : (page.hydrate c part).copies.map (·.row.id) = page.copies.map (·.row.id) := by
      rw [Page.hydrate, List.map_map]
      exact List.map_congr_left fun copy _ => hid copy
    exact hids.trans hp.ids
  · obtain ⟨copy, hcopy, rfl⟩ := List.mem_map.mp hcopy'
    rw [hid copy] at hrow
    exact (hp.copies copy hcopy row hrow).fill part (Keyed.key_of_get? hrow ▸ hrow)

theorem Pager.Sound.answer {p : Pager} {page : Page} (h : p.Sound c) (hpage : p.page = some page)
    (hdone : p.done = none) : (p.answer page).Sound c := by
  obtain ⟨hp, hbrought⟩ := h.page page hpage
  unfold Pager.answer
  split
  next hfull =>
    obtain ⟨hle, hlisted, hall⟩ := hp.full (beq_iff_eq.mp hfull)
    refine ⟨h.started.trans hle, .inr (hlisted.trans hp.grows.seq_le),
      fun {id row} hrow hstart hsince => ?_, nofun, fun listed hl => absurd (hdone.symm.trans hl) nofun⟩
    by_cases hbefore : row.seq ≤ p.since
    · exact List.mem_append_left _ (h.brought hrow hstart hbefore)
    · -- stamped no higher than the page's list stood, it is as the list found it
      obtain rfl : row.id = id := Keyed.key_of_get? hrow
      have hsame := hp.grows.unchanged hrow (hsince.trans hlisted)
      have hfound : page.listed.messages.get? row.id = some row := hsame.1.symm.trans hrow
      obtain ⟨copy, hcopy, hcarries⟩ := hp.brings (hall hfound (Nat.not_le.mp hbefore) hsince)
      obtain rfl := hcarries.whole hsame
      have hnow : c.copyOf row = page.listed.copyOf row := by
        rw [Channel.copyOf, Channel.copyOf, hsame.2]
      exact List.mem_append_right _ (hnow ▸ hcopy)
  next hshort =>
    have hshort : page.copies.length ≠ page.limit := fun heq => hshort (beq_iff_eq.mpr heq)
    refine ⟨h.started, h.reached,
      fun hrow hstart hsince => List.mem_append_left _ (h.brought hrow hstart hsince), nofun,
      fun listed hl => ?_⟩
    obtain rfl := Option.some.inj hl
    refine ⟨hp.stamped, hp.grows, fun {id row} hrow hstart => ?_⟩
    by_cases hbefore : row.seq ≤ p.since
    · exact ⟨_, List.mem_append_left _ (hbrought hrow hstart hbefore), rfl, rfl, fun _ => rfl⟩
    · obtain ⟨copy, hcopy, hcarries⟩ := hp.brings (hp.short hshort hrow (Nat.not_le.mp hbefore))
      exact ⟨copy, List.mem_append_right _ hcopy, hcarries⟩

/-! ## The runs -/

/-- The world under a reader is sound, and so is its catch-up; and a catch-up that reads a page is not
done. -/
structure Reader.Sound (r : Reader) : Prop where
  world : r.world.Sound
  pager : ∀ p ∈ r.pager, p.Sound r.world.channel ∧ (p.page.isSome → p.done = none)

/-- The committed channel grows with every step. -/
theorem World.Sound.grows {w w' : World} {a : Step} (h : w.Sound) (hstep : w.step a = some w') :
    Grows w.channel w'.channel := by
  rcases World.step_cases hstep with ⟨id, row, -, -, rfl⟩ | ⟨write, -, -, rfl⟩ |
    ⟨c, -, hopened, rfl⟩ | ⟨-, rfl⟩
  · exact .refl _
  · exact .refl _
  · obtain ⟨⟨write, hwrote⟩, -⟩ := h.opened c hopened
    exact hwrote.grows
  · exact .refl _

theorem Reader.Sound.step {r r' : Reader} {a : ReaderStep} (h : r.Sound) (hstep : r.step a = some r') :
    r'.Sound ∧ Grows r.world.channel r'.world.channel := by
  cases a with
  | step a =>
    obtain ⟨w, hw, rfl⟩ := Option.map_eq_some_iff.mp hstep
    have hg := h.world.grows hw
    exact ⟨⟨h.world.step hw, fun p hp => (h.pager p hp).imp_left (·.grows hg)⟩, hg⟩
  | start since =>
    obtain rfl := Option.some.inj hstep
    refine ⟨⟨h.world, fun p hp => ?_⟩, .refl _⟩
    obtain rfl := Option.some.inj hp
    exact ⟨sound_start _ _, nofun⟩
  | list requested =>
    obtain ⟨p, hp, hrest⟩ := Option.bind_eq_some_iff.mp hstep
    obtain ⟨p', hlist, hdone⟩ := Option.bind_eq_some_iff.mp hrest
    obtain rfl := Option.some.inj hdone
    refine ⟨⟨h.world, fun q hq => ?_⟩, .refl _⟩
    obtain rfl := Option.some.inj hq
    refine ⟨(h.pager p hp).1.list h.world.stamped hlist, fun _ => ?_⟩
    unfold Pager.list at hlist
    split at hlist
    next hidle =>
      obtain rfl := Option.some.inj hlist
      simpa using ((Bool.and_eq_true _ _).mp hidle).2
    next => cases hlist
  | hydrate part =>
    obtain ⟨p, hp, hrest⟩ := Option.bind_eq_some_iff.mp hstep
    obtain ⟨page, hpage, hdone⟩ := Option.bind_eq_some_iff.mp hrest
    obtain rfl := Option.some.inj hdone
    refine ⟨⟨h.world, fun q hq => ?_⟩, .refl _⟩
    obtain rfl := Option.some.inj hq
    exact ⟨(h.pager p hp).1.hydrate part hpage, fun _ => (h.pager p hp).2 (by rw [hpage]; rfl)⟩
  | answer =>
    obtain ⟨p, hp, hrest⟩ := Option.bind_eq_some_iff.mp hstep
    obtain ⟨page, hpage, hdone⟩ := Option.bind_eq_some_iff.mp hrest
    obtain rfl := Option.some.inj hdone
    refine ⟨⟨h.world, fun q hq => ?_⟩, .refl _⟩
    obtain rfl := Option.some.inj hq
    refine ⟨(h.pager p hp).1.answer hpage ((h.pager p hp).2 (by rw [hpage]; rfl)), ?_⟩
    unfold Pager.answer
    split <;> exact nofun

/-- A run keeps a reader sound, and what it lists last is no older than where the run began. -/
theorem Reader.sound {w : World} {r : Reader} (hw : Runs World.step Always newWorld w)
    (h : Runs Reader.step Always ⟨w, none⟩ r) :
    r.Sound ∧ Grows w.channel r.world.channel ∧ ∀ p ∈ r.pager,
      (∀ page ∈ p.page, Grows w.channel page.listed) ∧ ∀ listed ∈ p.done, Grows w.channel listed := by
  induction h with
  | refl => exact ⟨⟨World.sound hw, nofun⟩, .refl _, nofun⟩
  | @tail r r' a hrun _ hstep ih =>
    obtain ⟨hsound, hgrows, hpager⟩ := ih
    obtain ⟨hsound', hgrows'⟩ := hsound.step hstep
    refine ⟨hsound', hgrows.trans hgrows', ?_⟩
    cases a with
    | step a =>
      obtain ⟨w', -, rfl⟩ := Option.map_eq_some_iff.mp hstep
      exact hpager
    | start since =>
      obtain rfl := Option.some.inj hstep
      intro p hp
      obtain rfl := Option.some.inj hp
      exact ⟨nofun, nofun⟩
    | list requested =>
      obtain ⟨p, hp, hrest⟩ := Option.bind_eq_some_iff.mp hstep
      obtain ⟨p', hlist, hdone⟩ := Option.bind_eq_some_iff.mp hrest
      obtain rfl := Option.some.inj hdone
      intro q hq
      obtain rfl := Option.some.inj hq
      unfold Pager.list at hlist
      split at hlist
      · obtain rfl := Option.some.inj hlist
        refine ⟨fun page hpage => ?_, (hpager p hp).2⟩
        obtain rfl := Option.some.inj hpage
        exact hgrows
      · cases hlist
    | hydrate part =>
      obtain ⟨p, hp, hrest⟩ := Option.bind_eq_some_iff.mp hstep
      obtain ⟨page, hpage, hdone⟩ := Option.bind_eq_some_iff.mp hrest
      obtain rfl := Option.some.inj hdone
      intro q hq
      obtain rfl := Option.some.inj hq
      refine ⟨fun page' hpage' => ?_, (hpager p hp).2⟩
      obtain rfl := Option.some.inj hpage'
      exact (hpager p hp).1 page hpage
    | answer =>
      obtain ⟨p, hp, hrest⟩ := Option.bind_eq_some_iff.mp hstep
      obtain ⟨page, hpage, hdone⟩ := Option.bind_eq_some_iff.mp hrest
      obtain rfl := Option.some.inj hdone
      intro q hq
      obtain rfl := Option.some.inj hq
      unfold Pager.answer
      split
      · exact ⟨nofun, (hpager p hp).2⟩
      · refine ⟨nofun, fun listed hl => ?_⟩
        obtain rfl := Option.some.inj hl
        exact (hpager p hp).1 page hpage

/-- **Paging through the changes is complete**, whatever commits and rolls back meanwhile. A commit
stamps each row it changed above everything committed before it; no other step changes what is
committed, so a transaction rolled back or refused spends nothing. A
catch-up from any position, with any page sizes, that is done has brought every row its last list
found stamped above that position, as it found it: the row's columns and its thread's summary, and all
that hangs off it where the message has not changed since. And those rows are all that changed since
the channel stood at that position. -/
theorem listChanges_complete :
    (∀ w w' : World, Runs World.step Always newWorld w →
      (w.step .commit = some w' → ∀ id, Same w.channel w'.channel id ∨
        ∃ row, w'.channel.messages.get? id = some row ∧ w.channel.seq < row.seq ∧
          ∀ {other held}, w.channel.messages.get? other = some held → held.seq < row.seq) ∧
      ∀ a, a ≠ .commit → w.step a = some w' → w'.channel = w.channel) ∧
    ∀ (w : World) (r : Reader) (p : Pager) (listed : Channel), Runs World.step Always newWorld w →
      Runs Reader.step Always ⟨w, none⟩ r → r.pager = some p → p.done = some listed →
        (∀ {id row}, listed.messages.get? id = some row → p.start < row.seq →
          ∃ copy ∈ p.got, Carries listed r.world.channel row copy) ∧
        (p.start ≤ w.channel.seq → ∀ id, ¬Same w.channel listed id →
          ∃ row, listed.messages.get? id = some row ∧ p.start < row.seq) := by
  constructor
  · intro w w' hrun
    have hsound := World.sound hrun
    refine ⟨fun hcommit id => ?_, fun a hne hstep => ?_⟩
    · refine ((hsound.grows hcommit).rows id).imp_right ?_
      rintro ⟨row, hrow, habove⟩
      exact ⟨row, hrow, habove, fun hheld => (hsound.stamped.low hheld).trans_lt habove⟩
    · rcases World.step_cases hstep with ⟨id, row, -, -, rfl⟩ | ⟨write, -, -, rfl⟩ |
        ⟨c, rfl, -, rfl⟩ | ⟨-, rfl⟩
      · rfl
      · rfl
      · exact absurd rfl hne
      · rfl
  · intro w r p listed hw hrun hp hdone
    obtain ⟨hsound, -, hpager⟩ := Reader.sound hw hrun
    obtain ⟨-, -, hall⟩ := (hsound.pager p hp).1.done listed hdone
    refine ⟨hall, fun hstart id hchanged => ?_⟩
    rcases ((hpager p hp).2 listed hdone).rows id with hsame | ⟨row, hrow, habove⟩
    · exact absurd hsame hchanged
    · exact ⟨row, hrow, hstart.trans_lt habove⟩

end

/-- Two messages paged one by one, the first edited once its page was listed: it comes again. -/
theorem listChanges_complete_runs :
    let sent : Nat → Step := fun id =>
      .begin (.send { id := id, authorId := 7, content := "a", createdAt := id })
    let first : MessageRow := { id := 1, authorId := 7, content := "a", createdAt := 1, seq := 1 }
    let edited : MessageRow := { first with content := "b", editedAt := some 9, seq := 3 }
    let before : List Step := [sent 1, .commit, sent 2, .commit]
    let steps : List ReaderStep :=
      [.start 0, .list 1, .step (.read 1), .step (.begin (.edit first 9 "b" [] false)), .step .commit,
        .answer, .list 1, .answer, .list 5, .hydrate .reactions, .answer]
    ∃ w r p listed, runList World.step newWorld before = some w ∧
      runList Reader.step ⟨w, none⟩ steps = some r ∧ r.pager = some p ∧ p.done = some listed ∧
      listed.messages.get? 1 = some edited ∧ ∃ copy ∈ p.got, copy.row.columns = edited := by
  intro sent first edited before steps
  have hdone : (runList World.step newWorld before).bind (fun w =>
      (runList Reader.step ⟨w, none⟩ steps).bind fun r => r.pager.bind fun p => p.done.map fun listed =>
        (p.start, listed.messages.get? 1)) = some (0, some edited) := by decide +kernel
  obtain ⟨w, hw, hdone⟩ := Option.bind_eq_some_iff.mp hdone
  obtain ⟨r, hr, hdone⟩ := Option.bind_eq_some_iff.mp hdone
  obtain ⟨p, hp, hdone⟩ := Option.bind_eq_some_iff.mp hdone
  obtain ⟨listed, hlisted, hfound⟩ := Option.map_eq_some_iff.mp hdone
  obtain ⟨hstart, hfound⟩ := Prod.mk.inj hfound
  obtain ⟨hall, -⟩ := listChanges_complete.2 w r p listed (.ofList _ (.always _ _) hw)
    (.ofList _ (.always _ _) hr) hp hlisted
  obtain ⟨copy, hcopy, hcarries⟩ := hall hfound (by rw [hstart]; decide)
  exact ⟨w, r, p, listed, hw, hr, hp, hlisted, hfound, copy, hcopy, hcarries.columns⟩

end Stoop.Messages
