import Stoop.Markdown.Parsers

/-!
# The links a message is previewed with

The server keeps the first three distinct links, and leaves out one of over 2,048 bytes; the client
draws them all. Where the parsers agree, the server's are the client's, less the long ones, up to three.

## The server's links

`extractLinks_tree`, `walk_short`

## Both sides'

`links_agree`, `long_link_left_out`
-/

set_option autoImplicit false

namespace Stoop.Markdown

/-! ## The server's links -/

/-- An address the server previews. -/
def short (href : Text) : Bool := decide (byteLength href ≤ Server.maxLinkBytes)

/-- A block's lines add its tree's links. -/
theorem walkLinks_runs (found : List Text) (runs : List (List Server.InlineNode)) :
    runs.foldl Server.walkLinks found =
      ((runs.map Server.trees).flatMap links).foldl Server.withLink found := by
  induction runs generalizing found with
  | nil => rfl
  | cons run runs ih =>
    rw [List.foldl_cons, ih, Server.walkLinks_tree, List.map_cons, List.flatMap_cons,
      List.foldl_append]

/-- Every block the server parses has lines or items, as its kind has, or neither. -/
theorem parseMarkdown_tidy (content : Text) : ∀ block ∈ Server.parseMarkdown content,
    (block.lines ++ block.items).map Server.trees = block.tree.runs := by
  have htidy : ∀ block ∈ Server.parseMarkdown content,
      match block.kind with
      | .list => block.lines = []
      | .code => block.lines = [] ∧ block.items = []
      | _ => block.items = [] := by
    refine Server.parseLines_forall (List.Subset.refl _) (fun text _ => ⟨rfl, rfl⟩)
      (fun block hblock hne line _ base => ?_) 0 0 fun block hblock =>
        absurd hblock List.not_mem_nil
    obtain ⟨kind, lines, items, text⟩ := block
    cases kind with
    | code => exact absurd rfl hne
    | list =>
      rcases hblock with h | h
      · exact h
      · exact congrArg Server.Block.lines h
    | lines =>
      rcases hblock with h | h
      · exact h
      · exact congrArg Server.Block.items h
    | quote =>
      rcases hblock with h | h
      · exact h
      · exact congrArg Server.Block.items h
  intro block hblock
  have h := htidy block hblock
  obtain ⟨kind, lines, items, text⟩ := block
  cases kind with
  | code =>
    obtain ⟨hlines, hitems⟩ := h
    simp only at hlines hitems
    rw [hlines, hitems]
    rfl
  | list =>
    simp only at h
    rw [h]
    rfl
  | lines =>
    simp only at h
    rw [h, List.append_nil]
    rfl
  | quote =>
    simp only at h
    rw [h, List.append_nil]
    rfl

/-- The server's links are its tree's, one after another. -/
theorem extractLinks_tree (content : Text) :
    Server.extractLinks content =
      (linksOf ((Server.parseMarkdown content).map (·.tree))).foldl Server.withLink [] := by
  have h := parseMarkdown_tidy content
  rw [Server.extractLinks, linksOf]
  generalize Server.parseMarkdown content = blocks at h
  generalize ([] : List Text) = found
  induction blocks generalizing found with
  | nil => rfl
  | cons block blocks ih =>
    obtain ⟨hblock, hblocks⟩ := List.forall_mem_cons.mp h
    rw [List.foldl_cons, walkLinks_runs, hblock, List.map_cons, List.flatMap_cons,
      List.foldl_append, ih hblocks]

/-- The client's links are its tree's, one after another. -/
theorem linksIn_tree (content : Text) :
    Client.linksIn content =
      (linksOf ((Client.parseMarkdown content).map (·.tree))).foldl Client.withLink [] := by
  have hruns : ∀ (found : List Text) (runs : List (List Client.Inline)),
      runs.foldl Client.walkLinks found =
        ((runs.map Client.trees).flatMap links).foldl Client.withLink found := by
    intro found runs
    induction runs generalizing found with
    | nil => rfl
    | cons run runs ih =>
      rw [List.foldl_cons, ih, Client.walkLinks_tree, List.map_cons, List.flatMap_cons,
        List.foldl_append]
  have hblock : ∀ block : Client.Block, (Client.lineRuns block).map Client.trees = block.tree.runs := by
    intro block
    cases block with
    | list items => exact List.map_map
    | _ => rfl
  rw [Client.linksIn, linksOf]
  generalize Client.parseMarkdown content = blocks
  generalize ([] : List Text) = found
  induction blocks generalizing found with
  | nil => rfl
  | cons block blocks ih =>
    rw [List.foldl_cons, List.map_cons, List.flatMap_cons, List.foldl_append, hruns, hblock, ih]

/-- One more link: the server adds it where the client does, unless it is long or the cap is met. -/
theorem withLink_short (found : List Text) (href : Text) :
    Server.withLink ((found.filter short).take Server.maxLinksPerMessage) href =
      ((Client.withLink found href).filter short).take Server.maxLinksPerMessage := by
  have hcap : ∀ hrefs : List Text, hrefs.length ≤ Server.maxLinksPerMessage ∨
      (hrefs.take Server.maxLinksPerMessage).length = Server.maxLinksPerMessage := by
    intro hrefs
    rcases Nat.le_total hrefs.length Server.maxLinksPerMessage with h | h
    · exact .inl h
    · exact .inr (List.length_take_of_le h)
  rw [Server.withLink, Client.withLink]
  by_cases hmem : href ∈ found
  · -- the server has it too, or is at the cap, or never takes it
    rw [if_pos hmem, if_pos]
    by_cases hlong : Server.maxLinkBytes < byteLength href
    · exact .inr (.inl hlong)
    · have hshort : href ∈ found.filter short :=
        List.mem_filter.mpr ⟨hmem, decide_eq_true (Nat.le_of_not_lt hlong)⟩
      rcases hcap (found.filter short) with h | h
      · exact .inl (by rwa [List.take_of_length_le h])
      · exact .inr (.inr h)
  · rw [if_neg hmem, List.filter_append]
    by_cases hlong : Server.maxLinkBytes < byteLength href
    · have hno : [href].filter short = [] := by
        simpa [short] using hlong
      rw [if_pos (.inr (.inl hlong)), hno, List.append_nil]
    · have hyes : [href].filter short = [href] := by
        simpa [short] using hlong
      rw [hyes]
      by_cases hfull : ((found.filter short).take Server.maxLinksPerMessage).length =
          Server.maxLinksPerMessage
      · rw [if_pos (.inr (.inr hfull)), List.take_append_of_le_length]
        rw [← hfull]
        exact List.length_take_le' _ _
      · have hroom : (found.filter short).length < Server.maxLinksPerMessage := by
          rw [List.length_take] at hfull
          omega
        have hnot : href ∉ found.filter short := fun h => hmem (List.mem_filter.mp h).1
        rw [List.take_of_length_le hroom.le, if_neg, List.take_of_length_le]
        · rw [List.length_append]
          exact hroom
        · rintro (h | h | h)
          · exact hnot h
          · exact hlong h
          · omega

/-- **The server's walk**: of the links the client's finds, the short ones, up to the cap. -/
theorem walk_short (hrefs found : List Text) :
    hrefs.foldl Server.withLink ((found.filter short).take Server.maxLinksPerMessage) =
      ((hrefs.foldl Client.withLink found).filter short).take Server.maxLinksPerMessage := by
  induction hrefs generalizing found with
  | nil => rfl
  | cons href hrefs ih => rw [List.foldl_cons, List.foldl_cons, withLink_short, ih]

/-! ## Both sides' -/

/-- **The server previews the client's links**, less those of over 2,048 bytes, up to three: wherever
both class the content's whitespace alike and the server takes no address by the fold of "ſ". -/
theorem links_agree {content : Text} (halike : AllAlike content)
    (hfold : NoFoldIn (content.splitOn '\n')) :
    Server.extractLinks content =
      ((Client.linksIn content).filter short).take Server.maxLinksPerMessage := by
  rw [extractLinks_tree, linksIn_tree, trees_agree halike hfold]
  exact walk_short _ []

/-- Two addresses, one of them twice. -/
def twoAddresses : Text :=
  ['h', 't', 't', 'p', ':', '/', '/', 'x', ' ', 'h', 't', 't', 'p', ':', '/', '/', 'y', '\n',
    'h', 't', 't', 'p', ':', '/', '/', 'x']

theorem twoAddresses_agree :
    Server.extractLinks twoAddresses =
      ((Client.linksIn twoAddresses).filter short).take Server.maxLinksPerMessage :=
  @links_agree twoAddresses (by decide) (noFoldIn_of_not_mem (by decide))

/-- An address of over 2,048 bytes. -/
def longAddress : Text := ['h', 't', 't', 'p', ':', '/', '/'] ++ List.replicate 511 '😀'

/-- **A long link is left out** of the previews, and drawn. -/
theorem long_link_left_out :
    ¬ ∀ content, Server.extractLinks content =
      (Client.linksIn content).take Server.maxLinksPerMessage := by
  intro h
  have hlong := h longAddress
  revert hlong
  decide +kernel

end Stoop.Markdown
