import Stoop.Markdown.Server
import Stoop.Markdown.Client

/-!
# What a message says

The tree both parsers read a message's content as, less what only one of them keeps: the names of the
styles, a list's depths and numbers, a fence's language, a token's offset. What either side reads off
its own tree (words, links, tokens) it reads off this one.

## The tree

`Node`, `TreeBlock`, with `words`, `links` and `tokens`

## Each side's tree as this one

`Server.InlineNode.tree`, `Client.Inline.tree`, and what each reads off: `Server.inlineString_tree`,
`Client.inlineText_tree`, `Server.walkLinks_tree`, `Client.walkLinks_tree`
-/

set_option autoImplicit false

namespace Stoop.Markdown

/-! ## The tree -/

/-- An inline node: an address stands alone, a link has words. -/
inductive Node
  | text (text : Text)
  | code (text : Text)
  | address (href : Text)
  | link (href : Text) (label : List Node)
  | styled (children : List Node)
  | mention (kind : TokenKind) (id handle : Text)

/-- A block: lines of a run of lines or of a quote, a list's rows, a fence's code. -/
inductive TreeBlock
  | lines (lines : List (List Node))
  | quote (lines : List (List Node))
  | list (items : List (List Node))
  | code (text : Text)

mutual

/-- A node's words. -/
def Node.words : Node → Text
  | .text text | .code text => text
  | .address href => href
  | .link _ label => words label
  | .styled children => words children
  | .mention kind _ handle => tokenAsText kind handle

def words : List Node → Text
  | [] => []
  | node :: nodes => node.words ++ words nodes

end

mutual

/-- The addresses a node links, in order. A link's words hold none. -/
def Node.links : Node → List Text
  | .address href | .link href _ => [href]
  | .styled children => links children
  | .text _ | .code _ | .mention _ _ _ => []

def links : List Node → List Text
  | [] => []
  | node :: nodes => node.links ++ links nodes

end

mutual

/-- The tokens in a node, in order. -/
def Node.tokens : Node → List Text
  | .mention kind id handle => [tokenText kind id handle]
  | .styled children | .link _ children => tokens children
  | .text _ | .code _ | .address _ => []

def tokens : List Node → List Text
  | [] => []
  | node :: nodes => node.tokens ++ tokens nodes

end

theorem words_append (nodes nodes' : List Node) :
    words (nodes ++ nodes') = words nodes ++ words nodes' := by
  induction nodes with
  | nil => rw [words, List.nil_append, List.nil_append]
  | cons node nodes ih => rw [List.cons_append, words, words, ih, List.append_assoc]

theorem links_append (nodes nodes' : List Node) :
    links (nodes ++ nodes') = links nodes ++ links nodes' := by
  induction nodes with
  | nil => rw [links, List.nil_append, List.nil_append]
  | cons node nodes ih => rw [List.cons_append, links, links, ih, List.append_assoc]

/-- A block's lines of nodes: a fence has none. -/
def TreeBlock.runs : TreeBlock → List (List Node)
  | .lines runs | .quote runs | .list runs => runs
  | .code _ => []

/-- A block's lines of words. -/
def TreeBlock.parts : TreeBlock → List Text
  | .code text => [text]
  | block => block.runs.map words

/-- The addresses a message links, in order. -/
def linksOf (blocks : List TreeBlock) : List Text := blocks.flatMap (·.runs.flatMap links)

/-- The tokens in a message's prose, in order. -/
def tokensOf (blocks : List TreeBlock) : List Text := blocks.flatMap (·.runs.flatMap tokens)

/-! ## The server's tree -/

namespace Server

mutual

/-- A node of the server's tree: a link without words is an address. -/
def InlineNode.tree : InlineNode → Node
  | .text text => .text text
  | .code text => .code text
  | .link href [] => .address href
  | .link href (child :: children) => .link href (child.tree :: trees children)
  | .styled children => .styled (trees children)
  | .mention token _ _ =>
    let (kind, id, handle) := tokenParts token
    .mention kind id handle

def trees : List InlineNode → List Node
  | [] => []
  | node :: nodes => node.tree :: trees nodes

end

/-- A block of the server's tree. -/
def Block.tree (block : Block) : TreeBlock :=
  match block.kind with
  | .lines => .lines (block.lines.map trees)
  | .quote => .quote (block.lines.map trees)
  | .list => .list (block.items.map trees)
  | .code => .code block.text

theorem trees_append (nodes nodes' : List InlineNode) :
    trees (nodes ++ nodes') = trees nodes ++ trees nodes' := by
  induction nodes with
  | nil => rfl
  | cons node nodes ih => rw [List.cons_append, trees, trees, ih, List.cons_append]

theorem trees_eq_map (nodes : List InlineNode) : trees nodes = nodes.map (·.tree) := by
  induction nodes with
  | nil => rfl
  | cons node nodes ih => rw [trees, ih, List.map_cons]

mutual

theorem InlineNode.words_tree : ∀ node : InlineNode, node.words = node.tree.words
  | .text _ => by rw [InlineNode.words, InlineNode.tree, Node.words]
  | .code _ => by rw [InlineNode.words, InlineNode.tree, Node.words]
  | .link _ [] => by rw [InlineNode.words, InlineNode.tree, Node.words]
  | .link _ (child :: children) => by
    rw [InlineNode.words, InlineNode.tree, Node.words, Markdown.words, child.words_tree,
      inlineString_tree children]
  | .styled children => by
    rw [InlineNode.words, InlineNode.tree, Node.words, inlineString_tree children]
  | .mention _ _ _ => by rw [InlineNode.words, InlineNode.tree, Node.words, tokenRead]

/-- The server's words are the tree's. -/
theorem inlineString_tree : ∀ nodes : List InlineNode, inlineString nodes = words (trees nodes)
  | [] => by rw [inlineString, trees, Markdown.words]
  | node :: nodes => by
    rw [inlineString, trees, Markdown.words, node.words_tree, inlineString_tree nodes]

end

mutual

theorem InlineNode.walkLinks_tree (found : List Text) : ∀ node : InlineNode,
    node.walkLinks found = node.tree.links.foldl withLink found
  | .text _ => by rw [InlineNode.walkLinks, InlineNode.tree, Node.links, List.foldl_nil]
  | .code _ => by rw [InlineNode.walkLinks, InlineNode.tree, Node.links, List.foldl_nil]
  | .link _ [] => by
    rw [InlineNode.walkLinks, InlineNode.tree, Node.links, List.foldl_cons, List.foldl_nil]
  | .link _ (_ :: _) => by
    rw [InlineNode.walkLinks, InlineNode.tree, Node.links, List.foldl_cons, List.foldl_nil]
  | .styled children => by
    rw [InlineNode.walkLinks, InlineNode.tree, Node.links, walkLinks_tree found children]
  | .mention _ _ _ => by rw [InlineNode.walkLinks, InlineNode.tree, Node.links, List.foldl_nil]

/-- The links the server adds are the tree's, one after another. -/
theorem walkLinks_tree (found : List Text) : ∀ nodes : List InlineNode,
    walkLinks found nodes = (links (trees nodes)).foldl withLink found
  | [] => by rw [walkLinks, trees, links, List.foldl_nil]
  | node :: nodes => by
    rw [walkLinks, trees, links, List.foldl_append, ← node.walkLinks_tree,
      walkLinks_tree (node.walkLinks found) nodes]

end

end Server

/-! ## The client's tree -/

namespace Client

mutual

/-- A node of the client's tree. -/
def Inline.tree : Inline → Node
  | .text text => .text text
  | .code text => .code text
  | .link href => .address href
  | .labelled href label => .link href (trees label)
  | .styled _ children => .styled (trees children)
  | .mention ref => .mention ref.kind ref.id ref.handle

def trees : List Inline → List Node
  | [] => []
  | node :: nodes => node.tree :: trees nodes

end

/-- A block of the client's tree. -/
def Block.tree : Block → TreeBlock
  | .lines runs => .lines (runs.map trees)
  | .quote runs => .quote (runs.map trees)
  | .list items => .list (items.map fun item => trees item.content)
  | .codeblock text _ => .code text

theorem trees_append (nodes nodes' : List Inline) :
    trees (nodes ++ nodes') = trees nodes ++ trees nodes' := by
  induction nodes with
  | nil => rfl
  | cons node nodes ih => rw [List.cons_append, trees, trees, ih, List.cons_append]

theorem trees_eq_map (nodes : List Inline) : trees nodes = nodes.map (·.tree) := by
  induction nodes with
  | nil => rfl
  | cons node nodes ih => rw [trees, ih, List.map_cons]

theorem mentionText_eq (ref : MentionRef) : mentionText ref = tokenAsText ref.kind ref.handle := by
  cases ref with
  | mk kind id handle => cases kind <;> rfl

mutual

theorem Inline.words_tree : ∀ node : Inline, node.words = node.tree.words
  | .text _ => by rw [Inline.words, Inline.tree, Node.words]
  | .code _ => by rw [Inline.words, Inline.tree, Node.words]
  | .link _ => by rw [Inline.words, Inline.tree, Node.words]
  | .labelled _ label => by rw [Inline.words, Inline.tree, Node.words, inlineText_tree label]
  | .styled _ children => by rw [Inline.words, Inline.tree, Node.words, inlineText_tree children]
  | .mention ref => by rw [Inline.words, Inline.tree, Node.words, mentionText_eq]

/-- The client's words are the tree's. -/
theorem inlineText_tree : ∀ nodes : List Inline, inlineText nodes = words (trees nodes)
  | [] => by rw [inlineText, trees, Markdown.words]
  | node :: nodes => by
    rw [inlineText, trees, Markdown.words, node.words_tree, inlineText_tree nodes]

end

mutual

theorem Inline.walkLinks_tree (found : List Text) : ∀ node : Inline,
    node.walkLinks found = node.tree.links.foldl withLink found
  | .text _ => by rw [Inline.walkLinks, Inline.tree, Node.links, List.foldl_nil]
  | .code _ => by rw [Inline.walkLinks, Inline.tree, Node.links, List.foldl_nil]
  | .link _ => by
    rw [Inline.walkLinks, Inline.tree, Node.links, List.foldl_cons, List.foldl_nil]
  | .labelled _ _ => by
    rw [Inline.walkLinks, Inline.tree, Node.links, List.foldl_cons, List.foldl_nil]
  | .styled _ children => by
    rw [Inline.walkLinks, Inline.tree, Node.links, walkLinks_tree found children]
  | .mention _ => by rw [Inline.walkLinks, Inline.tree, Node.links, List.foldl_nil]

/-- The links the client adds are the tree's, one after another. -/
theorem walkLinks_tree (found : List Text) : ∀ nodes : List Inline,
    walkLinks found nodes = (links (trees nodes)).foldl withLink found
  | [] => by rw [walkLinks, trees, links, List.foldl_nil]
  | node :: nodes => by
    rw [walkLinks, trees, links, List.foldl_append, ← node.walkLinks_tree,
      walkLinks_tree (node.walkLinks found) nodes]

end

end Client

end Stoop.Markdown
