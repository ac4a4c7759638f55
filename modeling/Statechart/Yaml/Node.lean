import Statechart.Yaml.Token.Lexer

/-!
# Nodes and documents

A document is a tree of scalars, sequences and mappings. A node may be an anchor, to which others
refer; references are left in the tree, for a node may refer to one around it.
-/
namespace Statechart.Yaml

inductive Node where
  | scalar (style : Style) (tag : Option (List UInt8)) (text : String)
  | seq (items : List Node)
  | map (entries : List (Node × Node))
  /-- A reference to the anchor with a number. -/
  | reference (number : Nat)

instance : Inhabited Node := ⟨.scalar .plain none ""⟩

/-- The node that stands where none is written. -/
def Node.empty : Node := .scalar .plain none ""

/-- A node that is an anchor. -/
structure Anchored where
  number : Nat
  node : Node

structure Document where
  root : Node
  /-- The anchors, the last one first. Of those with one number the first in this list counts. -/
  anchored : List Anchored

/-- The node itself that a node is or refers to. -/
def Document.follow (d : Document) : Node → Node
  | .reference number =>
    ((d.anchored.find? fun a => a.number = number).map Anchored.node).getD .empty
  | node => node

/-- What is known while a document is read. -/
structure Reading where
  tokens : List Token
  /-- What the handles of tags stand for. -/
  handles : List (String × List UInt8) := []
  /-- The names of anchors with their numbers. -/
  names : List (String × Nat) := []
  anchored : List Anchored := []

abbrev Read := StateT Reading Option

namespace Read

def peek? : Read (Option Token) := return (← get).tokens.head?

def drop : Read Unit := modify fun r => { r with tokens := r.tokens.tail }

/-- Whether the next token is one of some. The end of the text counts as none of them. -/
def sees (ts : List Token) : Read Bool := return (← peek?).any ts.contains

/-- Passes over a token that must come next. -/
def expect (t : Token) : Read Unit := do
  if ← sees [t] then drop else failure

/-- Passes over a token if it comes next. -/
def accept (t : Token) : Read Bool := do
  let seen ← sees [t]
  if seen then drop
  return seen

/-- The tag that a handle and an ending stand for. -/
def resolve (handle : String) (ending : List UInt8) : Read (List UInt8) := do
  if handle.isEmpty then return ending
  else
    match (← get).handles.lookup handle with
    | some opening => return opening ++ ending
    | none => failure

/-- The anchor and the tag before a node, each of which may come first. -/
structure Properties where
  anchor : Option String := none
  tag : Option (List UInt8) := none

def anchor : Read (Option String) := do
  match ← peek? with
  | some (.anchor name) =>
    drop
    return some name
  | _ => return none

def tag : Read (Option (String × List UInt8)) := do
  match ← peek? with
  | some (.tag handle ending) =>
    drop
    return some (handle, ending)
  | _ => return none

def properties : Read Properties := do
  let first ← anchor
  let tag ← tag
  let anchor ← if first.isSome then pure first else if tag.isSome then anchor else pure none
  match tag with
  | some (handle, ending) => return { anchor, tag := some (← resolve handle ending) }
  | none => return { anchor }

/-- Gives an anchor its number: how many names of anchors came before. -/
def enter (name : String) : Read Nat := do
  let r ← get
  let number := r.names.length
  set { r with
    names := (name, number) :: r.names.filter fun (n, _) => n ≠ name
    anchored := ⟨number, .empty⟩ :: r.anchored }
  return number

/-- Puts the node of an anchor into its place, counted from the first anchor. -/
def complete (place : Nat) (node : Node) : Read Unit :=
  modify fun r =>
    let index := r.anchored.length - 1 - place
    { r with anchored := r.anchored.modify index fun a => { a with node } }

mutual

/-- Reads a node. One within a flow collection is in flow style; where it is the key or value of an
entry, the items of a sequence may stand at the column of the key. -/
def node : Nat → Bool → Bool → Read Node
  | 0, _, _ => failure
  | fuel + 1, block, atKey => do
    if let some (.reference name) ← peek? then
      drop
      match (← get).names.lookup name with
      | some number => return .reference number
      | none => failure
    else
      let p ← properties
      match p.anchor with
      | none => content fuel block atKey p
      | some name =>
        let place := (← get).anchored.length
        let _ ← enter name
        let node ← content fuel block atKey p
        complete place node
        return node

/-- Reads a node after its properties, with which a node may be empty. -/
def content : Nat → Bool → Bool → Properties → Read Node
  | 0, _, _, _ => failure
  | fuel + 1, block, atKey, p => do
    match ← peek? with
    | some (.scalar style text) =>
      drop
      return .scalar style p.tag text
    | some .openSeq =>
      drop
      return .seq (← flowItems fuel true)
    | some .openMap =>
      drop
      return .map (← flowEntries fuel true)
    | some .openBlockSeq =>
      if block then
        drop
        return .seq (← blockItems fuel)
      else missing p
    | some .openBlockMap =>
      if block then
        drop
        return .map (← blockEntries fuel)
      else missing p
    | some .item => if atKey then return .seq (← itemsAtKey fuel) else missing p
    | _ => missing p

/-- A node of which only the properties are written. -/
def missing (p : Properties) : Read Node :=
  if p.anchor.isSome || p.tag.isSome then return .scalar .plain p.tag "" else failure

/-- Reads the items of a block up to its end. -/
def blockItems : Nat → Read (List Node)
  | 0 => failure
  | fuel + 1 => do
    if ← accept .closeBlock then return []
    else
      expect .item
      let item ← if ← sees [.item, .closeBlock] then pure .empty else node fuel true false
      return item :: (← blockItems fuel)

/-- Reads items at the column of a key. -/
def itemsAtKey : Nat → Read (List Node)
  | 0 => failure
  | fuel + 1 => do
    if ← accept .item then
      let item ←
        if ← sees [.item, .key, .value, .closeBlock] then pure .empty else node fuel true false
      return item :: (← itemsAtKey fuel)
    else return []

/-- Reads the entries of a block up to its end. -/
def blockEntries : Nat → Read (List (Node × Node))
  | 0 => failure
  | fuel + 1 => do
    if ← accept .closeBlock then return []
    else
      expect .key
      let key ← part fuel
      let value ← if ← accept .value then part fuel else pure .empty
      return (key, value) :: (← blockEntries fuel)

/-- Reads the key or value of an entry of a block, which may be empty. -/
def part : Nat → Read Node
  | 0 => failure
  | fuel + 1 => do
    if ← sees [.key, .value, .closeBlock] then return .empty else node fuel true true

/-- Reads the items of a flow sequence, between which commas stand. An entry is a mapping of one. -/
def flowItems : Nat → Bool → Read (List Node)
  | 0, _ => failure
  | fuel + 1, first => do
    if ← accept .closeSeq then return []
    else
      if !first then expect .comma
      if ← accept .closeSeq then return []
      else
        let item ← if ← accept .key then pair fuel else node fuel false false
        return item :: (← flowItems fuel false)

/-- Reads the key or value of an entry in flow style, which is empty before some tokens. -/
def flowPart : Nat → List Token → Read Node
  | 0, _ => failure
  | fuel + 1, ends => do
    if ← sees ends then return .empty else node fuel false false

/-- Reads an entry in a flow sequence after the mark of its key. Where the key is empty, the token
after it is passed over. -/
def pair : Nat → Read Node
  | 0 => failure
  | fuel + 1 => do
    let bare ← sees [.value, .comma, .closeSeq]
    let key ← flowPart fuel [.value, .comma, .closeSeq]
    if bare then drop
    let value ← if ← accept .value then flowPart fuel [.comma, .closeSeq] else pure .empty
    return .map [(key, value)]

/-- Reads the entries of a flow mapping, between which commas stand. -/
def flowEntries : Nat → Bool → Read (List (Node × Node))
  | 0, _ => failure
  | fuel + 1, first => do
    if ← accept .closeMap then return []
    else
      if !first then expect .comma
      if ← accept .closeMap then return []
      else if ← accept .key then
        let key ← flowPart fuel [.value, .comma, .closeMap]
        let value ← if ← accept .value then flowPart fuel [.comma, .closeMap] else pure .empty
        return (key, value) :: (← flowEntries fuel false)
      else
        let key ← node fuel false false
        return (key, .empty) :: (← flowEntries fuel false)

end

/-- Reads directives, at most so many. Each version and handle is declared once. -/
def directives : Nat → Bool → Read Unit
  | 0, _ => failure
  | fuel + 1, versioned => do
    match ← peek? with
    | some (.version major minor) =>
      if versioned || major ≠ 1 || (minor ≠ 1 && minor ≠ 2) then failure
      else
        drop
        directives fuel true
    | some (.handle name opening) =>
      let r ← get
      if (r.handles.lookup name).isSome then failure
      else
        set { r with handles := (name, opening) :: r.handles }
        drop
        directives fuel versioned
    | _ => return

/-- The handles that every document has. -/
def commonHandles : List (String × List UInt8) :=
  [("!", tagMark), ("!!", octetsOf "tag:yaml.org,2002:")]

/-- Passes over the marks at the end of a document, at most so many. -/
def ends : Nat → Read Unit
  | 0 => return
  | fuel + 1 => do if ← accept .documentEnd then ends fuel

/-- Reads the only document of a text. Without any token it is empty. -/
def document : Read Document := do
  let size := (← get).tokens.length
  if size = 0 then return ⟨.empty, []⟩
  else
    directives (size + 1) false
    let directed := (← get).tokens.length < size
    modify fun r => { r with handles := r.handles ++ commonHandles }
    let marked ← accept .documentStart
    if directed && !marked then failure
    let bare := marked && ((← peek?).isNone || (← sees [.documentStart, .documentEnd]))
    let root ← if bare then pure Node.empty else node (4 * size + 4) true false
    ends size
    if (← peek?).isSome then failure
    return ⟨root, (← get).anchored⟩

end Read

/-- Reads a text that is one document. -/
def read? (s : String) : Option Document := do
  let tokens ← Token.ofText? s
  return (← Read.document.run { tokens }).1

end Statechart.Yaml
