import BehaviorTree.Yaml.Resolve
import BehaviorTree.Yaml.Scanner
import BehaviorTree.Table

/-!
From tokens to nodes. A text holds one document at most. An alias stands for the node its anchor names. A node may so occur
within itself: it is written out a few times then, and not followed further.
-/

set_option autoImplicit false

namespace BehaviorTree.Yaml

inductive Node where
  | scalar (tag : Tag) (text : String)
  | list (tag : Tag) (items : List Node)
  | map (tag : Tag) (rows : List (Node × Node))
  /-- The node of an anchor, within that node itself. -/
  | within (anchor : String)

def Node.tag : Node → Tag
  | .scalar t _ => t
  | .list t _ => t
  | .map t _ => t
  | .within _ => .unknown

def Node.empty : Node := .scalar .null ""

mutual

def Node.unfold (named : String → Node) : Node → Node
  | .scalar t s => .scalar t s
  | .list t ns => .list t (unfoldAll named ns)
  | .map t rs => .map t (unfoldRows named rs)
  | .within a => named a

def unfoldAll (named : String → Node) : List Node → List Node
  | [] => []
  | n :: r => Node.unfold named n :: unfoldAll named r

def unfoldRows (named : String → Node) : List (Node × Node) → List (Node × Node)
  | [] => []
  | (k, v) :: r => (Node.unfold named k, Node.unfold named v) :: unfoldRows named r

end

structure Parser where
  tokens : List Token
  /-- The nodes that have an anchor; none for those that are not complete yet. -/
  anchors : Table (Option Node) := []
  handles : Table String := []

namespace Parser

def rest (p : Parser) (tokens : List Token) : Parser := { p with tokens := tokens }

structure Marks where
  anchor : Option String := none
  tag : Option (Option String × String) := none

def marks (p : Parser) : Marks × Parser :=
  match p.tokens with
  | .anchor a :: .tag h s :: r => (⟨some a, some (h, s)⟩, p.rest r)
  | .tag h s :: .anchor a :: r => (⟨some a, some (h, s)⟩, p.rest r)
  | .anchor a :: r => (⟨some a, none⟩, p.rest r)
  | .tag h s :: r => (⟨none, some (h, s)⟩, p.rest r)
  | _ => ({}, p)

def tagName (p : Parser) : Option (Option String × String) → Option (Option String)
  | none => some none
  | some (none, suffix) => some (some suffix)
  | some (some handle, suffix) => (Table.lookup p.handles handle).map fun text => some (text ++ suffix)

/-- The tag of a node by the name it has; without a name, or with an exclamation mark alone, it is told by its kind. -/
def tagOf (name : Option String) (kind : Tag) : Tag :=
  match name with
  | none => kind
  | some name => if name = "!" then kind else .ofName name

def announce (p : Parser) (anchor : Option String) : Option Parser :=
  match anchor with
  | none => some p
  | some a => if Table.holds p.anchors a then none else some { p with anchors := Table.insert p.anchors a none }

def record (p : Parser) (anchor : Option String) (n : Node) : Node × Parser :=
  match anchor with
  | none => (n, p)
  | some a => (n, { p with anchors := Table.insert p.anchors a (some n) })

def named? (p : Parser) (anchor : String) : Option Node :=
  (Table.lookup p.anchors anchor).map fun n => n.getD (.within anchor)

def scalarTag (name : Option String) (text : String) (isPlain : Bool) : Tag :=
  if name = none ∧ isPlain ∨ name = some "!" then Resolve.plain text else tagOf name .str

def isEndOfEntry : List Token → Bool
  | .entry :: _ => true
  | .blockEnd :: _ => true
  | _ => false

def isEndOfBareEntry : List Token → Bool
  | .entry :: _ => true
  | .key :: _ => true
  | .value :: _ => true
  | .blockEnd :: _ => true
  | _ => false

def isEndOfKey : List Token → Bool
  | .key :: _ => true
  | .value :: _ => true
  | .blockEnd :: _ => true
  | _ => false

def isEndOfFlow (close : Token) : List Token → Bool
  | .value :: _ => true
  | .comma :: _ => true
  | t :: _ => t = close
  | [] => false

def isEndOfFlowValue (close : Token) : List Token → Bool
  | .comma :: _ => true
  | t :: _ => t = close
  | [] => false

mutual

/-- One node. Blocks are allowed or not, and so are lists without an indentation of their own. -/
def node (block bare : Bool) : Nat → Parser → Option (Node × Parser)
  | 0, _ => none
  | fuel + 1, p =>
    match p.tokens with
    | .aliasOf name :: r => (p.named? name).map fun n => (n, p.rest r)
    | _ => do
      let (m, p) := p.marks
      let name ← p.tagName m.tag
      let p ← p.announce m.anchor
      match p.tokens with
      | .scalar text isPlain :: r => return (p.rest r).record m.anchor (.scalar (scalarTag name text isPlain) text)
      | .openList :: r =>
        let (ns, p) ← flowList fuel true (p.rest r)
        return p.record m.anchor (.list (tagOf name .seq) ns)
      | .openMap :: r =>
        let (rs, p) ← flowMap fuel true (p.rest r)
        return p.record m.anchor (.map (tagOf name .map) rs)
      | .entry :: _ =>
        if bare then
          let (ns, p) ← bareList fuel p
          return p.record m.anchor (.list (tagOf name .seq) ns)
        else nothing m name p
      | .sequenceStart :: r =>
        if block then
          let (ns, p) ← blockList fuel (p.rest r)
          return p.record m.anchor (.list (tagOf name .seq) ns)
        else nothing m name p
      | .mappingStart :: r =>
        if block then
          let (rs, p) ← blockMap fuel (p.rest r)
          return p.record m.anchor (.map (tagOf name .map) rs)
        else nothing m name p
      | _ => nothing m name p

def nothing (m : Marks) (name : Option String) (p : Parser) : Option (Node × Parser) :=
  if m.anchor.isSome || name.isSome then some (p.record m.anchor (.scalar (tagOf name .null) "")) else none

def blockList : Nat → Parser → Option (List Node × Parser)
  | 0, _ => none
  | fuel + 1, p =>
    match p.tokens with
    | .entry :: r => do
      let (n, p) ← if isEndOfEntry r then some (Node.empty, p.rest r) else node true false fuel (p.rest r)
      let (ns, p) ← blockList fuel p
      return (n :: ns, p)
    | .blockEnd :: r => some ([], p.rest r)
    | _ => none

/-- The entries of a list at the indentation of the mapping it belongs to. -/
def bareList : Nat → Parser → Option (List Node × Parser)
  | 0, _ => none
  | fuel + 1, p =>
    match p.tokens with
    | .entry :: r => do
      let (n, p) ← if isEndOfBareEntry r then some (Node.empty, p.rest r) else node true false fuel (p.rest r)
      let (ns, p) ← bareList fuel p
      return (n :: ns, p)
    | _ => some ([], p)

def blockMap : Nat → Parser → Option (List (Node × Node) × Parser)
  | 0, _ => none
  | fuel + 1, p =>
    match p.tokens with
    | .key :: r => do
      let (k, p) ← if isEndOfKey r then some (Node.empty, p.rest r) else node true true fuel (p.rest r)
      let (v, p) ← blockValue fuel p
      let (rs, p) ← blockMap fuel p
      return ((k, v) :: rs, p)
    | .value :: _ => none
    | .blockEnd :: r => some ([], p.rest r)
    | _ => none

def blockValue : Nat → Parser → Option (Node × Parser)
  | 0, _ => none
  | fuel + 1, p =>
    match p.tokens with
    | .value :: r => if isEndOfKey r then some (Node.empty, p.rest r) else node true true fuel (p.rest r)
    | _ => some (Node.empty, p)

def flowList (fuel : Nat) (first : Bool) (p : Parser) : Option (List Node × Parser) :=
  match fuel with
  | 0 => none
  | fuel + 1 =>
    match p.tokens with
    | .closeList :: r => some ([], p.rest r)
    | _ => do
      let p ← if first then some p else
        match p.tokens with
        | .comma :: r => some (p.rest r)
        | _ => none
      match p.tokens with
      | .closeList :: r => return ([], p.rest r)
      | .key :: r =>
        let (k, p) ← if isEndOfFlow .closeList r then some (Node.empty, p.rest r) else node false false fuel (p.rest r)
        let (v, p) ← flowValue .closeList fuel p
        let (ns, p) ← flowList fuel false p
        return (.map .map [(k, v)] :: ns, p)
      | _ =>
        let (n, p) ← node false false fuel p
        let (ns, p) ← flowList fuel false p
        return (n :: ns, p)

def flowMap (fuel : Nat) (first : Bool) (p : Parser) : Option (List (Node × Node) × Parser) :=
  match fuel with
  | 0 => none
  | fuel + 1 =>
    match p.tokens with
    | .closeMap :: r => some ([], p.rest r)
    | _ => do
      let p ← if first then some p else
        match p.tokens with
        | .comma :: r => some (p.rest r)
        | _ => none
      match p.tokens with
      | .closeMap :: r => return ([], p.rest r)
      | .key :: r =>
        let (k, p) ← if isEndOfFlow .closeMap r then some (Node.empty, p.rest r) else node false false fuel (p.rest r)
        let (v, p) ← flowValue .closeMap fuel p
        let (rs, p) ← flowMap fuel false p
        return ((k, v) :: rs, p)
      | _ =>
        let (k, p) ← node false false fuel p
        let (rs, p) ← flowMap fuel false p
        return ((k, Node.empty) :: rs, p)

def flowValue (close : Token) : Nat → Parser → Option (Node × Parser)
  | 0, _ => none
  | fuel + 1, p =>
    match p.tokens with
    | .value :: r => if isEndOfFlowValue close r then some (Node.empty, p.rest r) else node false false fuel (p.rest r)
    | _ => some (Node.empty, p)

end

def standardHandles : Table String := [("!", "!"), ("!!", Tag.standard)]

/-- The directives before a document: at most one version, which must be a first one, and no handle twice. -/
def directives (versioned : Bool) (handles : Table String) : List Token → Option (Table String × List Token)
  | .directive (.yaml major _) :: r => if versioned || major ≠ 1 then none else directives true handles r
  | .directive (.tag handle text) :: r =>
    if Table.holds handles handle then none else directives versioned (Table.insert handles handle text) r
  | .directive .other :: r => directives versioned handles r
  | ts => some (handles, ts)

def skipEnds : List Token → List Token
  | .documentEnd :: r => skipEnds r
  | ts => ts

def isBareDocument : List Token → Bool
  | [] => true
  | .directive _ :: _ => true
  | .documentStart :: _ => true
  | .documentEnd :: _ => true
  | _ => false

def root (p : Parser) : Option (Node × Parser) := node true false (3 * p.tokens.length + 8) p

/-- A document that begins with directives or a mark; it may be empty. The handles of its directives come before the standard
ones. -/
def explicit (tokens : List Token) : Option (Node × Parser) := do
  let (handles, ts) ← directives false [] tokens
  match ts with
  | .documentStart :: r =>
    let p : Parser := { tokens := r, handles := Table.overlay standardHandles handles }
    if isBareDocument r then some (Node.empty, p) else root p
  | _ => none

def first (tokens : List Token) : Option (Option (Node × Parser)) :=
  match tokens with
  | [] => some none
  | .directive _ :: _ => (explicit tokens).map some
  | .documentStart :: _ => (explicit tokens).map some
  | ts => (root { tokens := ts, handles := standardHandles }).map some

/-- The node of an anchor, with the nodes around it written out so many times. -/
def unfolded (p : Parser) : Nat → String → Node
  | 0, a => .within a
  | depth + 1, a => ((p.named? a).getD (.within a)).unfold (unfolded p depth)

/-- How many times a node is written out within itself; no reader looks deeper than that. -/
def unfoldDepth : Nat := 4

def document (tokens : List Token) : Option (Option Node) :=
  match first tokens with
  | none => none
  | some none => some none
  | some (some (n, p)) =>
    if (skipEnds p.tokens).isEmpty then some (some (n.unfold (unfolded p unfoldDepth))) else none

end Parser

end BehaviorTree.Yaml
