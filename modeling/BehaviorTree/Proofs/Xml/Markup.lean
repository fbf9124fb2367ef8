import BehaviorTree.Text.Digit
import BehaviorTree.Text.Encoding
import Mathlib.Data.List.Nodup

/-!
Markup by the rules of XML 1.0 (fifth edition), for documents without a document type. The reader takes in one character after the other;
what one means hangs on the mode that the reader is in and on the elements that are open. Line ends are made plain first, and blanks in the
value of an attribute are read as spaces. Character data is checked and then passed over, so a document is read as the element that it
consists of.

Every element that is read has names where it should, and no attribute twice.
-/

set_option autoImplicit false

namespace BehaviorTree.Markup

def isSpace (c : Char) : Bool := c = ' ' || c = '\t' || c = '\n' || c = '\r'

/-- The character that is read for one in the value of an attribute. -/
def valued (c : Char) : Char := if isSpace c then ' ' else c

/-- The characters that a document may consist of; the half of a surrogate pair is none. -/
def isLegal (c : Char) : Bool := isSpace c || 0x20 ≤ c.toNat && c.toNat ≠ 0xFFFE && c.toNat ≠ 0xFFFF && !Text.isHalf c

def nameStarts : List (Nat × Nat) :=
  [(0x3A, 0x3A), (0x41, 0x5A), (0x5F, 0x5F), (0x61, 0x7A), (0xC0, 0xD6), (0xD8, 0xF6), (0xF8, 0x2FF), (0x370, 0x37D), (0x37F, 0x1FFF),
   (0x200C, 0x200D), (0x2070, 0x218F), (0x2C00, 0x2FEF), (0x3001, 0xD7FF), (0xF900, 0xFDCF), (0xFDF0, 0xFFFD), (0x10000, 0xEFFFF)]

/-- What a name may have after its beginning only. -/
def nameRests : List (Nat × Nat) := [(0x2D, 0x2E), (0x30, 0x39), (0xB7, 0xB7), (0x300, 0x36F), (0x203F, 0x2040)]

def isWithin (ranges : List (Nat × Nat)) (c : Char) : Bool := ranges.any fun r => r.1 ≤ c.toNat && c.toNat ≤ r.2

def isNameStart (c : Char) : Bool := isWithin nameStarts c

def isNameChar (c : Char) : Bool := isNameStart c || isWithin nameRests c

def isName : List Char → Bool
  | [] => false
  | c :: r => isNameStart c && r.all isNameChar

inductive Element where
  | element (tag : String) (attributes : List (String × String)) (children : List Element)

namespace Element

def tag : Element → String
  | element tag _ _ => tag

def attributes : Element → List (String × String)
  | element _ attributes _ => attributes

def children : Element → List Element
  | element _ _ children => children

end Element

/-- A tag that is being read, or that has been and is open. -/
structure Tag where
  name : String
  attributes : List (String × String) := []

def Tag.keys (t : Tag) : List String := t.attributes.map Prod.fst

def Tag.add (t : Tag) (key value : String) : Tag := { t with attributes := t.attributes ++ [(key, value)] }

def named : List (List Char × Char) :=
  [("amp".toList, '&'), ("lt".toList, '<'), ("gt".toList, '>'), ("apos".toList, '\''), ("quot".toList, '"')]

def hexDigit? (c : Char) : Option Nat :=
  if c.isDigit then some (c.toNat - 0x30)
  else if 'a' ≤ c && c ≤ 'f' then some (c.toNat - 0x57)
  else if 'A' ≤ c && c ≤ 'F' then some (c.toNat - 0x37)
  else none

/-- The legal character with the number that is written in digits to a base, as it is kept in a text. -/
def numbered? (base : Nat) (digits : Option (List Nat)) : Option (List Char) :=
  match digits with
  | none | some [] => none
  | some ds =>
    let n := ds.foldl (fun n d => base * n + d) 0
    let cs := Text.kept (Char.ofNat n)
    if n.isValidChar && cs.all isLegal then some cs else none

/-- The character that stands between the ampersand and the semicolon, by its name or by its number. -/
def referenced? : List Char → Option (List Char)
  | '#' :: 'x' :: r => numbered? 16 (r.mapM hexDigit?)
  | '#' :: r => numbered? 10 (r.mapM Text.asciiDigit?)
  | r => (named.find? fun n => n.1 = r).map fun n => [n.2]

inductive Mode where
  /-- Between tags, after so many closing brackets in a row. -/
  | text (brackets : Nat)
  /-- In a reference between tags. -/
  | reference (name : List Char)
  /-- After an opening angle bracket. -/
  | opened
  | startName (name : List Char)
  /-- In a start tag, with or without a blank before what comes. -/
  | startTag (tag : Tag) (spaced : Bool)
  | key (tag : Tag) (key : List Char)
  /-- In a blank between a key and the sign of equality. -/
  | keyed (tag : Tag) (key : String)
  /-- After the sign of equality. -/
  | equated (tag : Tag) (key : String)
  | value (tag : Tag) (key : String) (quote : Char) (value : List Char)
  | valueReference (tag : Tag) (key : String) (quote : Char) (value name : List Char)
  /-- After the slash of an empty element. -/
  | emptied (tag : Tag)
  | endName (name : List Char)
  /-- In a blank of an end tag. -/
  | endTag (name : String)
  /-- After an exclamation mark, where a comment or a literal section begins. -/
  | exclaimed (begun : List Char)
  /-- In a comment, after so many dashes in a row. -/
  | comment (dashes : Nat)
  /-- In a literal section, after so many closing brackets in a row. -/
  | literal (brackets : Nat)
  /-- In the name of a processing instruction. -/
  | target (name : List Char)
  | instruction (questioned : Bool)
  /-- After the question mark that ends an instruction without content. -/
  | targeted

structure Frame where
  tag : Tag
  before : List Element

/-- The mode, the elements that are complete in the innermost one, and the open ones from there outwards. -/
structure State where
  mode : Mode := .text 0
  children : List Element := []
  above : List Frame := []

namespace State

def turn (s : State) (mode : Mode) : State := { s with mode := mode }

def add (s : State) (e : Element) : State := { s with mode := .text 0, children := s.children ++ [e] }

def push (s : State) (t : Tag) : State := ⟨.text 0, [], ⟨t, s.children⟩ :: s.above⟩

/-- Closes the innermost element, if it has the name. -/
def pop (s : State) (name : String) : Option State :=
  match s.above with
  | [] => none
  | f :: r => if f.tag.name = name then some ⟨.text 0, f.before ++ [.element f.tag.name f.tag.attributes s.children], r⟩ else none

/-- Character data; outside the elements there is none but blanks. -/
def text (s : State) (brackets : Nat) (c : Char) : Option State :=
  if c = '<' then some (s.turn .opened)
  else if isSpace c then some (s.turn (.text 0))
  else if s.above.isEmpty then none
  else if c = '&' then some (s.turn (.reference []))
  else if c = ']' then some (s.turn (.text (brackets + 1)))
  else if c = '>' && 2 ≤ brackets then none
  else some (s.turn (.text 0))

def opened (s : State) (c : Char) : Option State :=
  if c = '/' then some (s.turn (.endName []))
  else if c = '!' then some (s.turn (.exclaimed []))
  else if c = '?' then some (s.turn (.target []))
  else if isNameStart c then some (s.turn (.startName [c]))
  else none

def startTag (s : State) (t : Tag) (spaced : Bool) (c : Char) : Option State :=
  if isSpace c then some (s.turn (.startTag t true))
  else if c = '>' then some (s.push t)
  else if c = '/' then some (s.turn (.emptied t))
  else if spaced && isNameStart c then some (s.turn (.key t [c]))
  else none

/-- After a key, which may not have been there before. -/
def keyed (s : State) (t : Tag) (key : String) (c : Char) : Option State :=
  if isSpace c then some (s.turn (.keyed t key))
  else if c = '=' && !t.keys.contains key then some (s.turn (.equated t key))
  else none

def equated (s : State) (t : Tag) (key : String) (c : Char) : Option State :=
  if isSpace c then some (s.turn (.equated t key))
  else if c = '"' || c = '\'' then some (s.turn (.value t key c []))
  else none

def value (s : State) (t : Tag) (key : String) (quote : Char) (value : List Char) (c : Char) : Option State :=
  if c = quote then some (s.turn (.startTag (t.add key (String.ofList value)) false))
  else if c = '<' then none
  else if c = '&' then some (s.turn (.valueReference t key quote value []))
  else some (s.turn (.value t key quote (value ++ [valued c])))

def endTag (s : State) (name : String) (c : Char) : Option State :=
  if isSpace c then some (s.turn (.endTag name)) else if c = '>' then s.pop name else none

def exclaimed (s : State) (begun : List Char) : Option State :=
  if begun = "--".toList then some (s.turn (.comment 0))
  else if begun = "[CDATA[".toList then (if s.above.isEmpty then none else some (s.turn (.literal 0)))
  else if begun.isPrefixOf "--".toList || begun.isPrefixOf "[CDATA[".toList then some (s.turn (.exclaimed begun))
  else none

/-- In a comment two dashes only stand at the end. -/
def comment (s : State) (dashes : Nat) (c : Char) : Option State :=
  if 2 ≤ dashes then (if c = '>' then some (s.turn (.text 0)) else none)
  else some (s.turn (.comment (if c = '-' then dashes + 1 else 0)))

def literal (s : State) (brackets : Nat) (c : Char) : State :=
  if c = '>' && 2 ≤ brackets then s.turn (.text 0) else s.turn (.literal (if c = ']' then brackets + 1 else 0))

/-- After the name of an instruction, which is not that of the declaration. -/
def target (s : State) (name : List Char) (c : Char) : Option State :=
  if !isName name || name.map Char.toLower = "xml".toList then none
  else if isSpace c then some (s.turn (.instruction false))
  else if c = '?' then some (s.turn .targeted)
  else none

def instruction (s : State) (questioned : Bool) (c : Char) : State :=
  if questioned && c = '>' then s.turn (.text 0) else s.turn (.instruction (c = '?'))

def step (s : State) (c : Char) : Option State :=
  match s.mode with
  | .text brackets => s.text brackets c
  | .reference name => if c = ';' then (referenced? name).map fun _ => s.turn (.text 0) else some (s.turn (.reference (name ++ [c])))
  | .opened => s.opened c
  | .startName name => if isNameChar c then some (s.turn (.startName (name ++ [c]))) else s.startTag { name := String.ofList name } false c
  | .startTag t spaced => s.startTag t spaced c
  | .key t key => if isNameChar c then some (s.turn (.key t (key ++ [c]))) else s.keyed t (String.ofList key) c
  | .keyed t key => s.keyed t key c
  | .equated t key => s.equated t key c
  | .value t key quote value => s.value t key quote value c
  | .valueReference t key quote value name =>
    if c = ';' then (referenced? name).map fun cs => s.turn (.value t key quote (value ++ cs))
    else some (s.turn (.valueReference t key quote value (name ++ [c])))
  | .emptied t => if c = '>' then some (s.add (.element t.name t.attributes [])) else none
  | .endName name => if isNameChar c then some (s.turn (.endName (name ++ [c]))) else s.endTag (String.ofList name) c
  | .endTag name => s.endTag name c
  | .exclaimed begun => s.exclaimed (begun ++ [c])
  | .comment dashes => s.comment dashes c
  | .literal brackets => some (s.literal brackets c)
  | .target name => if isNameChar c then some (s.turn (.target (name ++ [c]))) else s.target name c
  | .instruction questioned => some (s.instruction questioned c)
  | .targeted => if c = '>' then some (s.turn (.text 0)) else none

def read (s : State) (cs : List Char) : Option State := cs.foldlM step s

def element? (s : State) : Option Element :=
  match s with
  | ⟨.text _, [e], []⟩ => some e
  | _ => none

end State

def after? (start cs : List Char) : Option (List Char) := if start.isPrefixOf cs then some (cs.drop start.length) else none

def quoted? : List Char → Option (List Char × List Char)
  | [] => none
  | q :: r =>
    if q = '"' || q = '\'' then
      match r.dropWhile (· ≠ q) with
      | [] => none
      | _ :: rest => some (r.takeWhile (· ≠ q), rest)
    else none

/-- The value of a part after a blank, and what follows. -/
def part? (name : String) (cs : List Char) : Option (List Char × List Char) :=
  if cs.head?.any isSpace then do
    let r ← after? name.toList (cs.dropWhile isSpace)
    let r ← after? ['='] (r.dropWhile isSpace)
    quoted? (r.dropWhile isSpace)
  else none

def afterPart? (name : String) (accept : List Char → Bool) (cs : List Char) : Option (List Char) :=
  match part? name cs with
  | none => some cs
  | some (v, r) => if accept v then some r else none

def isVersion : List Char → Bool
  | '1' :: '.' :: d :: ds => (d :: ds).all Char.isDigit
  | _ => false

def isEncoding : List Char → Bool
  | [] => false
  | c :: r => c.isAlpha && r.all fun d => d.isAlphanum || d = '.' || d = '_' || d = '-'

def declared? (cs : List Char) : Option (List Char) := do
  let (version, r) ← part? "version" cs
  if isVersion version then
    let r ← afterPart? "encoding" isEncoding r
    let r ← afterPart? "standalone" (fun v => v = "yes".toList || v = "no".toList) r
    after? "?>".toList (r.dropWhile isSpace)
  else none

/-- The document without its declaration, if it has one. -/
def undeclared? (cs : List Char) : Option (List Char) :=
  match after? "<?xml".toList cs with
  | some (c :: r) => if isSpace c then declared? (c :: r) else some cs
  | _ => some cs

def parse (text : String) : Option Element :=
  if text.toList.all isLegal then do
    let cs ← undeclared? (Text.plainLineEnds text.toList)
    let s ← State.read {} cs
    s.element?
  else none

structure Tag.IsNamed (t : Tag) : Prop where
  name : isName t.name.toList = true
  keys : ∀ k ∈ t.keys, isName k.toList = true
  distinct : t.keys.Nodup

structure Tag.Takes (t : Tag) (key : String) : Prop extends t.IsNamed where
  named : isName key.toList = true
  fresh : key ∉ t.keys

inductive Element.All (P : Tag → Prop) : Element → Prop
  | element {tag : String} {attributes : List (String × String)} {children : List Element} (own : P ⟨tag, attributes⟩)
      (below : ∀ e ∈ children, e.All P) : All P (.element tag attributes children)

theorem Element.all_iff {P : Tag → Prop} {tag : String} {attributes : List (String × String)} {children : List Element} :
    (element tag attributes children).All P ↔ P ⟨tag, attributes⟩ ∧ ∀ e ∈ children, e.All P :=
  ⟨fun | .element own below => ⟨own, below⟩, fun h => .element h.1 h.2⟩

abbrev Element.IsNamed (e : Element) : Prop := e.All Tag.IsNamed

def Mode.IsNamed : Mode → Prop
  | .startName name => isName name = true
  | .startTag t _ | .emptied t => t.IsNamed
  | .key t k => t.IsNamed ∧ isName k = true
  | .keyed t k => t.IsNamed ∧ isName k.toList = true
  | .equated t k | .value t k _ _ | .valueReference t k _ _ _ => t.Takes k
  | _ => True

theorem isName_append {name : List Char} {c : Char} (hname : isName name = true) (hc : isNameChar c = true) :
    isName (name ++ [c]) = true := by
  cases name with
  | nil => cases hname
  | cons d r =>
    rw [isName, Bool.and_eq_true] at hname
    rw [List.cons_append, isName, hname.1, List.all_append, hname.2]
    simp [hc]

theorem isName_singleton {c : Char} (hc : isNameStart c = true) : isName [c] = true := by simp [isName, hc]

theorem Tag.isNamed_of_name {name : List Char} (h : isName name = true) : (Tag.mk (String.ofList name) []).IsNamed where
  name := by rwa [String.toList_ofList]
  keys := nofun
  distinct := List.nodup_nil

theorem Tag.IsNamed.of_keys {t u : Tag} (h : t.IsNamed) (hname : u.name = t.name) (hkeys : u.keys = t.keys) : u.IsNamed where
  name := hname ▸ h.name
  keys := hkeys ▸ h.keys
  distinct := hkeys ▸ h.distinct

theorem Tag.Takes.add {t : Tag} {key : String} (h : t.Takes key) (value : String) : (t.add key value).IsNamed where
  name := h.name
  keys := by
    intro k hk
    rw [Tag.keys, Tag.add, List.map_append, List.mem_append] at hk
    rcases hk with hk | hk
    · exact h.keys k hk
    · rw [List.map_singleton, List.mem_singleton] at hk
      exact hk ▸ h.named
  distinct := by
    rw [Tag.keys, Tag.add, List.map_append]
    exact List.nodup_append_comm.2 (List.nodup_cons.2 ⟨h.fresh, h.distinct⟩)

namespace State

structure IsNamed (s : State) : Prop where
  mode : s.mode.IsNamed
  children : ∀ e ∈ s.children, e.IsNamed
  above : ∀ f ∈ s.above, f.tag.IsNamed ∧ ∀ e ∈ f.before, e.IsNamed

variable {s u : State} {c : Char} {t : Tag} {key : String} {m : Mode}

theorem isNamed_start : ({} : State).IsNamed := ⟨trivial, nofun, nofun⟩

theorem IsNamed.turn (h : s.IsNamed) (hm : m.IsNamed) : (s.turn m).IsNamed := ⟨hm, h.children, h.above⟩

theorem IsNamed.add (h : s.IsNamed) {e : Element} (he : e.IsNamed) : (s.add e).IsNamed where
  mode := trivial
  children := by
    intro d hd
    rcases List.mem_append.1 hd with hd | hd
    · exact h.children d hd
    · exact List.mem_singleton.1 hd ▸ he
  above := h.above

theorem IsNamed.push (h : s.IsNamed) (ht : t.IsNamed) : (s.push t).IsNamed where
  mode := trivial
  children := nofun
  above := List.forall_mem_cons.2 ⟨⟨ht, h.children⟩, h.above⟩

theorem IsNamed.pop (h : s.IsNamed) {name : String} (hu : s.pop name = some u) : u.IsNamed := by
  unfold State.pop at hu
  split at hu
  · cases hu
  · rename_i f r habove
    split_ifs at hu
    obtain rfl := Option.some.inj hu
    obtain ⟨⟨hf, hbefore⟩, hr⟩ := List.forall_mem_cons.1 (habove ▸ h.above)
    have hclosed : (Element.element f.tag.name f.tag.attributes s.children).IsNamed := .element hf h.children
    refine ⟨trivial, fun e he => ?_, hr⟩
    rcases List.mem_append.1 he with he | he
    · exact hbefore e he
    · exact List.mem_singleton.1 he ▸ hclosed

theorem IsNamed.text (h : s.IsNamed) {brackets : Nat} (hu : s.text brackets c = some u) : u.IsNamed := by
  unfold State.text at hu
  split_ifs at hu <;> exact Option.some.inj hu ▸ h.turn trivial

theorem IsNamed.opened (h : s.IsNamed) (hu : s.opened c = some u) : u.IsNamed := by
  unfold State.opened at hu
  split_ifs at hu with _ _ _ hc
  iterate 3 exact Option.some.inj hu ▸ h.turn trivial
  exact Option.some.inj hu ▸ h.turn (isName_singleton hc)

theorem IsNamed.startTag (h : s.IsNamed) (ht : t.IsNamed) {spaced : Bool} (hu : s.startTag t spaced c = some u) : u.IsNamed := by
  unfold State.startTag at hu
  split_ifs at hu with _ _ _ hc
  · exact Option.some.inj hu ▸ h.turn ht
  · exact Option.some.inj hu ▸ h.push ht
  · exact Option.some.inj hu ▸ h.turn ht
  · exact Option.some.inj hu ▸ h.turn ⟨ht, isName_singleton (Bool.and_eq_true_iff.1 hc).2⟩

theorem IsNamed.keyed (h : s.IsNamed) (ht : t.IsNamed) (hkey : isName key.toList = true) (hu : s.keyed t key c = some u) :
    u.IsNamed := by
  unfold State.keyed at hu
  split_ifs at hu with _ hc
  · exact Option.some.inj hu ▸ h.turn ⟨ht, hkey⟩
  · have hfresh : key ∉ t.keys := by simpa using (Bool.and_eq_true_iff.1 hc).2
    exact Option.some.inj hu ▸ h.turn (m := .equated t key) ⟨ht, hkey, hfresh⟩

theorem IsNamed.equated (h : s.IsNamed) (ht : t.Takes key) (hu : s.equated t key c = some u) : u.IsNamed := by
  unfold State.equated at hu
  split_ifs at hu
  · exact Option.some.inj hu ▸ h.turn ht
  · exact Option.some.inj hu ▸ h.turn ht

theorem IsNamed.value (h : s.IsNamed) (ht : t.Takes key) {quote : Char} {value : List Char} (hu : s.value t key quote value c = some u) :
    u.IsNamed := by
  unfold State.value at hu
  split_ifs at hu
  · exact Option.some.inj hu ▸ h.turn (ht.add _)
  · exact Option.some.inj hu ▸ h.turn ht
  · exact Option.some.inj hu ▸ h.turn ht

theorem IsNamed.endTag (h : s.IsNamed) {name : String} (hu : s.endTag name c = some u) : u.IsNamed := by
  unfold State.endTag at hu
  split_ifs at hu
  · exact Option.some.inj hu ▸ h.turn trivial
  · exact h.pop hu

theorem IsNamed.exclaimed (h : s.IsNamed) {begun : List Char} (hu : s.exclaimed begun = some u) : u.IsNamed := by
  unfold State.exclaimed at hu
  split_ifs at hu <;> exact Option.some.inj hu ▸ h.turn trivial

theorem IsNamed.comment (h : s.IsNamed) {dashes : Nat} (hu : s.comment dashes c = some u) : u.IsNamed := by
  unfold State.comment at hu
  split_ifs at hu <;> exact Option.some.inj hu ▸ h.turn trivial

theorem IsNamed.target (h : s.IsNamed) {name : List Char} (hu : s.target name c = some u) : u.IsNamed := by
  unfold State.target at hu
  split_ifs at hu <;> exact Option.some.inj hu ▸ h.turn trivial

theorem IsNamed.step (h : s.IsNamed) (hu : s.step c = some u) : u.IsNamed := by
  have hmode := h.mode
  unfold State.step at hu
  cases hm : s.mode <;> rw [hm] at hmode hu <;> dsimp only at hu
  case text => exact h.text hu
  case reference =>
    split_ifs at hu
    · obtain ⟨_, _, rfl⟩ := Option.map_eq_some_iff.1 hu
      exact h.turn trivial
    · exact Option.some.inj hu ▸ h.turn trivial
  case opened => exact h.opened hu
  case startName name =>
    split_ifs at hu with hc
    · exact Option.some.inj hu ▸ h.turn (isName_append hmode hc)
    · exact h.startTag (Tag.isNamed_of_name hmode) hu
  case startTag => exact h.startTag hmode hu
  case key t k =>
    split_ifs at hu with hc
    · exact Option.some.inj hu ▸ h.turn ⟨hmode.1, isName_append hmode.2 hc⟩
    · exact h.keyed hmode.1 (by rw [String.toList_ofList]; exact hmode.2) hu
  case keyed => exact h.keyed hmode.1 hmode.2 hu
  case equated => exact h.equated hmode hu
  case value => exact h.value hmode hu
  case valueReference =>
    split_ifs at hu
    · obtain ⟨_, _, rfl⟩ := Option.map_eq_some_iff.1 hu
      exact h.turn hmode
    · exact Option.some.inj hu ▸ h.turn hmode
  case emptied =>
    split_ifs at hu
    exact Option.some.inj hu ▸ h.add (.element hmode nofun)
  case endName =>
    split_ifs at hu
    · exact Option.some.inj hu ▸ h.turn trivial
    · exact h.endTag hu
  case endTag => exact h.endTag hu
  case exclaimed => exact h.exclaimed hu
  case comment => exact h.comment hu
  case literal =>
    unfold State.literal at hu
    split_ifs at hu <;> exact Option.some.inj hu ▸ h.turn trivial
  case target =>
    split_ifs at hu
    · exact Option.some.inj hu ▸ h.turn trivial
    · exact h.target hu
  case instruction =>
    unfold State.instruction at hu
    split_ifs at hu <;> exact Option.some.inj hu ▸ h.turn trivial
  case targeted =>
    split_ifs at hu
    exact Option.some.inj hu ▸ h.turn trivial

theorem IsNamed.read (h : s.IsNamed) {cs : List Char} (hu : s.read cs = some u) : u.IsNamed := by
  induction cs generalizing s with
  | nil => exact Option.some.inj hu ▸ h
  | cons c r ih =>
    obtain ⟨t, ht, hu⟩ := Option.bind_eq_some_iff.1 hu
    exact ih (h.step ht) hu

end State

theorem parse_eq_some {text : String} {root : Element} (h : parse text = some root) :
    text.toList.all isLegal = true ∧ root.IsNamed := by
  unfold parse at h
  split_ifs at h with hlegal
  refine ⟨hlegal, ?_⟩
  obtain ⟨cs, _, h⟩ := Option.bind_eq_some_iff.1 h
  obtain ⟨s, hs, h⟩ := Option.bind_eq_some_iff.1 h
  have hnamed := State.isNamed_start.read hs
  unfold State.element? at h
  split at h
  · exact Option.some.inj h ▸ hnamed.children _ List.mem_cons_self
  · cases h

end BehaviorTree.Markup
