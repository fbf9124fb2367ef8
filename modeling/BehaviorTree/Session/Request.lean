import BehaviorTree.Session.Connections
import BehaviorTree.Session.Document
import BehaviorTree.Session.Selecting
import BehaviorTree.Session.View
import BehaviorTree.Store.Request

/-!
Requests to a session. A request names an operation and gives its arguments as values of any kind; the answer is a value. A name
with the prefix of the store is a request to the store. Saving and loading, which need files or bytes, are no requests.
-/

set_option autoImplicit false

namespace BehaviorTree.Session

/-- The operations, each with the least and the greatest number of its arguments. -/
def operations : Table (Nat × Nat) :=
  [("get_node_type_definition", 2, 2), ("available_node_types", 0, 0), ("add_custom_node_type", 1, 1),
    ("remove_custom_node_type", 1, 1), ("toggle_category_collapse", 1, 1), ("create_node", 4, 5), ("delete_node", 1, 1),
    ("delete_nodes", 1, 1), ("delete_selected_nodes", 0, 0), ("clone_node", 1, 3), ("clone_nodes", 1, 3),
    ("clone_selected_nodes", 0, 0), ("update_node_properties", 2, 2), ("rename_node", 2, 2), ("move_node", 3, 3),
    ("align_selected_nodes", 1, 1), ("validate_connection", 2, 2), ("create_connection", 2, 2), ("delete_connection", 1, 1),
    ("select_connection", 1, 1), ("deselect_connection", 0, 0), ("start_pending_connection", 2, 2),
    ("complete_pending_connection", 2, 2), ("cancel_pending_connection", 0, 0), ("select_node", 1, 2), ("select_nodes", 1, 1),
    ("select_all_nodes", 0, 0), ("deselect_node", 1, 1), ("clear_selection", 0, 0), ("start_selection_box", 2, 2),
    ("update_selection_box", 2, 2), ("end_selection_box", 0, 1), ("update_grid_settings", 0, 1), ("update_viewport", 0, 1),
    ("hierarchy", 0, 0), ("validate_tree", 0, 0), ("export_xml", 0, 0), ("auto_layout", 0, 0), ("snapshot", 0, 0),
    ("encode_state", 0, 0), ("reset", 0, 0), ("monitor_apply", 1, 1), ("monitor_status", 1, 1), ("monitor_clear", 0, 0),
    ("stats", 0, 0)]

def answered {α : Type} (encode : α → Value) (r : Outcome α) : Outcome Value := (r.1.map encode, r.2)

def done (r : Outcome Unit) : Outcome Value := answered (fun _ => .null) r

def refused (s : Session) : Outcome Value := (.error (.store .arguments), s)

def withId (s : Session) (id : Value) (absent : Except Fault Value) (act : String → Outcome Value) : Outcome Value :=
  match id.key with
  | .text id => act id
  | .unmatched => (absent, s)
  | .unusable => s.refused

def withIds (s : Session) (a b : Value) (absent : Except Fault Value) (act : String → String → Outcome Value) : Outcome Value :=
  match a.key, b.key with
  | .text a, .text b => act a b
  | .unusable, _ => s.refused
  | _, .unusable => s.refused
  | _, _ => (absent, s)

/-- Goes through ids that are given as a value, as far as they can be used. -/
def withEach (s : Session) (ids : Value) (act : List String → Outcome Value) : Outcome Value :=
  match ids.parts?.map Value.textKeys with
  | none => s.refused
  | some (ids, true) => act ids
  | some (ids, false) =>
    match act ids with
    | (.ok _, s) => s.refused
    | failed => failed

def withAll (s : Session) (ids : Value) (act : List String → Outcome Value) : Outcome Value :=
  match ids.parts?.map Value.textKeys with
  | some (ids, true) => act ids
  | _ => s.refused

def withSettings (s : Session) (settings : Value) (act : Table Value → Outcome Value) : Outcome Value :=
  match settings with
  | .object ms => if Table.holds ms "self" then s.refused else act ms
  | _ => s.refused

/-- Clones nodes given as values; the connections among them follow only if all ids can be used. -/
def cloneNodesWith (s : Session) (ids offsetX offsetY : Value) : Outcome Value :=
  match ids.parts?.map Value.textKeys with
  | none => s.refused
  | some (ids, true) => answered Change.idsValue (s.cloneNodes ids offsetX offsetY)
  | some (ids, false) =>
    match s.cloneEach offsetX offsetY [] ids with
    | (.error e, s) => (.error e, s)
    | (.ok _, s) => s.refused

def updatePropertiesWith (s : Session) (id properties : Value) (unknown : Except Fault Value) : Outcome Value :=
  match propertiesOf properties with
  | .error e => (.error e, s)
  | .ok v => s.withId id unknown fun id => answered Node.toValue (s.updateNodeProperties id v)

def moveNodeWith (s : Session) (id x y : Value) (unknown : Except Fault Value) : Outcome Value :=
  match snapped s.grid x y with
  | .error e => (.error (.number e), s)
  | .ok _ => s.withId id unknown fun id => answered Node.toValue (s.moveNode id x y)

def startPendingWith (s : Session) (node side : Value) (unknown : Except Fault Value) : Outcome Value :=
  if isSide side.written then s.withId node unknown fun id => done (s.startPending id side.written)
  else (.error (.unknownSide side.written), s)

def completePendingWith (s : Session) (node side : Value) : Outcome Value :=
  match s.pending, node.text? with
  | _, some id => answered connectionValue (s.completePending id side.written)
  | none, none => (.ok (connectionValue (.error .nothingPending)), s)
  | some p, none =>
    let s := { s with pending := none }
    if side.written = p.side then (.ok (connectionValue (.error .sameSide)), s)
    else s.withId node (.ok (connectionValue (.error (.rule .unknownEnd)))) fun _ => s.refused

def onMonitor (s : Session) (r : Monitor × Store) (v : Value) : Outcome Value :=
  (.ok v, { s with monitor := r.1, store := r.2 })

/-- Carries out an operation with its arguments; those that may be left out are null. -/
def perform (s : Session) (name : String) (a b c : Value) (more : List Value) : Outcome Value :=
  let keep (v : Value) : Outcome Value := (.ok v, s)
  let yes (r : Bool × Session) : Outcome Value := (.ok (.bool r.1), r.2)
  let count (r : Nat × Session) : Outcome Value := (.ok (.int r.1), r.2)
  let change (s : Session) : Outcome Value := (.ok .null, s)
  let unknown : Except Fault Value := .error (.unknownNode a.written)
  let no : Except Fault Value := .ok (.bool false)
  let noEnd : Except EdgeRules.Refusal Unit := .error .unknownEnd
  match name with
  | "get_node_type_definition" => ((s.definitionOf a b).map (Store.orNull NodeType.toValue), s)
  | "available_node_types" => keep (.list (s.availableTypes.map NodeType.toValue))
  | "add_custom_node_type" => answered NodeType.toValue (s.addCustomType a)
  | "remove_custom_node_type" => yes ((a.text?.map s.removeCustomType).getD (false, s))
  | "toggle_category_collapse" => (a.text?.map fun category => yes (s.toggleCollapsed category)).getD s.refused
  | "create_node" => answered .text (s.createNode a b c (more.getD 0 .null) (more.getD 1 .null))
  | "delete_node" => s.withId a no fun id => yes (s.deleteNode id)
  | "delete_nodes" => s.withEach a fun ids => count (s.deleteNodes ids)
  | "delete_selected_nodes" => count s.deleteSelectedNodes
  | "clone_node" => s.withId a (.ok .null) fun id => answered (Store.orNull .text) (s.cloneNode id b c)
  | "clone_nodes" => s.cloneNodesWith a b c
  | "clone_selected_nodes" => answered Change.idsValue s.cloneSelectedNodes
  | "update_node_properties" => s.updatePropertiesWith a b unknown
  | "rename_node" => s.withId a unknown fun id => answered Node.toValue (s.renameNode id b)
  | "move_node" => s.moveNodeWith a b c unknown
  | "align_selected_nodes" => answered Change.idsValue (s.alignSelectedNodes a.written)
  | "validate_connection" => s.withIds a b (.ok (EdgeRules.verdictValue noEnd)) fun a b =>
    keep (EdgeRules.verdictValue (s.validateConnection a b))
  | "create_connection" => s.withIds a b (.ok (connectionValue (.error (.rule .unknownEnd)))) fun a b =>
    answered connectionValue (s.createConnection a b)
  | "delete_connection" => s.withId a no fun id => yes (s.deleteConnection id)
  | "select_connection" => s.withId a unknown fun id => done (s.selectConnection id)
  | "deselect_connection" => change s.deselectConnection
  | "start_pending_connection" => s.startPendingWith a b unknown
  | "complete_pending_connection" => s.completePendingWith a b
  | "cancel_pending_connection" => change s.cancelPending
  | "select_node" => s.withId a unknown fun id => done (s.selectNode id b.isTruthy)
  | "select_nodes" => s.withAll a fun ids => change (s.selectNodes ids)
  | "select_all_nodes" => change s.selectAllNodes
  | "deselect_node" => change ((a.text?.map s.deselectNode).getD s)
  | "clear_selection" => change s.clearSelection
  | "start_selection_box" => change (s.startBox a b)
  | "update_selection_box" => change (s.updateBox a b)
  | "end_selection_box" => answered Change.idsValue (s.endBox a.isTruthy)
  | "update_grid_settings" => s.withSettings a fun ms => answered GridSettings.toValue (s.updateGrid ms)
  | "update_viewport" => s.withSettings a fun ms => answered Viewport.toValue (s.updateViewport ms)
  | "hierarchy" => keep (.list (s.hierarchy.map Tree.toValue))
  | "validate_tree" => keep (Semantics.verdictValue Semantics.validMessage s.validateTree)
  | "export_xml" => (s.exportXml.map .text, s)
  | "auto_layout" => answered Change.idsValue s.autoLayout
  | "snapshot" => keep (.object s.snapshot.toMembers)
  | "encode_state" => (s.encode.map .text, s)
  | "reset" => change s.reset
  | "monitor_apply" =>
    let r := s.monitor.apply s.store a
    s.onMonitor r (Change.statesValue r.1.states)
  | "monitor_status" => s.withId a (.ok Status.idle.toValue) fun id => keep (s.monitor.statusOf id).toValue
  | "monitor_clear" => s.onMonitor (s.monitor.clear s.store) .null
  | _ => keep s.store.journal.toValue

def leftOut (name : String) : Value :=
  if name = "clone_node" || name = "clone_nodes" then cloneOffset
  else if name = "update_grid_settings" || name = "update_viewport" then .object []
  else .null

def storeMark : String := "store."

def request (s : Session) (name : String) (arguments : List Value) : Outcome Value :=
  if name.startsWith storeMark then
    s.onStore (s.store.request (String.ofList (name.toList.drop storeMark.length)) arguments)
  else if Store.takes operations name arguments.length then
    let argument (i : Nat) := arguments.getD i (leftOut name)
    s.perform name (argument 0) (argument 1) (argument 2) (arguments.drop 3)
  else s.refused

end BehaviorTree.Session
