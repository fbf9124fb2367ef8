import BehaviorTree.Json.Writer
import BehaviorTree.Session.Connections
import BehaviorTree.Session.Document

/-!
The endpoints of the backend. Each request is answered on its own, with the configuration and the catalog of the backend. A
document that is refused is answered as such; limits of numbers are no answer but a fault. A response is written when it is sent,
and what cannot be written is answered as a failure of the server.
-/

set_option autoImplicit false

namespace BehaviorTree

structure Backend where
  config : EditorConfig := {}
  catalog : Catalog := .standard

namespace Backend

structure Response where
  status : Nat
  body : Value
  /-- The body is a text that is sent as it is, and not as JSON. -/
  isPlain : Bool := false

/-- A document is refused for its format or for its meaning. -/
inductive RefusalKind where
  | format
  | semantic
  deriving DecidableEq, Repr

def RefusalKind.name : RefusalKind → String
  | .format => "format"
  | .semantic => "semantic"

structure Refusal where
  kind : RefusalKind
  message : String
  deriving DecidableEq, Repr

def refusal? : Session.Fault → Option Refusal
  | .document f => if f.isFormat then some ⟨.format, f.message⟩ else none
  | .semantic f => some ⟨.semantic, f.message⟩
  | _ => none

def Refusal.members (r : Refusal) : Table Value := [("kind", .text r.kind.name), ("message", .text r.message)]

def okStatus : Nat := 200

def badRequestStatus : Nat := 400

def unprocessableStatus : Nat := 422

def failed (status : Nat) (detail : Value) : Response := ⟨status, .object [("detail", detail)], false⟩

def accepted (v : Value) : Response := ⟨okStatus, v, false⟩

def plain (text : String) : Response := ⟨okStatus, .text text, true⟩

def answer {α : Type} (accepted : α → Response) (refused : Refusal → Response) (r : Except Session.Fault α) :
    Except Session.Fault Response :=
  match r with
  | .ok a => .ok (accepted a)
  | .error f =>
    match refusal? f with
    | some refusal => .ok (refused refusal)
    | none => .error f

def unprocessable (r : Refusal) : Response := failed unprocessableStatus (.object r.members)

def invalid (r : Refusal) : Response := accepted (.object (("ok", .bool false) :: r.members))

def session (b : Backend) : Session := .start b.config b.catalog

def nodeTypes (b : Backend) (category : Option String) : Response :=
  let categories := b.catalog.categories.filter fun c => category.all (· = c)
  accepted (.object (categories.map fun c => (c, .list ((b.catalog.list (some c)).map NodeType.toValue))))

def loadedMembers (l : Loaded) : Table Value :=
  [("ok", .bool true), ("message", .text Semantics.validMessage), ("nodes", .int l.nodes.length),
    ("connections", .int l.connections.length), ("next_node_id", .int l.nextNode), ("next_connection_id", .int l.nextConnection)]

def validate (b : Backend) (document : Value) : Except Session.Fault Response :=
  answer (fun l => accepted (.object (loadedMembers l))) invalid (b.session.loadSource document).1

def badPayload : Response := failed badRequestStatus (.text "payload needs document, source and target")

/-- May a document have a further connection? The document itself need not be a valid tree. -/
def checkConnection (b : Backend) (document : Value) (source target : String) : Except Session.Fault Value := do
  let l ← (Document.decode document).mapError .document
  match b.session.apply l with
  | (.error f, _) => .error f
  | (.ok (), s) => return .object (EdgeRules.verdictMembers (s.validateConnection source target))

def connections (b : Backend) (payload : Table Value) : Except Session.Fault Response :=
  match Value.member payload "document", Value.member payload "source", Value.member payload "target" with
  | .object ms, .text source, .text target => answer accepted unprocessable (b.checkConnection (.object ms) source target)
  | _, _, _ => .ok badPayload

def exportXml (b : Backend) (document : Value) : Except Session.Fault Response :=
  answer plain unprocessable (do
    let (r, s) := b.session.loadSource document
    let _ ← r
    s.exportXml)

def Response.isSendable (r : Response) : Bool :=
  match r.isPlain, r.body with
  | true, .text text => (Text.utf8? text.toList).isSome
  | _, body => !body.hasLongInteger && !body.hasNonFinite && (Text.utf8? (Json.line body)).isSome

def serverErrorStatus : Nat := 500

def serverError : Response := ⟨serverErrorStatus, .text "Internal Server Error", true⟩

def sent (r : Except Session.Fault Response) : Response :=
  match r with
  | .ok r => if r.isSendable then r else serverError
  | .error _ => serverError

end Backend

end BehaviorTree
