import BehaviorTree.Backend.Endpoints
import BehaviorTree.Proofs.CommandLine.ExitCode
import BehaviorTree.Proofs.Json.Halves
import BehaviorTree.Proofs.Json.Reading
import BehaviorTree.Proofs.Session.Export

/-!
The front ends agree on documents. All of them load a document before they do anything else, and what loading says depends on nothing but
the document and on whether one root is required. What was loaded is a valid tree as it is stored, so that the endpoints agree. Their
replies do not always: counters that are too long stop the one, halves of characters the other.
-/

set_option autoImplicit false

namespace BehaviorTree

namespace Session

def verdict (singleRoot : Bool) (source : Value) : Except Fault Loaded :=
  match Document.decode source with
  | .error f => .error (.document f)
  | .ok l =>
    match Semantics.check l.nodes l.connections singleRoot with
    | .error f => .error (.semantic f)
    | .ok () => .ok l

variable {s t : Session} {source : Value} {l : Loaded}

theorem loadSource_fst (s : Session) (source : Value) : (s.loadSource source).1 = verdict s.config.output.requireSingleRoot source := by
  unfold verdict
  cases hdecode : Document.decode source with
  | error f => rw [CommandLine.loadSource_of_undecoded hdecode]
  | ok l =>
    dsimp only
    cases hcheck : Semantics.check l.nodes l.connections s.config.output.requireSingleRoot with
    | error f => rw [loadSource_of_refused hdecode hcheck]
    | ok =>
      obtain ⟨t, hload, -⟩ := loadSource_of_accepted hdecode hcheck
      rw [hload]

theorem validateTree_of_loaded (h : s.loadSource source = (.ok l, t)) : t.validateTree = .ok () := by
  rcases loadSource_cases s source with ⟨f, hrefused⟩ | ⟨m, u, hdecode, hcheck, -, hload⟩
  · rw [hrefused] at h
    cases h
  · rw [hload] at h
    obtain ⟨hm, rfl⟩ := Prod.mk.inj h
    exact CommandLine.validateTree_of_loadSource hdecode hcheck hload

theorem document_begins_iff (forest : List Tree) (types : List NodeType) (version : String) :
    (Xml.document forest types version).toList.take 2 = ['<', '?'] ↔ forest ≠ [] := by
  cases forest <;> simp [Xml.document]

theorem exportXml_ne_placeholder {xml : String} (h : s.exportXml = .ok xml) (types : List NodeType) (version : String) :
    xml ≠ Xml.document [] types version := by
  unfold exportXml at h
  split at h
  · cases h
  · rename_i hvalid
    obtain rfl := Except.ok.inj h
    intro heq
    have hbegins := (document_begins_iff _ s.customTypes s.config.output.formatVersion).2 (hierarchy_ne_nil hvalid)
    rw [heq, document_begins_iff] at hbegins
    exact hbegins rfl

end Session

namespace Hierarchy

theorem forest_singleton (n : Node) : forest [n] [] = [.branch n []] := by
  simp [forest, roots, growAll, grow, claim]

end Hierarchy

namespace Semantics

theorem check_singleton {n : Node} (h : n.isLeafCategory = true) (singleRoot : Bool) : check [n] [] singleRoot = .ok () := by
  have hroots : Hierarchy.roots [n] [] = [n] := rfl
  have hleaves : invalidLeaves [n] [] = [] := by simp [invalidLeaves, h]
  rw [check, checkRoot, checkLeaves, hroots, hleaves]
  cases singleRoot <;> rfl

end Semantics

namespace Document

theorem decode_text {text : String} {ms : Table Value} (h : Json.parse text.toList = .ok (.object ms)) :
    decode (.text text) = decode (.object ms) := by
  have hparse : parse (.text text) = parse (.object ms) := by
    change (Json.parse text.toList).mapError (Fault.json text.toList) = .ok (.object ms)
    rw [h]
    rfl
  rw [decode, hparse, ← decode]

end Document

namespace CommandLine

variable {fs gs : Files} {environment : Option String} {words : List String} {config : EditorConfig} {task : Task} {file text : String}
  {catalog : Catalog}

theorem validate_succeeds_iff (config : EditorConfig) (catalog : Catalog) (hread : Session.readText fs (Path.ofText file) = .ok text) :
    exitCode (perform (.start config catalog) fs (.validate file)).1 = successCode ↔
      (Session.verdict config.output.requireSingleRoot (.text text)).isOk = true := by
  have hload := loadFile_of_read (s := .start config catalog) hread
  have hverdict := Session.loadSource_fst (.start config catalog) (.text text)
  rw [← hload] at hverdict
  obtain ⟨r, t, hr⟩ : ∃ r t, (Session.start config catalog).loadFile fs (Path.ofText file) = (r, t) := ⟨_, _, rfl⟩
  rw [hr] at hverdict
  change r = Session.verdict config.output.requireSingleRoot (.text text) at hverdict
  rw [← hverdict]
  cases r with
  | error f =>
    rw [perform_of_unloaded rfl hr]
    exact iff_of_false (Fault.sessionCode_ne_successCode f) Bool.false_ne_true
  | ok l =>
    rw [perform_validate hr (Session.validateTree_of_loaded (hload.symm.trans hr))]
    exact iff_of_true rfl rfl

end CommandLine

namespace Backend

open CommandLine

/-- Does a response say that the document is in order? -/
def Response.SaysOk (r : Response) : Prop :=
  r.status = okStatus ∧ ∃ ms, r.body = .object ms ∧ Table.lookup ms "ok" = some (.bool true)

/-- Is a response the XML of a tree, and not what stands for no tree? -/
def Response.IsXml (r : Response) : Prop :=
  r.status = okStatus ∧ ∃ xml, r.body = .text xml ∧ ∀ types version, xml ≠ Xml.document [] types version

variable {b : Backend} {document : Value} {f : Session.Fault} {l : Loaded} {r : Refusal}

theorem saysOk_loaded (l : Loaded) : (accepted (.object (loadedMembers l))).SaysOk := ⟨rfl, _, rfl, rfl⟩

theorem not_saysOk_invalid (r : Refusal) : ¬ (invalid r).SaysOk := by
  rintro ⟨-, ms, hms, hok⟩
  obtain rfl := Value.object.inj hms
  cases hok

theorem not_isXml_unprocessable (r : Refusal) : ¬ (unprocessable r).IsXml := by
  rintro ⟨hstatus, -⟩
  cases hstatus

/-- What loading refuses is refused for its format or for its meaning, as long as nothing but the format can stop the decoding. -/
theorem exists_refusal {singleRoot : Bool} (hformat : ∀ f, Document.decode document = .error f → f.isFormat = true)
    (h : Session.verdict singleRoot document = .error f) : ∃ r, refusal? f = some r := by
  unfold Session.verdict at h
  split at h
  · rename_i fault hdecode
    obtain rfl := Except.error.inj h
    exact ⟨_, if_pos (hformat fault hdecode)⟩
  · split at h
    · obtain rfl := Except.error.inj h
      exact ⟨_, rfl⟩
    · cases h

theorem validate_of_loaded (h : Session.verdict b.config.output.requireSingleRoot document = .ok l) :
    b.validate document = .ok (accepted (.object (loadedMembers l))) := by
  have hload := (Session.loadSource_fst b.session document).trans h
  rw [validate, hload]
  rfl

theorem validate_of_refused (h : Session.verdict b.config.output.requireSingleRoot document = .error f) (hr : refusal? f = some r) :
    b.validate document = .ok (invalid r) := by
  have hload := (Session.loadSource_fst b.session document).trans h
  rw [validate, hload]
  unfold answer
  dsimp only [Except.map]
  rw [hr]

theorem exportXml_of_loaded (h : Session.verdict b.config.output.requireSingleRoot document = .ok l) :
    ∃ xml, b.exportXml document = .ok (plain xml) ∧ ∀ types version, xml ≠ Xml.document [] types version := by
  have hload := (Session.loadSource_fst b.session document).trans h
  obtain ⟨t, ht⟩ : ∃ t, b.session.loadSource document = (.ok l, t) := ⟨_, Prod.ext hload rfl⟩
  obtain ⟨xml, hxml⟩ := exists_exportXml (Session.validateTree_of_loaded ht)
  have hexport : b.exportXml document = answer plain unprocessable t.exportXml := by
    rw [exportXml, ht]
    rfl
  exact ⟨xml, by rw [hexport, hxml]; rfl, Session.exportXml_ne_placeholder hxml⟩

theorem exportXml_of_refused (h : Session.verdict b.config.output.requireSingleRoot document = .error f) (hr : refusal? f = some r) :
    b.exportXml document = .ok (unprocessable r) := by
  have hload := (Session.loadSource_fst b.session document).trans h
  have hexport : b.exportXml document = answer plain unprocessable (.error f) := by
    rw [exportXml]
    dsimp only
    rw [hload]
    rfl
  rw [hexport, answer, hr]

theorem isSendable_json (status : Nat) (v : Value) :
    (Response.mk status v false).isSendable = (!v.hasLongInteger && !v.hasNonFinite && !v.hasHalf) := by
  rw [← Json.hasHalf_line, ← Text.isSome_utf8?]
  rfl

theorem isSendable_plain (xml : String) : (plain xml).isSendable = (Text.utf8? xml.toList).isSome := rfl

theorem isSendable_loaded (l : Loaded) :
    (accepted (.object (loadedMembers l))).isSendable = !(Value.object (loadedMembers l)).hasLongInteger := by
  have hhalf : (Value.object (loadedMembers l)).hasHalf = false := by
    simp only [loadedMembers, Value.hasHalf, Value.someAtom, Value.someMemberAtom, Value.scalar?, Option.any_some, Scalar.hasHalf]
    decide +kernel
  have hfinite : (Value.object (loadedMembers l)).hasNonFinite = false := rfl
  rw [accepted, isSendable_json, hhalf, hfinite, Bool.not_false, Bool.and_true, Bool.and_true]

theorem isSendable_refused (r : Refusal) :
    (invalid r).isSendable = !Text.hasHalf r.message.toList ∧ (unprocessable r).isSendable = !Text.hasHalf r.message.toList := by
  have hok : Text.hasHalf ['o', 'k'] = false := by decide
  have hdetail : Text.hasHalf ['d', 'e', 't', 'a', 'i', 'l'] = false := by decide
  have hname : Text.hasHalf ['k', 'i', 'n', 'd'] = false := by decide
  have hmessage : Text.hasHalf ['m', 'e', 's', 's', 'a', 'g', 'e'] = false := by decide
  have hkind : Text.hasHalf r.kind.name.toList = false := by cases r.kind <;> decide +kernel
  rw [invalid, accepted, unprocessable, failed, isSendable_json, isSendable_json]
  simp [Refusal.members, Value.hasHalf, Value.hasLongInteger, Value.hasNonFinite, Value.someAtom, Value.someMemberAtom, Value.anyScalar,
    Value.anyMemberScalar, Value.scalar?, Scalar.hasHalf, Scalar.isLongInteger, Scalar.isNonFinite, hok, hdetail, hname, hmessage, hkind]

theorem sent_cases (r : Response) :
    (r.isSendable = true ∧ sent (.ok r) = r) ∨ (r.isSendable = false ∧ sent (.ok r) = serverError) := by
  cases hsendable : r.isSendable with
  | true => exact .inl ⟨rfl, if_pos hsendable⟩
  | false => exact .inr ⟨rfl, if_neg (by rw [hsendable]; exact Bool.false_ne_true)⟩

theorem saysOk_sent {r : Response} : (sent (.ok r)).SaysOk ↔ r.SaysOk ∧ r.isSendable = true := by
  rcases sent_cases r with ⟨hsendable, hsent⟩ | ⟨hsendable, hsent⟩
  · rw [hsent, hsendable]
    exact (and_iff_left rfl).symm
  · rw [hsent, hsendable]
    exact iff_of_false (fun h => by cases h.1) fun h => Bool.false_ne_true h.2

theorem isXml_sent {r : Response} : (sent (.ok r)).IsXml ↔ r.IsXml ∧ r.isSendable = true := by
  rcases sent_cases r with ⟨hsendable, hsent⟩ | ⟨hsendable, hsent⟩
  · rw [hsent, hsendable]
    exact (and_iff_left rfl).symm
  · rw [hsent, hsendable]
    exact iff_of_false (fun h => by cases h.1) fun h => Bool.false_ne_true h.2

/-- Is a document refused with the same words by both endpoints, or is what both are to say of it beyond sending? -/
def IsRefusedAlike (validated exported : Response) : Prop :=
  ∃ r : Refusal, validated = invalid r ∧ exported = unprocessable r ∧
    ((sent (.ok validated) = invalid r ∧ sent (.ok exported) = unprocessable r) ∨
      (Text.hasHalf r.message.toList = true ∧ sent (.ok validated) = serverError ∧ sent (.ok exported) = serverError))

theorem isRefusedAlike (r : Refusal) : IsRefusedAlike (invalid r) (unprocessable r) := by
  obtain ⟨hinvalid, hunprocessable⟩ := isSendable_refused r
  refine ⟨r, rfl, rfl, ?_⟩
  rw [sent, sent, hinvalid, hunprocessable]
  cases hhalf : Text.hasHalf r.message.toList with
  | false => exact .inl ⟨rfl, rfl⟩
  | true => exact .inr ⟨rfl, rfl, rfl⟩

inductive Answers (b : Backend) (document : Value) (validated exported : Response) : Prop
  | refused (r : Refusal) (verdict : (Session.verdict b.config.output.requireSingleRoot document).isOk = false)
      (invalid : validated = invalid r) (unprocessable : exported = unprocessable r)
  | loaded (l : Loaded) (xml : String) (verdict : Session.verdict b.config.output.requireSingleRoot document = .ok l)
      (members : validated = accepted (.object (loadedMembers l))) (text : exported = plain xml)
      (tree : ∀ types version, xml ≠ Xml.document [] types version)

theorem exists_answers (b : Backend) (hformat : ∀ f, Document.decode document = .error f → f.isFormat = true) :
    ∃ validated exported, b.validate document = .ok validated ∧ b.exportXml document = .ok exported ∧
      Answers b document validated exported := by
  cases hverdict : Session.verdict b.config.output.requireSingleRoot document with
  | error f =>
    obtain ⟨r, hr⟩ := exists_refusal hformat hverdict
    exact ⟨_, _, validate_of_refused hverdict hr, exportXml_of_refused hverdict hr, .refused r (by rw [hverdict]; rfl) rfl rfl⟩
  | ok l =>
    obtain ⟨xml, hexport, htree⟩ := exportXml_of_loaded hverdict
    exact ⟨_, _, validate_of_loaded hverdict, hexport, .loaded l xml hverdict rfl rfl htree⟩

theorem Answers.agree {validated exported : Response} (h : Answers b document validated exported) :
    (validated.SaysOk ↔ (Session.verdict b.config.output.requireSingleRoot document).isOk = true) ∧
      (exported.IsXml ↔ (Session.verdict b.config.output.requireSingleRoot document).isOk = true) ∧
      (¬ validated.SaysOk → IsRefusedAlike validated exported) ∧
      (validated.SaysOk → validated.isSendable = !validated.body.hasLongInteger) ∧
      (exported.IsXml → ∃ xml, exported.body = .text xml ∧ exported.isSendable = !Text.hasHalf xml.toList) := by
  cases h with
  | refused r verdict invalid unprocessable =>
    subst invalid unprocessable
    rw [verdict]
    exact ⟨iff_of_false (not_saysOk_invalid r) Bool.false_ne_true, iff_of_false (not_isXml_unprocessable r) Bool.false_ne_true,
      fun _ => isRefusedAlike r, fun hok => absurd hok (not_saysOk_invalid r), fun hxml => absurd hxml (not_isXml_unprocessable r)⟩
  | loaded l xml verdict members text tree =>
    subst members text
    rw [verdict]
    refine ⟨iff_of_true (saysOk_loaded l) rfl, iff_of_true ⟨rfl, xml, rfl, tree⟩ rfl, fun hnot => absurd (saysOk_loaded l) hnot,
      fun _ => isSendable_loaded l, fun _ => ⟨xml, rfl, ?_⟩⟩
    rw [isSendable_plain, Text.isSome_utf8?]

/-- Whatever the document is, both endpoints come to one answer: either both accept it, or both refuse it with the same words. The command
line accepts or refuses it as they do, both the command alone and the program that comes to it. What was loaded is a valid tree and can be
exported, and never as no tree. What is sent is the answer, unless a counter is too long to be written, or there is a half of a character
in the text; the replies agree on a document if and only if both can be sent or neither. -/
theorem front_ends_agree_iff (b : Backend) {ms : Table Value}
    (hformat : ∀ f, Document.decode (.object ms) = .error f → f.isFormat = true) :
    ∃ validated exported, b.validate (.object ms) = .ok validated ∧ b.exportXml (.object ms) = .ok exported ∧
      (validated.SaysOk ↔ exported.IsXml) ∧ (¬ validated.SaysOk → IsRefusedAlike validated exported) ∧
      ((sent (.ok validated)).SaysOk ↔ validated.SaysOk ∧ validated.body.hasLongInteger = false) ∧
      ((sent (.ok exported)).IsXml ↔ exported.IsXml ∧ ∃ xml, exported.body = .text xml ∧ Text.hasHalf xml.toList = false) ∧
      (((sent (.ok validated)).SaysOk ↔ (sent (.ok exported)).IsXml) ↔
        (validated.SaysOk → validated.isSendable = exported.isSendable)) ∧
      (∀ catalog fs file text, Session.readText fs (Path.ofText file) = .ok text → Json.parse text.toList = .ok (.object ms) →
        (exitCode (perform (.start b.config catalog) fs (.validate file)).1 = successCode ↔ validated.SaysOk)) ∧
      (∀ fs environment words takes gs file text, Reaches fs environment words b.config (.validate file) gs →
        Session.readText gs (Path.ofText file) = .ok text → Json.parse text.toList = .ok (.object ms) →
          IsTaken takes (execute fs environment words).1 →
            (exitCode (printed takes (execute fs environment words).1) = successCode ↔ validated.SaysOk)) ∧
      ∀ (s t : Session) source l, s.loadSource source = (.ok l, t) →
        t.validateTree = .ok () ∧ ∃ xml, t.exportXml = .ok xml ∧ ∀ types version, xml ≠ Xml.document [] types version := by
  obtain ⟨validated, exported, hvalidate, hexport, hanswers⟩ := b.exists_answers hformat
  obtain ⟨hok, hxml, hrefused, hshort, hplain⟩ := hanswers.agree
  have hcommand : ∀ catalog fs file text, Session.readText fs (Path.ofText file) = .ok text → Json.parse text.toList = .ok (.object ms) →
      (exitCode (perform (.start b.config catalog) fs (.validate file)).1 = successCode ↔ validated.SaysOk) := by
    intro catalog fs file text hread hparse
    rw [validate_succeeds_iff b.config catalog hread, hok, Session.verdict, Document.decode_text hparse, ← Session.verdict]
  have hagree : validated.SaysOk ↔ exported.IsXml := hok.trans hxml.symm
  refine ⟨validated, exported, hvalidate, hexport, hagree, hrefused, ?_, ?_, ?_, hcommand, ?_, fun s t source l hload => ?_⟩
  · rw [saysOk_sent]
    exact and_congr_right fun hsays => by rw [hshort hsays, Bool.not_eq_true']
  · rw [isXml_sent]
    refine and_congr_right fun hisXml => ?_
    obtain ⟨xml, hbody, hsendable⟩ := hplain hisXml
    rw [hsendable, Bool.not_eq_true']
    exact ⟨fun hhalf => ⟨xml, hbody, hhalf⟩, fun ⟨other, hother, hhalf⟩ => Value.text.inj (hbody.symm.trans hother) ▸ hhalf⟩
  · rw [saysOk_sent, isXml_sent, ← hagree, and_congr_right_iff]
    exact forall_congr' fun _ => Bool.eq_iff_iff.symm
  · intro fs environment words takes gs file text hreaches hread hparse htaken
    rw [printed_of_isTaken htaken, hreaches.execute_eq]
    exact hcommand .standard gs file text hread hparse
  · have hvalid := Session.validateTree_of_loaded hload
    obtain ⟨xml, hexported⟩ := exists_exportXml hvalid
    exact ⟨hvalid, xml, hexported, Session.exportXml_ne_placeholder hexported⟩

def oneAction : Table Value :=
  [("nodes", .list [.object [("id", .text "a"), ("type", .text "AlwaysSuccess"), ("category", .text "action"), ("x", .int 0), ("y", .int 0),
      ("properties", .object [])]]),
    ("connections", .list [])]

def oneActionFiles : Files := oneFile (Text.utf8 (Json.line (.object oneAction)))

theorem oneAction_is_accepted :
    (∀ f, Document.decode (.object oneAction) = .error f → f.isFormat = true) ∧
      ∃ validated exported, ({} : Backend).validate (.object oneAction) = .ok validated ∧
        ({} : Backend).exportXml (.object oneAction) = .ok exported ∧ validated.SaysOk ∧ exported.IsXml ∧
          exitCode (printed (fun _ => true) (execute oneActionFiles none validateWords).1) = successCode := by
  have hformat : ∀ f, Document.decode (.object oneAction) = .error f → f.isFormat = true := by
    have hdecoded : (Document.decode (.object oneAction)).isOk = true := by decide +kernel
    intro f hf
    rw [hf] at hdecoded
    cases hdecoded
  have hlog := Logging.State.ofConfig_of_no_file { files := oneActionFiles } (c := ({} : EditorConfig).logging) rfl
  obtain ⟨hlog, hfiles⟩ := hlog
  have hreaches : Reaches oneActionFiles none validateWords {} (.validate "tree.json") oneActionFiles :=
    ⟨⟨_, readRequest_validateWords, rfl, rfl⟩, _, hlog, hfiles⟩
  have hread : Session.readText oneActionFiles (Path.ofText "tree.json") = .ok (Json.compact (.object oneAction)) := by
    have hlines := Text.plainLineEnds_of_not_mem (Json.isInline_line (.object oneAction)).isClean.not_mem_return
    have hplain : Text.ofChars (Json.line (.object oneAction)) = Json.line (.object oneAction) :=
      Text.ofChars_of_isPlain (by decide +kernel)
    have hfile : oneActionFiles.read (Path.ofText "tree.json") = .ok (Text.utf8 (Json.line (.object oneAction))) := read_oneFile _
    rw [readText_of_read hfile, Files.decoded, Text.utf8Chars_utf8, Except.map, hplain, hlines]
    rfl
  have hparse : Json.parse (Json.compact (.object oneAction)).toList = .ok (.object oneAction) := by
    rw [Json.compact, String.toList_ofList]
    exact Json.parse_line (by decide +kernel) (by decide +kernel)
  have htaken : IsTaken (fun _ => true) (execute oneActionFiles none validateWords).1 := fun _ _ => Bool.or_true _
  have hcode : exitCode (printed (fun _ => true) (execute oneActionFiles none validateWords).1) = successCode := by decide +kernel
  obtain ⟨validated, exported, hvalidate, hexport, hxml, -, -, -, -, -, hprogram, -⟩ := front_ends_agree_iff {} hformat
  have hok : validated.SaysOk := (hprogram _ _ _ _ _ _ _ hreaches hread hparse htaken).1 hcode
  exact ⟨hformat, validated, exported, hvalidate, hexport, hok, hxml.1 hok, hcode⟩

def lastNumber : Nat := 10 ^ Decimal.digitLimit - 1

def lastNode : Node :=
  { id := IdSequence.nodes.render lastNumber, type := "AlwaysSuccess", category := "action", name := "last", x := 0, y := 0,
    properties := [] }

def lastSnapshot : Snapshot := { nodes := [lastNode] }

theorem isReadable_lastSnapshot : lastSnapshot.IsReadable where
  consistent := ⟨List.nodup_singleton _, List.nodup_nil, List.forall_mem_nil _⟩
  nodeIds := by
    have hshort : ¬ Decimal.digitLimit < (Decimal.natText lastNumber).length := by
      have hlong := (Decimal.isTooLong_natCast_iff lastNumber).not.2 (Nat.not_le.2 (Nat.sub_lt (Nat.pow_pos (by decide)) (by decide)))
      rwa [Decimal.isTooLong, Int.natAbs_natCast, decide_eq_true_eq] at hlong
    exact List.forall_mem_singleton.2 ⟨_, (IdSequence.suffix?_render _ _).trans (if_neg hshort)⟩
  connectionIds := List.forall_mem_nil _
  customTypes := List.forall_mem_nil _
  grid := by decide

theorem hasLongInteger_loaded {l : Loaded} (hdecode : Document.decode lastSnapshot.toValue = .ok l) (hnodes : l.nodes = [lastNode]) :
    (Value.object (loadedMembers l)).hasLongInteger = true := by
  have hahead := (Document.isAheadOf_of_decode hdecode).1
  rw [hnodes] at hahead
  obtain ⟨n, hn⟩ : ∃ n : Nat, l.nextNode = n := Int.eq_ofNat_of_zero_le hahead.nonneg
  have hle : 10 ^ Decimal.digitLimit ≤ n := by
    by_contra hlt
    have hbelow : n ≤ lastNumber := Nat.le_sub_one_of_lt (not_le.1 hlt)
    have hissued : l.nextNode ≤ lastNumber := by
      rw [hn]
      exact Int.ofNat_le.2 hbelow
    have hid : IdSequence.nodes.render lastNumber ∈ [lastNode].map Node.id := List.mem_cons_self
    exact hahead.unissued lastNumber hissued hid
  have hnext : Decimal.isTooLong l.nextNode = true := hn ▸ (Decimal.isTooLong_natCast_iff n).2 hle
  simp [loadedMembers, Value.hasLongInteger, Value.anyScalar, Value.anyMemberScalar, Value.scalar?, Scalar.isLongInteger, hnext]

/-- A document that is in order, and whose export is sent, though the reply to its validation is that the server has failed. -/
theorem lastNumber_splits_replies :
    (∀ f, Document.decode lastSnapshot.toValue = .error f → f.isFormat = true) ∧
      ∃ validated exported, ({} : Backend).validate lastSnapshot.toValue = .ok validated ∧
        ({} : Backend).exportXml lastSnapshot.toValue = .ok exported ∧ ¬ (sent (.ok validated)).SaysOk ∧ (sent (.ok exported)).IsXml := by
  obtain ⟨l, hdecode, hsame, -⟩ := Document.decode_toValue isReadable_lastSnapshot
  have hnodes : l.nodes = [lastNode] := congrArg Snapshot.nodes hsame
  have hconnections : l.connections = [] := congrArg Snapshot.connections hsame
  have hcheck : Semantics.check l.nodes l.connections ({} : Backend).session.config.output.requireSingleRoot = .ok () := by
    rw [hnodes, hconnections]
    exact Semantics.check_singleton (by decide +kernel) _
  obtain ⟨t, hload, htook⟩ := Session.loadSource_of_accepted hdecode hcheck
  obtain ⟨-, htnodes, htconnections, -⟩ := Session.loadSource_eq_ok hload
  have hverdict := (Session.loadSource_fst _ _).symm.trans (congrArg Prod.fst hload)
  have hxml : t.exportXml = .ok (Xml.document [.branch lastNode []] [] "4") := by
    rw [Session.exportXml, Session.validateTree_of_loaded hload, Session.hierarchy, htnodes, htconnections, hnodes, hconnections,
      Hierarchy.forest_singleton, htook.customTypes, congrArg Snapshot.customTypes hsame, htook.fixed.1]
    rfl
  have hexported : ({} : Backend).exportXml lastSnapshot.toValue = .ok (plain (Xml.document [.branch lastNode []] [] "4")) := by
    rw [exportXml, hload]
    change answer plain unprocessable t.exportXml = _
    rw [hxml]
    rfl
  have hhalf : Text.hasHalf (Xml.document [.branch lastNode []] [] "4").toList = false := by decide +kernel
  refine ⟨fun f hf => ?_, _, _, validate_of_loaded hverdict, hexported, ?_, ?_⟩
  · rw [hdecode] at hf
    cases hf
  · rw [saysOk_sent, isSendable_loaded, hasLongInteger_loaded hdecode hnodes]
    exact fun h => Bool.false_ne_true h.2
  · rw [isXml_sent, isSendable_plain, Text.isSome_utf8?, hhalf]
    exact ⟨⟨rfl, _, rfl, Session.exportXml_ne_placeholder hxml⟩, rfl⟩

end Backend

end BehaviorTree
