import BehaviorTree.Proofs.Document.RoundTrip
import BehaviorTree.Proofs.Files
import BehaviorTree.Proofs.Json.Writer
import BehaviorTree.Proofs.Session.Atomicity
import BehaviorTree.Proofs.Session.FreshIds

/-!
Saving. Whatever a session has been through, its document can be read again: each id has a number that can be read, because it was
issued when it could be written or it came with a document, and custom types and grids passed the checks that a document is put to.
-/

set_option autoImplicit false

namespace BehaviorTree

open Relation

theorem IdSequence.reads_of_issues {s t : IdSequence} {ids : List String} (hn : 0 ≤ s.next) (h : s.Issues ids t) :
    ∀ id ∈ ids, s.Reads id := by
  induction ids generalizing s with
  | nil => simp
  | cons id r ih =>
    obtain ⟨⟨rfl, hw⟩, hr⟩ := h
    have hnext : 0 ≤ s.issue.2.next := Int.le_add_one hn
    exact List.forall_mem_cons.2 ⟨reads_issue hn hw, fun j hj => reads_of_tag rfl (ih hnext hr j hj)⟩

namespace Content

structure IsReadable (k : Content) : Prop where
  nodes : ∀ id ∈ Table.keys k.graph.nodes, IdSequence.nodes.Reads id
  connections : ∀ id ∈ Table.keys k.graph.connections, IdSequence.connections.Reads id

variable {lookup : String → String → Option NodeType} {k l : Content}

theorem Step.isReadable (h : Step lookup k l) (ha : k.IsAhead) (hk : k.IsReadable) : l.IsReadable := by
  cases h with
  | nodeIssued => exact { hk with }
  | connectionIssued => exact { hk with }
  | nodeAdded n issued fresh typed writable =>
    refine { hk with nodes := fun id hid => ?_ }
    rw [Graph.keys_addNode, List.mem_append, List.mem_singleton] at hid
    rcases hid with hid | rfl
    · exact hk.nodes id hid
    · rw [issued]
      exact IdSequence.reads_of_tag ha.nodeTag (IdSequence.reads_issue ha.nodes.nonneg writable)
  | nodesChanged nodes alike =>
    refine { hk with nodes := ?_ }
    rw [withNodes, keys_of_alike alike]
    exact hk.nodes
  | nodeRemoved id =>
    exact {
      nodes := fun id hid => hk.nodes id ((List.filter_sublist.map _).subset hid)
      connections := fun id hid => hk.connections id ((List.filter_sublist.map _).subset hid) }
  | connectionRemoved id =>
    exact { hk with connections := fun id hid => hk.connections id ((List.filter_sublist.map _).subset hid) }
  | connected source target fresh accepted writable =>
    refine { hk with connections := fun id hid => ?_ }
    rw [Graph.keys_addConnections, List.map_singleton, List.mem_append, List.mem_singleton] at hid
    rcases hid with hid | rfl
    · exact hk.connections id hid
    · exact IdSequence.reads_of_tag ha.connectionTag (IdSequence.reads_issue ha.connections.nonneg writable)
  | copied copy ds ids copying twins copies issued distinct fresh =>
    refine { hk with connections := fun id hid => ?_ }
    rw [Graph.keys_addConnections, List.mem_append] at hid
    rcases hid with hid | hid
    · exact hk.connections id hid
    · exact IdSequence.reads_of_tag ha.connectionTag (IdSequence.reads_of_issues ha.connections.nonneg issued id hid)
  | cleared => exact ⟨by simp [Table.keys], by simp [Table.keys]⟩

end Content

namespace Core

structure IsReadable (c : Core) : Prop where
  ahead : c.content.IsAhead
  content : c.content.IsReadable
  customTypes : ∀ t ∈ c.customTypes, t.IsReadable
  grid : 1 ≤ c.grid.size

variable {c d : Core}

theorem Step.isReadable (h : Step c d) (hc : c.IsReadable) : d.IsReadable := by
  cases h with
  | edited k step => exact { hc with ahead := step.isAhead hc.ahead, content := step.isReadable hc.ahead hc.content }
  | typeAdded t read named unregistered fresh =>
    refine { hc with customTypes := fun u hu => ?_ }
    rcases List.mem_append.1 hu with hu | hu
    · exact hc.customTypes u hu
    · obtain ⟨v, w, hw, rfl⟩ := read
      have hread : w.IsReadable := NodeType.isReadable_of_check (Schema.Checked.report_eq_ok.1 hw)
      rw [List.mem_singleton.1 hu]
      exact ⟨hread.named, hread.limit⟩
  | typeRemoved type unused => exact { hc with customTypes := fun u hu => hc.customTypes u (List.mem_of_mem_eraseP hu) }
  | gridChanged g read =>
    obtain ⟨ms, hms⟩ := read
    exact { hc with grid := GridSettings.one_le_of_ofMembers hms }

end Core

namespace Session

variable {s t : Session} {l : Loaded} {source : Value}

structure IsReadable (s : Session) : Prop where
  sound : s.graph.IsSound
  core : s.core.IsReadable

theorem start_isReadable (config : EditorConfig) (catalog : Catalog) (hgrid : 1 ≤ config.grid.size) :
    (start config catalog).IsReadable where
  sound := Graph.isForest_empty.toIsSound
  core := {
    ahead := (start_hasFreshIds config catalog).ahead
    content := ⟨fun _ h => absurd h List.not_mem_nil, fun _ h => absurd h List.not_mem_nil⟩
    customTypes := fun _ h => absurd h List.not_mem_nil
    grid := hgrid }

theorem Edited.isReadable (h : Edited s t) (hs : s.IsReadable) : t.IsReadable where
  sound := h.isSound hs.sound
  core := Core.kept_by_steps (P := Core.IsReadable) (h hs.sound) (fun _ _ hstep hc => hstep.isReadable hc) hs.core

theorem IsReadable.applyDecoded (hs : s.IsReadable) (h : Document.decode source = .ok l) : (s.apply l).2.IsReadable := by
  have hfresh : (s.apply l).2.HasFreshIds := HasFreshIds.applyDecoded ⟨hs.sound, hs.core.ahead⟩ h
  rcases apply_cases s l with ⟨f, happly⟩ | ⟨g, t, hg, happly, hcore⟩
  · rw [happly]
    exact hs
  · rw [happly] at hfresh ⊢
    obtain ⟨hsound, hnodes, hconnections⟩ := Store.graphOf_eq_ok hg
    have hread := Document.isReadable_of_decode h
    refine ⟨hfresh.sound, hfresh.ahead, ?_, ?_, ?_⟩
    · rw [hcore]
      refine ⟨?_, ?_⟩
      · rw [← hsound.ids_eq_keys, Graph.ids, hnodes]
        exact List.forall_mem_map.2 hread.nodeIds
      · rw [← hsound.connectionIds_eq_keys, hconnections]
        exact List.forall_mem_map.2 hread.connectionIds
    · rw [hcore]
      exact hread.customTypes
    · rw [hcore]
      dsimp only
      split_ifs
      · exact hread.grid
      · exact hs.core.grid

theorem IsReadable.snapshot (h : s.IsReadable) : s.snapshot.IsReadable where
  consistent := ⟨h.sound.ids_nodup, h.sound.connections.values_nodup, h.sound.ends⟩
  nodeIds n hn := h.core.content.nodes n.id (h.sound.ids_eq_keys ▸ List.mem_map_of_mem hn)
  connectionIds c hc := h.core.content.connections c.id (h.sound.connectionIds_eq_keys ▸ List.mem_map_of_mem hc)
  customTypes := h.core.customTypes
  grid := h.core.grid

theorem isReadable_afterAll {config : EditorConfig} {catalog : Catalog} {cs : List Call} (hgrid : 1 ≤ config.grid.size)
    (hown : ∀ c ∈ cs, c.IsOwn) : ((start config catalog).afterAll cs).IsReadable :=
  kept_by_own (fun _ _ hst hs => hst.isReadable hs) (fun _ _ _ hl hs => hs.applyDecoded hl) hown
    (start_isReadable config catalog hgrid)

variable {files gs : Files} {path : Path} {text : String} {f : Fault}

theorem writeText_eq_ok (h : writeText files path text = (.ok (), gs)) :
    ∃ bytes, Text.utf8? text.toList = some bytes ∧ files.write path bytes = (.ok (), gs) := by
  unfold writeText at h
  split at h
  · cases h
  · rename_i hwrite
    obtain ⟨hok, rfl⟩ := Prod.mk.inj h
    split_ifs at hok with hsome
    obtain ⟨bytes, hbytes⟩ := Option.isSome_iff_exists.1 hsome
    rw [hbytes] at hwrite
    exact ⟨bytes, hbytes, hwrite⟩

/-- A text cannot be written because of the file or, when that is emptied already, because of itself. -/
theorem writeText_eq_error (h : writeText files path text = (.error f, gs)) :
    (∃ e, f = unwritable path e ∧ gs.contents = files.contents) ∨
      f = .unencodable text ∧ Text.utf8? text.toList = none ∧ files.write path [] = (.ok (), gs) := by
  unfold writeText at h
  split at h
  · rename_i e fs hwrite
    obtain ⟨hf, rfl⟩ := Prod.mk.inj h
    exact .inl ⟨e, (Except.error.inj hf).symm, Files.contents_of_write_eq_error hwrite⟩
  · rename_i hwrite
    obtain ⟨hf, rfl⟩ := Prod.mk.inj h
    split_ifs at hf with hsome
    rw [Bool.not_eq_true, Option.isSome_eq_false_iff, Option.isNone_iff_eq_none] at hsome
    rw [hsome] at hwrite
    exact .inr ⟨(Except.error.inj hf).symm, hsome, hwrite⟩

theorem unwritable_ne_unencodable (path : Path) (e : FileFault) : unwritable path e ≠ .unencodable text := by
  unfold unwritable
  split_ifs <;> exact Fault.noConfusion

theorem writeText_eq_unencodable (h : writeText files path text = (.error (.unencodable text), gs)) :
    Text.utf8? text.toList = none ∧ files.write path [] = (.ok (), gs) := by
  rcases writeText_eq_error h with ⟨e, he, _⟩ | ⟨_, hrest⟩
  · exact absurd he.symm (unwritable_ne_unencodable path e)
  · exact hrest

theorem contents_of_writeText (h : writeText files path text = (.error f, gs)) (hf : f ≠ .unencodable text) :
    gs.contents = files.contents := by
  rcases writeText_eq_error h with ⟨_, _, hcontents⟩ | ⟨hencoding, _⟩
  · exact hcontents
  · exact absurd hencoding hf

theorem writeText_succeeds_iff {r : Except Fault Unit} (hwritable : files.IsWritable path) (h : writeText files path text = (r, gs)) :
    r = .ok () ↔ (Text.utf8? text.toList).isSome := by
  obtain ⟨fs, hfs⟩ := hwritable.exists_write ((Text.utf8? text.toList).getD [])
  rw [writeText, hfs] at h
  obtain ⟨rfl, -⟩ := Prod.mk.inj h
  split_ifs with hsome
  · exact ⟨fun _ => hsome, fun _ => rfl⟩
  · exact ⟨False.elim, fun h => absurd h hsome⟩

theorem readText_of_writeText (hclean : Text.IsClean text.toList) (h : writeText files path text = (.ok (), gs))
    (hsink : gs.place path ≠ .ok Files.sink) : readText gs path = .ok text := by
  obtain ⟨bytes, hbytes, hwrite⟩ := writeText_eq_ok h
  obtain ⟨cs, hcs, rfl⟩ := Text.utf8?_eq_some.1 hbytes
  have hplain : Text.plainLineEnds (Text.ofChars cs) = text.toList := by
    rw [← hcs, Text.plainLineEnds_of_not_mem hclean.not_mem_return]
  rw [readText, Files.read_of_write hwrite hsink]
  simp only [Files.decoded, Text.utf8Chars_utf8, Except.map, hplain, Except.mapError, String.ofList_toList]

theorem loadFile_of_empty (h : gs.read path = .ok []) (t : Session) : ∃ f, t.loadFile gs path = (.error (.document f), t) :=
  ⟨_, by rw [loadFile, readText, h]; rfl⟩

theorem isClean_of_encode (h : s.encode = .ok text) : Text.IsClean text.toList := by
  unfold encode at h
  split_ifs at h
  obtain rfl := Except.ok.inj h
  rw [Snapshot.encode, Json.pretty, String.toList_ofList]
  exact Json.isClean_indented 0 _

theorem save_of_invalid (h : s.validateTree ≠ .ok ()) (files : Files) (path : Path) :
    ∃ e, s.save files path = (.error (.semantic e), files) := by
  cases hfault : s.validateTree with
  | ok => exact absurd hfault h
  | error e => exact ⟨e, by rw [save, hfault]⟩

theorem save_of_valid (hvalid : s.validateTree = .ok ()) (htext : s.encode = .ok text) (files : Files) (path : Path) :
    s.save files path = writeText files path text := by
  rw [save, hvalid, htext]

/-- Whatever a session has been through, if nodes and types hold no bytes and the text is read as the value it was written from, then
the document is decoded as what the session holds, with counters above the numbers of all ids. It loads into a session with the same
demand for a single root if and only if it is a valid tree, and what is saved to a file that keeps it loads from there.

A tree that is not valid is not saved. Any other is saved to a file that can be written if and only if the text has bytes, which it has
not with half a pair in it. The file is empty then, and does not load; after any other fault the files are as they were. -/
theorem saved_documents_load_iff {config : EditorConfig} {catalog : Catalog} {cs : List Call} (hgrid : 1 ≤ config.grid.size)
    (hown : ∀ c ∈ cs, c.IsOwn) (hs : (start config catalog).afterAll cs = s) (hplain : s.snapshot.IsPlain)
    (hjson : Json.parse (Json.pretty s.snapshot.toValue).toList = .ok s.snapshot.toValue) :
    ∃ text l, s.encode = .ok text ∧ Document.decode (.text text) = .ok l ∧ l.toSnapshot = s.snapshot ∧ l.gridPresent = true ∧
      Document.IsUsable l ∧
        ∀ t : Session, t.config.output.requireSingleRoot = s.config.output.requireSingleRoot →
          ((∃ m u, t.loadSource (.text text) = (.ok m, u)) ↔ s.validateTree = .ok ()) ∧
            ∀ (files gs : Files) (path : Path) (r : Except Fault Unit), s.save files path = (r, gs) →
              (s.validateTree ≠ .ok () → r ≠ .ok () ∧ gs = files) ∧
              (r = .ok () → gs.place path ≠ .ok Files.sink → ∃ u, t.loadFile gs path = (.ok l, u)) ∧
              (s.validateTree = .ok () → files.IsWritable path → (r = .ok () ↔ (Text.utf8? text.toList).isSome)) ∧
              (r = .error (.unencodable text) → Text.utf8? text.toList = none ∧
                (gs.place path ≠ .ok Files.sink → gs.read path = .ok [] ∧ ∃ f, t.loadFile gs path = (.error (.document f), t))) ∧
              (∀ f, r = .error f → f ≠ .unencodable text → gs.contents = files.contents) := by
  subst hs
  generalize hs : (start config catalog).afterAll cs = s at *
  have hreadable : s.IsReadable := hs ▸ isReadable_afterAll hgrid hown
  have hencode : s.encode = .ok s.snapshot.encode := if_pos (Snapshot.isWritable_of_isPlain hplain)
  obtain ⟨l, hl, hsame, hpresent⟩ := Document.decode_encode hreadable.snapshot hjson
  refine ⟨_, l, hencode, hl, hsame, hpresent, Document.isUsable_of_decode hl, fun t ht => ?_⟩
  have hcheck : Semantics.check l.nodes l.connections t.config.output.requireSingleRoot = s.validateTree := by
    rw [ht, hsame]
    rfl
  refine ⟨by rw [loadSource_succeeds_iff hl, hcheck], fun files gs path r hsave => ?_⟩
  by_cases hvalid : s.validateTree = .ok ()
  · rw [save_of_valid hvalid hencode] at hsave
    refine ⟨absurd hvalid, ?_, fun _ hwritable => ?_, ?_, ?_⟩
    · rintro rfl hsink
      obtain ⟨u, hu, _⟩ := loadSource_of_accepted hl (hcheck.trans hvalid)
      exact ⟨u, by rw [loadFile, readText_of_writeText (isClean_of_encode hencode) hsave hsink]; exact hu⟩
    · exact writeText_succeeds_iff hwritable hsave
    · rintro rfl
      obtain ⟨hnone, hwrite⟩ := writeText_eq_unencodable hsave
      refine ⟨hnone, fun hsink => ?_⟩
      have hempty : gs.read path = .ok [] := Files.read_of_write hwrite hsink
      exact ⟨hempty, loadFile_of_empty hempty t⟩
    · rintro f rfl hf
      exact contents_of_writeText hsave hf
  · obtain ⟨fault, hfault⟩ := save_of_invalid hvalid files path
    obtain ⟨rfl, rfl⟩ := Prod.mk.inj (hfault.symm.trans hsave)
    refine ⟨fun _ => ⟨fun h => ?_, rfl⟩, fun h => ?_, fun h => absurd h hvalid, fun h => ?_, fun _ _ _ => rfl⟩ <;> cases h

def halfDocument : Value :=
  .object [("nodes", .list [.object [("id", .text "a"), ("type", .text "AlwaysSuccess"), ("category", .text "action"), ("x", .int 0),
    ("y", .int 0), ("properties", .object [("msg", .text (String.ofList (Text.ofCode 0xD800)))])]]), ("connections", .list [])]

def halfSession : Session := (start {} .standard).afterAll [.loadSource halfDocument]

theorem halfSession_isValid : halfSession.validateTree = .ok () ∧ halfSession.graph.ids = ["a"] ∧ halfSession.snapshot.isWritable = true ∧
    Text.utf8? (Json.indented 0 halfSession.snapshot.toValue) = none := by decide +kernel

/-- The document loads and is valid, but it is not saved, and what is left of the file does not load. -/
theorem halfDocument_is_not_saved :
    let saved := halfSession.save {} ⟨["tree.json"]⟩
    halfSession.graph.ids = ["a"] ∧ halfSession.validateTree = .ok () ∧ saved.1.isOk = false ∧
      saved.2 = { contents := [(["tree.json"], [])] } ∧
        ((start {} .standard).loadFile saved.2 ⟨["tree.json"]⟩).1.isOk = false := by
  intro saved
  obtain ⟨hvalid, hids, hwritable, hbytes⟩ := halfSession_isValid
  have hnone : Text.utf8? halfSession.snapshot.encode.toList = none := by
    rw [Snapshot.encode, Json.pretty, String.toList_ofList]
    exact hbytes
  have hwrite : Files.write {} ⟨["tree.json"]⟩ [] = (.ok (), { contents := [(["tree.json"], [])] }) :=
    Files.write_name Files.isName_treeFile List.not_mem_nil []
  have hsaved : saved = (.error (.unencodable halfSession.snapshot.encode), { contents := [(["tree.json"], [])] }) := by
    change halfSession.save {} _ = _
    rw [save_of_valid hvalid (if_pos hwritable), writeText, hnone, Option.getD_none, hwrite]
    rfl
  have hplace : Files.place { contents := [(["tree.json"], [])] } ⟨["tree.json"]⟩ ≠ .ok Files.sink := by
    rw [Files.place_name Files.isName_treeFile]
    decide
  obtain ⟨f, hload⟩ := loadFile_of_empty (Files.read_of_write hwrite hplace) (start {} .standard)
  rw [hsaved]
  exact ⟨hids, hvalid, rfl, rfl, by rw [hload]; rfl⟩

def savedRun : List Call :=
  [.loadSource foreignDocument, .request "create_connection" [.text "node_007", .text "leaf"],
    .request "add_custom_node_type" [.object [("type", .text "Wait"), ("category", .text "action"),
      ("properties", .list [.object [("name", .text "seconds"), ("type", .text "number"), ("default", .float 1.5)]])]],
    .request "update_node_properties" [.text "leaf", .object [("note", .list [.int (-7), .text "\"\n\u00e9", .null])]],
    .request "toggle_category_collapse" [.text "action"], .request "update_grid_settings" [.object [("size", .int 10)]]]

def savedSnapshot : Snapshot where
  nodes := [⟨"node_007", "Sequence", "composite", "Sequence", 0.0, 0.0, []⟩,
    ⟨"node_\u0663", "AlwaysSuccess", "action", "AlwaysSuccess", 0.0, 0.0, []⟩,
    ⟨"leaf", "AlwaysSuccess", "action", "AlwaysSuccess", 0.0, 0.0, [("note", .list [.int (-7), .text "\"\n\u00e9", .null])]⟩]
  connections := [⟨"conn_2", "node_007", "node_\u0663"⟩, ⟨"conn_3", "node_007", "leaf"⟩]
  customTypes := [⟨"Wait", "Wait", "action", some 0, true, [⟨"seconds", "number", .float 1.5, ""⟩], "", false⟩]
  collapsed := [("action", true)]
  grid := { size := 10, snap := false }

set_option maxRecDepth 20000 in
theorem snapshot_savedRun : ((start { grid := { snap := false } } .standard).afterAll savedRun).snapshot = savedSnapshot := by
  have hown : "create_connection".startsWith storeMark = false ∧ "add_custom_node_type".startsWith storeMark = false ∧
      "update_node_properties".startsWith storeMark = false ∧ "toggle_category_collapse".startsWith storeMark = false ∧
        "update_grid_settings".startsWith storeMark = false := by decide +kernel
  simp only [afterAll, savedRun, List.foldl, after, request, hown, Bool.false_eq_true, if_false]
  rfl

set_option maxRecDepth 100000 in
theorem parse_savedSnapshot : Json.parse (Json.indented 0 savedSnapshot.toValue) = .ok savedSnapshot.toValue := (rfl)

/-- The file holds characters that are escaped and others that take more than one byte. -/
theorem savedRun_loads_from_file :
    let s := (start { grid := { snap := false } } .standard).afterAll savedRun
    (∀ c ∈ savedRun, c.IsOwn) ∧ s.validateTree = .ok () ∧
      ∃ l gs u, s.save {} ⟨["tree.json"]⟩ = (.ok (), gs) ∧ (start {} .standard).loadFile gs ⟨["tree.json"]⟩ = (.ok l, u) ∧
        l.toSnapshot = savedSnapshot ∧ l.gridPresent = true := by
  intro s
  have hown : ∀ c ∈ savedRun, c.IsOwn := by
    simp only [savedRun, List.forall_mem_cons, Call.IsOwn, List.not_mem_nil, false_implies, implies_true, and_true, true_and]
    decide +kernel
  have hsnapshot : s.snapshot = savedSnapshot := snapshot_savedRun
  have hplain : s.snapshot.IsPlain := by
    rw [hsnapshot]
    simp [Snapshot.IsPlain, savedSnapshot, Value.hasBytes, Value.anyHasBytes]
  have hjson : Json.parse (Json.pretty s.snapshot.toValue).toList = .ok s.snapshot.toValue := by
    rw [hsnapshot, Json.pretty, String.toList_ofList]
    exact parse_savedSnapshot
  have hvalid : s.validateTree = .ok () := by decide +kernel
  obtain ⟨text, l, htext, _, hsame, hpresent, _, hloads⟩ := saved_documents_load_iff (by decide) hown rfl hplain hjson
  have hbytes : (Text.utf8? text.toList).isSome := by
    rw [encode, if_pos (Snapshot.isWritable_of_isPlain hplain), Snapshot.encode, hsnapshot] at htext
    obtain rfl := Except.ok.inj htext
    rw [Json.pretty, String.toList_ofList]
    decide +kernel
  obtain ⟨r, gs, hsave⟩ : ∃ r gs, s.save {} ⟨["tree.json"]⟩ = (r, gs) := ⟨_, _, rfl⟩
  obtain ⟨-, hload, hsaved, -⟩ := (hloads (start {} .standard) (by decide +kernel)).2 _ _ _ _ hsave
  obtain rfl : r = .ok () := (hsaved hvalid ⟨_, Files.write_name Files.isName_treeFile List.not_mem_nil []⟩).2 hbytes
  obtain ⟨u, hu⟩ := hload rfl (by rw [Files.place_name Files.isName_treeFile]; decide)
  exact ⟨hown, hvalid, l, gs, u, hsave, hu, hsame.trans hsnapshot, hpresent⟩

end Session

end BehaviorTree
