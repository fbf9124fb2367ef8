import BehaviorTree.CommandLine.Run
import BehaviorTree.Proofs.Files
import BehaviorTree.Proofs.Logging.Levels
import BehaviorTree.Proofs.Session.Atomicity
import BehaviorTree.Proofs.Text.Encoding

/-!
The exit code. Where the arguments and the configuration are in order, it says what became of the file: whether it could be read, and
whether its text is a document that is a valid tree. What is neither is not told from a crash: bytes that are no text, numbers beyond the
limits, paths that cannot be handed on, and texts that the output cannot encode.
-/

set_option autoImplicit false

namespace BehaviorTree.CommandLine

variable {fs gs : Files} {environment : Option String} {words : List String} {request : Request} {config : EditorConfig}
  {s t : Session} {path : Path} {task : Task} {file text : String} {l : Loaded}

def Task.file? : Task → Option String
  | .validate file => some file
  | .exportXml file _ => some file
  | .nodeTypes _ => none
  | .serve _ _ _ => none

/-- Does a request ask for a task of the editor itself, with a configuration that loads and without a log file? -/
structure Runs (fs : Files) (environment : Option String) (request : Request) (config : EditorConfig) : Prop where
  task : ∀ host socket reload, request.task ≠ .serve host socket reload
  settings : settings fs environment request = .ok config
  noLogFile : config.logging.file.filter (fun f => !f.isEmpty) = none

theorem Runs.config_eq {config' : EditorConfig} (h : Runs fs environment request config)
    (h' : Runs fs environment request config') : config = config' := Except.ok.inj (h.settings.symm.trans h'.settings)

/-- Is a text no document, or a document that is no valid tree? -/
def IsRejected (config : EditorConfig) (text : String) : Prop :=
  (∃ f, Document.decode (.text text) = .error f ∧ f.isFormat = true) ∨
    ∃ l f, Document.decode (.text text) = .ok l ∧
      Semantics.check l.nodes l.connections config.output.requireSingleRoot = .error f

/-- What a task exports: the tree of its file, to another file. -/
structure Exports (fs : Files) (config : EditorConfig) (task : Task) (output xml : String) : Prop where
  named : ∃ file l s, task = .exportXml file (some output) ∧
    (Session.start config .standard).loadFile fs (Path.ofText file) = (.ok l, s) ∧ s.exportXml = .ok xml
  nonempty : output.isEmpty = false

/-- Does a task open its output, which empties it, and then find that the text cannot be encoded? -/
def EmptiesOutput (fs : Files) (config : EditorConfig) (task : Task) (gs : Files) : Prop :=
  ∃ output xml, Exports fs config task output xml ∧ Text.utf8? xml.toList = none ∧ fs.write (Path.ofText output) [] = (.ok (), gs)

inductive Crashes (fs : Files) (config : EditorConfig) (task : Task) : Prop
  | path (file : String) (f : FileFault) (named : task.file? = some file) (unread : fs.read (Path.ofText file) = .error f)
      (unusable : f.isUnusable = true)
  | bytes (file : String) (bs : List Nat) (named : task.file? = some file) (read : fs.read (Path.ofText file) = .ok bs)
      (noText : ∀ cs, bs ≠ Text.utf8 cs)
  | limits (file text : String) (e : Document.Envelope) (named : task.file? = some file)
      (read : Session.readText fs (Path.ofText file) = .ok text) (checked : Document.checked (.text text) = .ok e)
      (beyond : ¬ e.IsWithinLimits)
  | output (output xml : String) (f : FileFault) (exported : Exports fs config task output xml)
      (unwritten : (fs.write (Path.ofText output) ((Text.utf8? xml.toList).getD [])).1 = .error f) (unusable : f.isUnusable = true)
  | unencodable (gs : Files) (emptied : EmptiesOutput fs config task gs)

theorem validateTree_of_loadSource {source : Value} (hdecode : Document.decode source = .ok l)
    (hcheck : Semantics.check l.nodes l.connections s.config.output.requireSingleRoot = .ok ())
    (hload : s.loadSource source = (.ok l, t)) : t.validateTree = .ok () := by
  obtain ⟨_, hnodes, hconnections, _⟩ := Session.loadSource_eq_ok hload
  obtain ⟨u, hu, htook⟩ := Session.loadSource_of_accepted hdecode hcheck
  obtain rfl : u = t := (Prod.mk.inj (hu.symm.trans hload)).2
  rw [Session.validateTree, hnodes, hconnections, htook.fixed.1, hcheck]

inductive Loads (fs : Files) (s : Session) (path : Path) : Session.Outcome Loaded → Prop
  | path (f : FileFault) (unread : fs.read path = .error f) (unusable : f.isUnusable = true) :
      Loads fs s path (.error (.unusablePath f), s)
  | unreadable (f : FileFault) (read : fs.read path = .error f) : Loads fs s path (.error (.unreadableFile path f), s)
  | bytes (bs : List Nat) (f : Text.EncodingFault) (read : fs.read path = .ok bs) (noText : ∀ cs, bs ≠ Text.utf8 cs) :
      Loads fs s path (.error (.encoding f), s)
  | refused (text : String) (f : Document.Fault) (read : Session.readText fs path = .ok text)
      (decoded : Document.decode (.text text) = .error f) : Loads fs s path (.error (.document f), s)
  | invalid (text : String) (l : Loaded) (f : Semantics.Fault) (read : Session.readText fs path = .ok text)
      (decoded : Document.decode (.text text) = .ok l)
      (checked : Semantics.check l.nodes l.connections s.config.output.requireSingleRoot = .error f) :
      Loads fs s path (.error (.semantic f), s)
  | loaded (text : String) (l : Loaded) (t : Session) (read : Session.readText fs path = .ok text)
      (valid : t.validateTree = .ok ()) : Loads fs s path (.ok l, t)

theorem loadFile_of_unread {f : Session.Fault} (h : Session.readText fs path = .error f) : s.loadFile fs path = (.error f, s) := by
  rw [Session.loadFile, h]

theorem loadFile_of_read (h : Session.readText fs path = .ok text) : s.loadFile fs path = s.loadSource (.text text) := by
  rw [Session.loadFile, h]

theorem loadSource_of_undecoded {source : Value} {f : Document.Fault} (h : Document.decode source = .error f) :
    s.loadSource source = (.error (.document f), s) := by
  rw [Session.loadSource, h]

theorem readText_of_read {bs : List Nat} (h : fs.read path = .ok bs) :
    Session.readText fs path = (Files.decoded bs).mapError .encoding := by
  rw [Session.readText, h]

theorem readText_of_unread {f : FileFault} (h : fs.read path = .error f) :
    Session.readText fs path = .error (if f.isUnusable then .unusablePath f else .unreadableFile path f) := by
  rw [Session.readText, h]

theorem exists_decoded {bs : List Nat} : (∃ text, Files.decoded bs = .ok text) ↔ ∃ cs, bs = Text.utf8 cs := by
  simp only [Files.decoded, map_eq_ok, Text.utf8Chars_eq_ok]
  exact ⟨fun ⟨_, cs, h, _⟩ => ⟨cs, h⟩, fun ⟨cs, h⟩ => ⟨_, cs, h, rfl⟩⟩

theorem exists_readText_eq_error {bs : List Nat} (h : fs.read path = .ok bs) (hno : ∀ cs, bs ≠ Text.utf8 cs) :
    ∃ f, Session.readText fs path = .error (.encoding f) := by
  rw [readText_of_read h]
  cases hdecoded : Files.decoded bs with
  | error f => exact ⟨f, rfl⟩
  | ok text =>
    obtain ⟨cs, hcs⟩ := exists_decoded.1 ⟨text, hdecoded⟩
    exact absurd hcs (hno cs)

theorem loads_of_readText (h : Session.readText fs path = .ok text) : Loads fs s path (s.loadFile fs path) := by
  rw [loadFile_of_read h]
  cases hdecode : Document.decode (.text text) with
  | error f =>
    rw [loadSource_of_undecoded hdecode]
    exact .refused text f h hdecode
  | ok l =>
    cases hcheck : Semantics.check l.nodes l.connections s.config.output.requireSingleRoot with
    | error f =>
      rw [Session.loadSource_of_refused hdecode hcheck]
      exact .invalid text l f h hdecode hcheck
    | ok =>
      obtain ⟨t, hload, _⟩ := Session.loadSource_of_accepted hdecode hcheck
      rw [hload]
      exact .loaded text l t h (validateTree_of_loadSource hdecode hcheck hload)

theorem loads (fs : Files) (s : Session) (path : Path) : Loads fs s path (s.loadFile fs path) := by
  cases hread : fs.read path with
  | error f =>
    rw [loadFile_of_unread (readText_of_unread hread)]
    split_ifs with hunusable
    · exact .path f hread hunusable
    · exact .unreadable f hread
  | ok bs =>
    by_cases htext : ∃ cs, bs = Text.utf8 cs
    · obtain ⟨text, hdecoded⟩ := exists_decoded.2 htext
      exact loads_of_readText (by rw [readText_of_read hread, hdecoded]; rfl)
    · have hno : ∀ cs, bs ≠ Text.utf8 cs := fun cs hcs => htext ⟨cs, hcs⟩
      obtain ⟨f, hf⟩ := exists_readText_eq_error hread hno
      rw [loadFile_of_unread hf]
      exact .bytes bs f hread hno

theorem perform_of_unloaded {f : Session.Fault} (hfile : task.file? = some file)
    (hload : s.loadFile fs (Path.ofText file) = (.error f, t)) : perform s fs task = (.error (.session f), fs) := by
  cases task with
  | validate name =>
    obtain rfl := Option.some.inj hfile
    rw [perform]
    unfold validateTask
    rw [hload]
  | exportXml name output =>
    obtain rfl := Option.some.inj hfile
    rw [perform]
    unfold exportTask
    rw [hload]
  | _ => cases hfile

theorem perform_validate (hload : s.loadFile fs (Path.ofText file) = (.ok l, t)) (hvalid : t.validateTree = .ok ()) :
    perform s fs (.validate file) = (.ok (validityLine l), fs) := by
  rw [perform]
  unfold validateTask
  rw [hload]
  dsimp only
  rw [hvalid]

theorem exists_exportXml (hvalid : s.validateTree = .ok ()) : ∃ xml, s.exportXml = .ok xml := by
  rw [Session.exportXml, hvalid]
  exact ⟨_, rfl⟩

theorem perform_exportXml {output : Option String} {xml : String} (hload : s.loadFile fs (Path.ofText file) = (.ok l, t))
    (hxml : t.exportXml = .ok xml) :
    perform s fs (.exportXml file output) =
      match output.filter fun o => !o.isEmpty with
      | none => (.ok (xml ++ "\n"), fs)
      | some name =>
        let (r, fs) := Session.writeText fs (Path.ofText name) xml
        ((r.map fun () => "").mapError .session, fs) := by
  rw [perform]
  unfold exportTask
  rw [hload]
  dsimp only
  rw [hxml]
  cases output.filter fun o => !o.isEmpty <;> rfl

inductive Ends (fs : Files) (config : EditorConfig) (task : Task) : Except Fault String × Files → Prop
  | done (text : String) (gs : Files) (kept : text.isEmpty = true ∨ gs = fs) : Ends fs config task (.ok text, gs)
  | crashed (f : Fault) (gs : Files) (code : f.code = crashCode) (why : Crashes fs config task)
      (kept : gs.contents = fs.contents ∨ EmptiesOutput fs config task gs) : Ends fs config task (.error f, gs)
  | rejected (f : Fault) (file text : String) (code : f.code = invalidCode) (named : task.file? = some file)
      (read : Session.readText fs (Path.ofText file) = .ok text) (why : IsRejected config text) : Ends fs config task (.error f, fs)
  | failed (f : Fault) (gs : Files) (code : f.code = usageCode) (kept : gs.contents = fs.contents) :
      Ends fs config task (.error f, gs)

theorem ends_write {output : Option String} {name xml : String}
    (hload : (Session.start config .standard).loadFile fs (Path.ofText file) = (.ok l, t)) (hxml : t.exportXml = .ok xml)
    (houtput : output.filter (fun o => !o.isEmpty) = some name) :
    Ends fs config (.exportXml file output) (perform (.start config .standard) fs (.exportXml file output)) := by
  rw [perform_exportXml hload hxml, houtput]
  obtain ⟨rfl, hname⟩ := Option.filter_eq_some_iff.1 houtput
  have hexports : Exports fs config (.exportXml file (some name)) name xml := ⟨⟨file, l, t, rfl, hload, hxml⟩, by simpa using hname⟩
  dsimp only
  unfold Session.writeText
  cases hwrite : fs.write (Path.ofText name) ((Text.utf8? xml.toList).getD []) with
  | mk r gs =>
    cases r with
    | error f =>
      have hkept := Files.contents_of_write_eq_error hwrite
      have hunwritten : (fs.write (Path.ofText name) ((Text.utf8? xml.toList).getD [])).1 = .error f := by rw [hwrite]
      cases hunusable : f.isUnusable with
      | true =>
        have hcode : (Fault.session (Session.unwritable (Path.ofText name) f)).code = crashCode := by
          rw [Session.unwritable, hunusable]
          rfl
        exact .crashed _ gs hcode (.output name xml f hexports hunwritten hunusable) (.inl hkept)
      | false =>
        have hcode : (Fault.session (Session.unwritable (Path.ofText name) f)).code = usageCode := by
          rw [Session.unwritable, hunusable]
          rfl
        exact .failed _ gs hcode hkept
    | ok =>
      cases hbytes : Text.utf8? xml.toList with
      | some bytes => exact .done _ gs (.inl rfl)
      | none =>
        rw [hbytes] at hwrite
        have hemptied : EmptiesOutput fs config (.exportXml file (some name)) gs := ⟨name, xml, hexports, hbytes, hwrite⟩
        exact .crashed _ gs rfl (.unencodable gs hemptied) (.inr hemptied)

theorem ends_loaded (hfile : task.file? = some file)
    (hload : (Session.start config .standard).loadFile fs (Path.ofText file) = (.ok l, t)) (hvalid : t.validateTree = .ok ()) :
    Ends fs config task (perform (.start config .standard) fs task) := by
  cases task with
  | validate name =>
    obtain rfl := Option.some.inj hfile
    rw [perform_validate hload hvalid]
    exact .done _ fs (.inr rfl)
  | exportXml name output =>
    obtain rfl := Option.some.inj hfile
    obtain ⟨xml, hxml⟩ := exists_exportXml hvalid
    cases houtput : output.filter (fun o => !o.isEmpty) with
    | none =>
      rw [perform_exportXml hload hxml, houtput]
      exact .done _ fs (.inr rfl)
    | some name => exact ends_write hload hxml houtput
  | _ => cases hfile

theorem Fault.sessionCode_ne_successCode (f : Session.Fault) : sessionCode f ≠ successCode := by
  unfold sessionCode
  split
  · split_ifs <;> decide
  all_goals decide

theorem code_of_isFormat {f : Document.Fault} (h : f.isFormat = true) : (Fault.session (.document f)).code = invalidCode := if_pos h

theorem code_of_not_isFormat {f : Document.Fault} (h : f.isFormat = false) : (Fault.session (.document f)).code = crashCode :=
  if_neg (by rw [h]; exact Bool.false_ne_true)

theorem ends_refused {f : Document.Fault} (hfile : task.file? = some file) (hread : Session.readText fs (Path.ofText file) = .ok text)
    (hdecoded : Document.decode (.text text) = .error f) : Ends fs config task (.error (.session (.document f)), fs) := by
  rcases Document.decode_eq_error.1 hdecoded with hchecked | ⟨e, hchecked, hlimits⟩
  · have hformat := Document.isFormat_of_checked hchecked
    exact .rejected _ file text (code_of_isFormat hformat) hfile hread (.inl ⟨f, hdecoded, hformat⟩)
  · have hbeyond := Document.exists_toLoaded_eq_error.1 ⟨f, hlimits⟩
    have hcode := code_of_not_isFormat (Document.not_isFormat_of_toLoaded hlimits)
    exact .crashed _ fs hcode (.limits file text e hfile hread hchecked hbeyond) (.inl rfl)

theorem ends_of_file (hfile : task.file? = some file) : Ends fs config task (perform (.start config .standard) fs task) := by
  have h := loads fs (.start config .standard) (Path.ofText file)
  generalize hload : (Session.start config .standard).loadFile fs (Path.ofText file) = outcome at h
  cases h with
  | path f unread unusable =>
    rw [perform_of_unloaded hfile hload]
    exact .crashed _ fs rfl (.path file f hfile unread unusable) (.inl rfl)
  | unreadable f read =>
    rw [perform_of_unloaded hfile hload]
    exact .failed _ fs rfl rfl
  | bytes bs f read noText =>
    rw [perform_of_unloaded hfile hload]
    exact .crashed _ fs rfl (.bytes file bs hfile read noText) (.inl rfl)
  | refused text f read decoded =>
    rw [perform_of_unloaded hfile hload]
    exact ends_refused hfile read decoded
  | invalid text l f read decoded checked =>
    rw [perform_of_unloaded hfile hload]
    exact .rejected _ file text rfl hfile read (.inr ⟨l, f, decoded, checked⟩)
  | loaded text l t read valid => exact ends_loaded hfile hload valid

theorem ends (htask : ∀ host socket reload, task ≠ .serve host socket reload) :
    Ends fs config task (perform (.start config .standard) fs task) := by
  cases task with
  | validate file => exact ends_of_file rfl
  | exportXml file output => exact ends_of_file rfl
  | nodeTypes category => exact .done _ fs (.inr rfl)
  | serve host socket reload => exact absurd rfl (htask host socket reload)

theorem code_of_isRejected (hfile : task.file? = some file) (hread : Session.readText fs (Path.ofText file) = .ok text)
    (h : IsRejected config text) : exitCode (perform (.start config .standard) fs task).1 = invalidCode := by
  have hload := loadFile_of_read (s := .start config .standard) hread
  rcases h with ⟨f, hdecoded, hformat⟩ | ⟨l, f, hdecoded, hchecked⟩
  · rw [loadSource_of_undecoded hdecoded] at hload
    rw [perform_of_unloaded hfile hload]
    exact code_of_isFormat hformat
  · rw [Session.loadSource_of_refused hdecoded hchecked] at hload
    rw [perform_of_unloaded hfile hload]
    rfl

theorem perform_of_exports {output xml : String} (h : Exports fs config task output xml) :
    perform (.start config .standard) fs task =
      let (r, gs) := Session.writeText fs (Path.ofText output) xml
      ((r.map fun () => "").mapError .session, gs) := by
  obtain ⟨file, l, s, rfl, hload, hxml⟩ := h.named
  rw [perform_exportXml hload hxml, Option.filter_some, h.nonempty]
  rfl

theorem code_of_crashes (h : Crashes fs config task) : exitCode (perform (.start config .standard) fs task).1 = crashCode := by
  cases h with
  | path file f named unread unusable =>
    rw [perform_of_unloaded named (loadFile_of_unread (readText_of_unread unread)), unusable]
    rfl
  | bytes file bs named read noText =>
    obtain ⟨f, hf⟩ := exists_readText_eq_error read noText
    rw [perform_of_unloaded named (loadFile_of_unread hf)]
    rfl
  | limits file text e named read checked beyond =>
    obtain ⟨f, hf⟩ := Document.exists_toLoaded_eq_error.2 beyond
    have hload := loadFile_of_read (s := .start config .standard) read
    rw [loadSource_of_undecoded (Document.decode_eq_error.2 (.inr ⟨e, checked, hf⟩))] at hload
    rw [perform_of_unloaded named hload]
    exact code_of_not_isFormat (Document.not_isFormat_of_toLoaded hf)
  | output output xml f exported unwritten unusable =>
    rw [perform_of_exports exported]
    unfold Session.writeText
    generalize fs.write (Path.ofText output) ((Text.utf8? xml.toList).getD []) = r at unwritten
    obtain ⟨r, gs⟩ := r
    obtain rfl := unwritten
    dsimp only
    rw [Session.unwritable, unusable]
    rfl
  | unencodable gs emptied =>
    obtain ⟨output, xml, hexports, hbytes, hwrite⟩ := emptied
    rw [perform_of_exports hexports]
    unfold Session.writeText
    rw [hbytes, Option.getD_none, hwrite]
    rfl

theorem perform_tells (fs : Files) (config : EditorConfig) (htask : ∀ host socket reload, task ≠ .serve host socket reload) :
    let ending := perform (.start config .standard) fs task
    (exitCode ending.1 ∈ [successCode, usageCode, invalidCode] ↔ ¬ Crashes fs config task) ∧
      (exitCode ending.1 = invalidCode ↔
        ∃ file text, task.file? = some file ∧ Session.readText fs (Path.ofText file) = .ok text ∧ IsRejected config text) ∧
      ((∀ text, ending.1 = .ok text → text.isEmpty = false) →
        ending.2.contents = fs.contents ∨ EmptiesOutput fs config task ending.2) := by
  intro ending
  have hcrashes : Crashes fs config task → exitCode ending.1 = crashCode := code_of_crashes
  have hrejected : (∃ file text, task.file? = some file ∧ Session.readText fs (Path.ofText file) = .ok text ∧ IsRejected config text) →
      exitCode ending.1 = invalidCode := fun ⟨_, _, hfile, hread, h⟩ => code_of_isRejected hfile hread h
  have hends : Ends fs config task ending := ends htask
  -- The code tells which way a task went, so that in each case the reasons for the other codes are excluded.
  generalize ending = outcome at hends hcrashes hrejected
  cases hends with
  | done text gs kept =>
    rw [exitCode] at hcrashes hrejected ⊢
    refine ⟨iff_of_true (by decide) fun h => absurd (hcrashes h) (by decide),
      iff_of_false (by decide) fun h => absurd (hrejected h) (by decide), fun h => ?_⟩
    have hprinted := h text rfl
    rcases kept with hempty | rfl
    · rw [hempty] at hprinted
      cases hprinted
    · exact .inl rfl
  | crashed f gs code why kept =>
    rw [exitCode, code] at hrejected ⊢
    exact ⟨iff_of_false (by decide) fun h => h why, iff_of_false (by decide) fun h => absurd (hrejected h) (by decide), fun _ => kept⟩
  | rejected f file text code named read why =>
    rw [exitCode, code] at hcrashes ⊢
    exact ⟨iff_of_true (by decide) fun h => absurd (hcrashes h) (by decide), iff_of_true rfl ⟨file, text, named, read, why⟩,
      fun _ => .inl rfl⟩
  | failed f gs code kept =>
    rw [exitCode, code] at hcrashes hrejected ⊢
    exact ⟨iff_of_true (by decide) fun h => absurd (hcrashes h) (by decide),
      iff_of_false (by decide) fun h => absurd (hrejected h) (by decide), fun _ => .inl kept⟩

/-- Does the program come to the task, with this configuration and these files, once the arguments are understood, the configuration is
loaded and the log file is open? -/
structure Reaches (fs : Files) (environment : Option String) (words : List String) (config : EditorConfig) (task : Task)
    (gs : Files) : Prop where
  asked : ∃ request, readRequest words = .ok request ∧ request.task = task ∧ settings fs environment request = .ok config
  logs : ∃ log, ({ files := fs } : Logging.State).ofConfig config.logging = (.ok (), log) ∧ log.files = gs

theorem Reaches.execute_eq (h : Reaches fs environment words config task gs) :
    execute fs environment words = perform (.start config .standard) gs task := by
  obtain ⟨request, hrequest, rfl, hsettings⟩ := h.asked
  obtain ⟨log, hlog, rfl⟩ := h.logs
  unfold execute
  rw [hrequest]
  dsimp only
  rw [hsettings]
  dsimp only
  rw [hlog]

theorem execute_of_runs (hrequest : readRequest words = .ok request) (h : Runs fs environment request config) :
    execute fs environment words = perform (.start config .standard) fs request.task := by
  obtain ⟨hlog, hfiles⟩ := Logging.State.ofConfig_of_no_file { files := fs } h.noLogFile
  exact Reaches.execute_eq ⟨⟨request, hrequest, rfl, h.settings⟩, _, hlog, hfiles⟩

theorem execute_of_stop (fs : Files) (environment : Option String) {stop : Stop} (h : readRequest words = .error stop) :
    exitCode (execute fs environment words).1 ∈ [successCode, usageCode] ∧ (execute fs environment words).2 = fs := by
  unfold execute
  rw [h]
  cases stop with
  | help p => exact ⟨List.mem_cons_self, rfl⟩
  | wrong p c => exact ⟨List.mem_cons_of_mem _ List.mem_cons_self, rfl⟩

/-- Does the output take what there is to be printed? -/
def IsTaken (takes : String → Bool) (r : Except Fault String) : Prop := ∀ text, r = .ok text → (text.isEmpty || takes text) = true

variable {takes : String → Bool} {r : Except Fault String}

theorem printed_of_isTaken (h : IsTaken takes r) : printed takes r = r := by
  cases r with
  | error f => rfl
  | ok text => exact if_pos (h text rfl)

theorem exists_of_not_isTaken (h : ¬ IsTaken takes r) :
    ∃ text, r = .ok text ∧ text.isEmpty = false ∧ exitCode (printed takes r) = crashCode := by
  cases r with
  | error f => exact absurd (fun _ heq => by cases heq) h
  | ok text =>
    have hnot : ¬ (text.isEmpty || takes text) = true := fun hboth => h fun _ heq => Except.ok.inj heq ▸ hboth
    refine ⟨text, rfl, ?_, ?_⟩
    · rw [Bool.or_eq_true, not_or, Bool.not_eq_true] at hnot
      exact hnot.1
    · rw [printed, if_neg hnot]
      rfl

/-- What the code tells stays true when the output refuses the text, but that the code is then none of the three. -/
theorem printed_tells (takes : String → Bool) {defined rejected kept : Prop} (hdefined : exitCode r ∈ [successCode, usageCode, invalidCode] ↔ defined)
    (hrejected : exitCode r = invalidCode ↔ rejected) (hkept : (∀ text, r = .ok text → text.isEmpty = false) → kept) :
    (exitCode (printed takes r) ∈ [successCode, usageCode, invalidCode] ↔ IsTaken takes r ∧ defined) ∧
      (exitCode (printed takes r) = invalidCode ↔ rejected) ∧ (exitCode (printed takes r) ≠ successCode → kept) := by
  by_cases htaken : IsTaken takes r
  · rw [printed_of_isTaken htaken]
    refine ⟨hdefined.trans (and_iff_right htaken).symm, hrejected, fun hcode => hkept fun text heq => ?_⟩
    rw [heq] at hcode
    exact absurd rfl hcode
  · obtain ⟨text, rfl, hprints, hcode⟩ := exists_of_not_isTaken htaken
    rw [hcode]
    have hsuccess : exitCode (.ok text : Except Fault String) ≠ invalidCode := (by decide : successCode ≠ invalidCode)
    refine ⟨iff_of_false (by decide) fun h => htaken h.1, iff_of_false (by decide) fun h => hsuccess (hrejected.2 h),
      fun _ => hkept fun other heq => ?_⟩
    rw [← Except.ok.inj heq, hprints]

theorem ne_successCode_of_mem {code : Nat} (h : code ∈ [usageCode, invalidCode]) : code ≠ successCode := by
  rintro rfl
  exact absurd h (by decide)

theorem EmptiesOutput.crashes (h : EmptiesOutput fs config task gs) : Crashes fs config task := .unencodable gs h

/-- The exit code of every run whose configuration loads and has no log file. It is zero, two or three unless the output does not take the
text or the task crashes, for which there are five reasons; it is three exactly if a text was read that is rejected. If it is two or three
no file has changed, and if the run crashes none but an output that the text cannot be encoded for. -/
theorem exit_code_tells (fs : Files) (environment : Option String) (words : List String) (takes : String → Bool)
    (h : ∀ request, readRequest words = .ok request → ∃ config, Runs fs environment request config) :
    let outcome := execute fs environment words
    let code := exitCode (printed takes outcome.1)
    (code ∈ [successCode, usageCode, invalidCode] ↔ IsTaken takes outcome.1 ∧
        ∀ request config, readRequest words = .ok request → Runs fs environment request config → ¬ Crashes fs config request.task) ∧
      (code = invalidCode ↔
        ∃ request config file text, readRequest words = .ok request ∧ Runs fs environment request config ∧
          request.task.file? = some file ∧ Session.readText fs (Path.ofText file) = .ok text ∧ IsRejected config text) ∧
      (code ∈ [usageCode, invalidCode] → outcome.2.contents = fs.contents) ∧
      (code = crashCode → outcome.2.contents = fs.contents ∨ ∃ request config, readRequest words = .ok request ∧
        Runs fs environment request config ∧ EmptiesOutput fs config request.task outcome.2) := by
  intro outcome code
  cases hrequest : readRequest words with
  | error stop =>
    obtain ⟨hcode, hfiles⟩ := execute_of_stop fs environment hrequest
    have hdefined : exitCode outcome.1 ∈ [successCode, usageCode, invalidCode] := List.mem_append_left [invalidCode] hcode
    have hvalid : exitCode outcome.1 ≠ invalidCode := fun heq => absurd (heq ▸ hcode) (by decide)
    obtain ⟨htells, hinvalid, -⟩ := printed_tells takes (iff_true_intro hdefined) (iff_false_intro hvalid) fun _ => trivial
    have hkept : outcome.2.contents = fs.contents := congrArg Files.contents hfiles
    refine ⟨htells.trans ⟨fun htaken => ⟨htaken.1, ?_⟩, fun hall => ⟨hall.1, trivial⟩⟩, hinvalid.trans ⟨False.elim, ?_⟩, fun _ => hkept,
      fun _ => .inl hkept⟩
    · rintro _ _ ⟨⟩
    · rintro ⟨_, _, _, _, heq, _⟩
      cases heq
  | ok request =>
    obtain ⟨config, hruns⟩ := h request hrequest
    obtain ⟨hdefined, hinvalid, hkept⟩ := perform_tells fs config hruns.task
    rw [← execute_of_runs hrequest hruns] at hdefined hinvalid hkept
    obtain ⟨htells, hinvalid, hkept⟩ := printed_tells takes hdefined hinvalid hkept
    refine ⟨htells.trans (and_congr_right fun _ => ⟨fun hno request' config' heq hruns' => ?_, fun hall => hall request config rfl hruns⟩),
      hinvalid.trans ⟨fun ⟨file, text, hrest⟩ => ⟨request, config, file, text, rfl, hruns, hrest⟩, ?_⟩, fun hcode => ?_, fun hcode => ?_⟩
    · obtain rfl := Except.ok.inj heq
      rwa [hruns'.config_eq hruns]
    · rintro ⟨request', config', file, text, heq, hruns', hrest⟩
      obtain rfl := Except.ok.inj heq
      rw [hruns'.config_eq hruns] at hrest
      exact ⟨file, text, hrest⟩
    · rcases hkept (ne_successCode_of_mem hcode) with hsame | hemptied
      · exact hsame
      · exact absurd hemptied.crashes (htells.1 (List.mem_cons_of_mem _ hcode)).2
    · have hne : code ≠ successCode := by
        rw [hcode]
        decide
      exact (hkept hne).imp_right fun hemptied => ⟨request, config, rfl, hruns, hemptied⟩

def oneFile (bytes : List Nat) : Files := .ofTable [("tree.json", bytes)]

def validateWords : List String := ["validate", "tree.json"]

theorem readRequest_validateWords : readRequest validateWords = .ok ⟨none, none, .validate "tree.json"⟩ := by rfl

theorem oneFile_eq (bytes : List Nat) : oneFile bytes = { contents := [(["tree.json"], bytes)] } := by
  have hpath : Path.ofText "tree.json" = ⟨["tree.json"]⟩ := by decide +kernel
  rw [oneFile, Files.ofTable, List.map_singleton, hpath]
  rfl

theorem read_oneFile (bytes : List Nat) : (oneFile bytes).read (Path.ofText "tree.json") = .ok bytes := by
  have hpath : Path.ofText "tree.json" = ⟨["tree.json"]⟩ := by decide +kernel
  have hname := Files.isName_treeFile
  rw [hpath, oneFile_eq]
  refine Files.read_eq_ok.2 ⟨_, Files.place_name hname _, ?_⟩
  simp [Files.entry, Files.isGiven_name hname, Files.systemDirectories, Files.sink]

theorem runs_validateWords (bytes : List Nat) : Runs (oneFile bytes) none ⟨none, none, .validate "tree.json"⟩ {} where
  task _ _ _ := nofun
  settings := rfl
  noLogFile := rfl

/-- An object that is not closed. -/
theorem openObject_is_rejected :
    (∀ request, readRequest validateWords = .ok request → ∃ config, Runs (oneFile [0x7B]) none request config) ∧
      exitCode (printed (fun _ => true) (execute (oneFile [0x7B]) none validateWords).1) = invalidCode := by
  have hruns : ∀ request, readRequest validateWords = .ok request → ∃ config, Runs (oneFile [0x7B]) none request config := by
    rintro request h
    obtain rfl := Except.ok.inj (readRequest_validateWords.symm.trans h)
    exact ⟨{}, runs_validateWords _⟩
  have hdecoded : Files.decoded [0x7B] = .ok "\x7b" := by rfl
  have hread : Session.readText (oneFile [0x7B]) (Path.ofText "tree.json") = .ok "\x7b" := by
    rw [readText_of_read (read_oneFile _), hdecoded]
    rfl
  have hfault : (match Document.decode (.text "\x7b") with | .ok _ => false | .error f => f.isFormat) = true := by decide +kernel
  have hrejected : IsRejected {} "\x7b" := by
    cases hdecoded : Document.decode (.text "\x7b") with
    | ok l =>
      rw [hdecoded] at hfault
      cases hfault
    | error f =>
      rw [hdecoded] at hfault
      exact .inl ⟨f, hdecoded, hfault⟩
  exact ⟨hruns, (exit_code_tells (oneFile [0x7B]) none validateWords (fun _ => true) hruns).2.1.2
    ⟨_, {}, "tree.json", "\x7b", readRequest_validateWords, runs_validateWords _, rfl, hread, hrejected⟩⟩

/-- A byte that starts no character. The file can be read, but what is in it is not even rejected. -/
theorem strayByte_crashes :
    (∃ bytes, (oneFile [0xFF]).read (Path.ofText "tree.json") = .ok bytes) ∧
      exitCode (printed (fun _ => true) (execute (oneFile [0xFF]) none validateWords).1) ∉ [successCode, usageCode, invalidCode] :=
  ⟨⟨[0xFF], read_oneFile _⟩, by decide +kernel⟩

def halfBytes : List Nat :=
  Text.utf8 ("\x7b\"nodes\": [\x7b\"id\": \"a\", \"type\": \"AlwaysSuccess\", \"category\": \"action\", \"x\": 0, \"y\": 0, " ++
    "\"properties\": \x7b\"msg\": \"\\ud800\"\x7d\x7d], \"connections\": []\x7d").toList

-- The tree is valid, but its export leaves an empty file.
example : (execute (oneFile halfBytes) none ["export", "tree.json", "-o", "out.xml"]).map exitCode Files.contents =
    (crashCode, [(["tree.json"], halfBytes), (["out.xml"], [])]) := by decide +kernel

end BehaviorTree.CommandLine
