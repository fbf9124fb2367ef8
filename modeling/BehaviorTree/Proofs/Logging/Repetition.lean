import BehaviorTree.Proofs.Json.Halves
import BehaviorTree.Proofs.Logging.Levels

/-!
Setting up logging again. A configuration that is applied a second time changes no level and puts a new handler of the stream in the place
of the old one. Only the handler of a log file is added to what is there, so that each record comes to that file once more.
-/

set_option autoImplicit false

namespace BehaviorTree

namespace Logging

/-- Does a line arrive where it is to go? A file takes none that cannot be encoded. -/
def Target.takes (t : Target) (line : String) : Bool :=
  match t with
  | .stream => true
  | .file _ => (Text.utf8? (line ++ "\n").toList).isSome

/-- What a handler makes of a record: nothing, or a line. -/
def Handler.line? (h : Handler) (r : Record) : Option String :=
  if (Number.int h.level).le r.level then (r.line? h.json).filter h.target.takes else none

namespace State

/-- The lines that are written of a record, in their order, each with the place it goes to. -/
def written (s : State) (r : Record) : List (Target × String) :=
  if s.isEnabled r.logger r.level then
    if s.handlers.isEmpty then
      if (Number.int warning).le r.level then (r.message?.map fun m => (Target.stream, r.bare m)).toList else []
    else s.handlers.filterMap fun h => (h.line? r).map fun line => (h.target, line)
  else []

def linesTo (s : State) (target : Target) (r : Record) : List String :=
  ((s.written r).filter fun w => w.1 = target).map Prod.snd

variable {s t : State} {c : LoggingConfig} {r : Record}

theorem emit_of_not_takes {target : Target} {line : String} (h : target.takes line = false) (s : State) : s.emit target line = s := by
  cases target with
  | stream => cases h
  | file path =>
    have hnone : Text.utf8? (line ++ "\n").toList = none := Option.isNone_iff_eq_none.1 (Option.isSome_eq_false_iff.1 h)
    rw [emit, hnone]
    cases s.files.read path <;> rfl

theorem handleWith_eq (r : Record) (s : State) (h : Handler) :
    handleWith r s h = ((h.line? r).map fun line => (h.target, line)).elim s fun w => s.emit w.1 w.2 := by
  unfold handleWith Handler.line?
  cases r.line? h.json with
  | none => split_ifs <;> rfl
  | some line =>
    dsimp only
    split_ifs
    · rw [Option.filter_some]
      split_ifs with htakes
      · rfl
      · exact emit_of_not_takes (Bool.eq_false_iff.2 htakes) s
    · rfl

theorem log_eq (s : State) (r : Record) :
    s.log r = (s.isEnabled r.logger r.level, (s.written r).foldl (fun s w => s.emit w.1 w.2) s) := by
  unfold log written
  split_ifs with henabled hempty hlevel
  · rw [henabled]
    unfold handle
    cases r.message? <;> simp [hempty, hlevel]
  · rw [henabled]
    unfold handle
    cases r.message? <;> simp [hempty, hlevel]
  · rw [henabled, handle, if_neg hempty, List.foldl_filterMap]
    refine congrArg (Prod.mk true) (List.foldl_ext _ _ _ fun s h _ => ?_)
    rw [handleWith_eq]
    cases h.line? r <;> rfl
  · rw [Bool.eq_false_iff.2 henabled]
    rfl

theorem linesTo_eq (hhandlers : s.handlers ≠ []) (target : Target) (r : Record) :
    s.linesTo target r =
      if s.isEnabled r.logger r.level then (s.handlers.filter fun h => h.target = target).filterMap fun h => h.line? r else [] := by
  unfold linesTo written
  rw [if_neg fun hempty : s.handlers.isEmpty = true => hhandlers (List.isEmpty_iff.1 hempty)]
  split_ifs
  · clear hhandlers
    induction s.handlers with
    | nil => rfl
    | cons h rest ih => by_cases htarget : h.target = target <;> cases hline : h.line? r <;> simp_all
  · rfl

theorem isEnabled_congr (hroot : s.rootLevel = t.rootLevel) (hlevels : ∀ name, Table.lookup s.levels name = Table.lookup t.levels name)
    (logger : String) (level : Number) : s.isEnabled logger level = t.isEnabled logger level := by
  unfold isEnabled effectiveLevel
  simp only [hroot, hlevels]

/-- To set the levels of a table gives each name one level, or leaves it the one it has, whatever the state is. -/
theorem exists_lookup_setLevels (t : Table Int) (name : String) :
    ∃ level? : Option Int, ∀ s : State, Table.lookup (s.setLevels t).levels name = level?.or (Table.lookup s.levels name) := by
  induction t with
  | nil => exact ⟨none, fun _ => rfl⟩
  | cons entry rest ih =>
    obtain ⟨level?, hrest⟩ := ih
    by_cases hset : isRootName entry.1 = false ∧ entry.1 = name
    · obtain ⟨hroot, rfl⟩ := hset
      refine ⟨level?.or (some entry.2), fun s => ?_⟩
      rw [setLevels, List.foldl_cons, ← setLevels, hrest, setLevel_eq, if_neg (by simp [hroot]), Table.lookup_insert, if_pos rfl,
        Option.or_assoc]
      rfl
    · refine ⟨level?, fun s => ?_⟩
      rw [setLevels, List.foldl_cons, ← setLevels, hrest, setLevel_eq]
      split_ifs with hroot
      · rfl
      · rw [Table.lookup_insert, if_neg fun h => hset ⟨Bool.eq_false_iff.2 hroot, h⟩]

theorem exists_lookup_leveled (c : LoggingConfig) (name : String) :
    ∃ level? : Option Int, ∀ s : State, Table.lookup (s.leveled c).levels name = level?.or (Table.lookup s.levels name) := by
  obtain ⟨editor?, heditor⟩ := exists_lookup_setLevels (namespaces.map fun n => (n, c.overall)) name
  obtain ⟨noisy?, hnoisy⟩ := exists_lookup_setLevels (noisyLibraries.map fun n => (n, max c.overall warning)) name
  obtain ⟨configured?, hconfigured⟩ := exists_lookup_setLevels (Table.mapValues levelNamed c.namespaces) name
  refine ⟨configured?.or (noisy?.or editor?), fun s => ?_⟩
  rw [leveled, setup, hconfigured, hnoisy, heditor, Option.or_assoc, Option.or_assoc]

theorem lookup_leveled_again (hs : s.levels = (t.leveled c).levels) (name : String) :
    Table.lookup (s.leveled c).levels name = Table.lookup s.levels name := by
  obtain ⟨level?, hlevel⟩ := exists_lookup_leveled c name
  rw [hlevel, hs, hlevel, ← Option.or_assoc, Option.or_self]

theorem handlers_leveled (s : State) (c : LoggingConfig) :
    (s.leveled c).handlers = s.handlers.filter (fun h => !isStream h) ++ [Handler.mk .stream c.overall c.jsonLines] := by
  rw [leveled, (keptBy_setLevels _).1, setup, (keptBy_setLevels _).1, (keptBy_setLevels _).1]

end State

end Logging

open Logging

/-- The log file of a configuration; an empty name is none. -/
def LoggingConfig.logFile? (c : LoggingConfig) : Option Path := (c.file.filter fun f => !f.isEmpty).map Path.ofText

namespace Logging.State

variable {s t : State} {c : LoggingConfig}

theorem ofConfig_eq (s : State) (c : LoggingConfig) :
    s.ofConfig c =
      match c.logFile? with
      | none => (.ok (), s.leveled c)
      | some path => (s.leveled c).addFile path c.overall true := by
  unfold ofConfig LoggingConfig.logFile?
  cases c.file.filter fun f => !f.isEmpty <;> rfl

def fileHandlers (c : LoggingConfig) (outcome : Except FileFault Unit) : List Handler :=
  match c.logFile? with
  | none => []
  | some path => if outcome.isOk then [Handler.mk (.file path) c.overall true] else []

theorem handlers_ofConfig (s : State) (c : LoggingConfig) :
    (s.ofConfig c).2.handlers =
      s.handlers.filter (fun h => !isStream h) ++ [Handler.mk .stream c.overall c.jsonLines] ++ fileHandlers c (s.ofConfig c).1 := by
  rw [ofConfig_eq, fileHandlers]
  cases c.logFile? with
  | none => simp [handlers_leveled]
  | some path => simp only [addFile_eq, handlers_leveled]

theorem levels_ofConfig (s : State) (c : LoggingConfig) :
    (s.ofConfig c).2.levels = (s.leveled c).levels ∧ (s.ofConfig c).2.rootLevel = c.rootLevel := by
  rw [ofConfig_eq]
  cases c.logFile? with
  | none => exact ⟨rfl, rootLevel_leveled ..⟩
  | some path =>
    simp only [addFile_eq]
    exact ⟨trivial, rootLevel_leveled ..⟩

theorem isEnabled_ofConfig_again (s : State) (c : LoggingConfig) (logger : String) (level : Number) :
    ((s.ofConfig c).2.ofConfig c).2.isEnabled logger level = (s.ofConfig c).2.isEnabled logger level := by
  obtain ⟨hlevels, hroot⟩ := levels_ofConfig s c
  obtain ⟨hlevels', hroot'⟩ := levels_ofConfig (s.ofConfig c).2 c
  refine isEnabled_congr (hroot'.trans hroot.symm) (fun name => ?_) logger level
  rw [hlevels', lookup_leveled_again hlevels]

theorem target_of_mem_fileHandlers {outcome : Except FileFault Unit} {h : Handler} (hmem : h ∈ fileHandlers c outcome) :
    ∃ path, c.logFile? = some path ∧ h.target = .file path := by
  unfold fileHandlers at hmem
  split at hmem
  · cases hmem
  · rename_i path hpath
    split_ifs at hmem
    · exact ⟨path, hpath, by rw [List.mem_singleton.1 hmem]⟩
    · cases hmem

theorem filter_target_fileHandlers {outcome : Except FileFault Unit} {target : Target}
    (htarget : ∀ path, c.logFile? = some path → target ≠ .file path) :
    (fileHandlers c outcome).filter (fun h => h.target = target) = [] := by
  rw [List.filter_eq_nil_iff]
  intro h hmem
  obtain ⟨path, hpath, hfile⟩ := target_of_mem_fileHandlers hmem
  rw [hfile, decide_eq_true_eq]
  exact (htarget path hpath).symm

theorem filter_isStream_fileHandlers (c : LoggingConfig) (outcome : Except FileFault Unit) :
    (fileHandlers c outcome).filter (fun h => !isStream h) = fileHandlers c outcome := by
  rw [List.filter_eq_self]
  intro h hmem
  obtain ⟨path, -, hfile⟩ := target_of_mem_fileHandlers hmem
  simp [isStream, hfile]

theorem linesTo_ofConfig_again (s : State) (c : LoggingConfig) (target : Target) (r : Record) :
    ((s.ofConfig c).2.ofConfig c).2.linesTo target r =
      (s.ofConfig c).2.linesTo target r ++
        if (s.ofConfig c).2.isEnabled r.logger r.level then
          ((fileHandlers c ((s.ofConfig c).2.ofConfig c).1).filter fun h => h.target = target).filterMap fun h => h.line? r
        else [] := by
  have hne : ∀ s : State, (s.ofConfig c).2.handlers ≠ [] := fun s => by simp [handlers_ofConfig]
  have hkept : (s.ofConfig c).2.handlers.filter (fun h => !isStream h) =
      s.handlers.filter (fun h => !isStream h) ++ fileHandlers c (s.ofConfig c).1 := by
    rw [handlers_ofConfig, List.filter_append, List.filter_append, filter_isStream_fileHandlers, List.filter_filter]
    simp [isStream]
  rw [linesTo_eq (hne _), linesTo_eq (hne _), isEnabled_ofConfig_again, handlers_ofConfig (s.ofConfig c).2, hkept, handlers_ofConfig s]
  split_ifs
  · simp only [List.filter_append, List.filterMap_append]
    by_cases htarget : target = .stream
    · rw [htarget, filter_target_fileHandlers (by simp), filter_target_fileHandlers (by simp)]
      simp
    · have hstream : Target.stream ≠ target := fun h => htarget h.symm
      simp [hstream]
  · rfl

theorem isPlain_levelName (level : Int) : Text.IsPlain (levelName (.int level)).toList := by
  have hnames : ∀ n ∈ levelNames, Text.IsPlain n.2.toList := by decide
  unfold levelName
  split
  · exact hnames _ (List.mem_of_find?_eq_some ‹_›)
  · have hnumber : (Number.int level).toValue.written.toList = Decimal.intText level := String.toList_ofList
    rw [String.toList_append, hnumber]
    exact Text.isPlain_append.2 ⟨by decide, (Decimal.isNumeric_intText level).isAscii.isPlain⟩

theorem line?_blankRecord (level : Int) : (blankRecord "" level).line? true =
    some (Json.compact (.object ([("ts", "1970-01-01T00:00:00"), ("level", levelName (.int level)), ("logger", "root"), ("message", ""),
      ("where", "mod:1")].map fun m => (m.1, .text m.2)))) := by
  have hmessage : (blankRecord "" level).message? = some "" := rfl
  have hepoch : Record.timeAt? 0 = some "1970-01-01T00:00:00" := by decide +kernel
  have htime : (blankRecord "" level).time? = some "1970-01-01T00:00:00" := hepoch
  have hwritable : (blankRecord "" level).isWritable true = true := rfl
  have hmodule : Record.moduleOf "mod.py" ++ ":" ++ (Value.int 1).written = "mod:1" := by decide +kernel
  have hlocation : (blankRecord "" level).module ++ ":" ++ (blankRecord "" level).line.written = "mod:1" := hmodule
  simp only [Record.line?, hmessage, htime, hwritable, if_true, Option.bind_eq_bind, Option.bind_some, Record.jsonLine, hlocation]
  rfl

theorem takes_compact (path : Path) (v : Value) : (Target.file path).takes (Json.compact v) = !v.hasHalf := by
  have hadds := Json.isScan_hasHalf.adds_line v ['\n']
  have hnewline : Text.hasHalf ['\n'] = false := by decide
  have hend : "\n".toList = ['\n'] := rfl
  rw [hnewline, Bool.or_false] at hadds
  rw [Target.takes, Text.isSome_utf8?, String.toList_append, Json.compact, String.toList_ofList, hend, hadds]
  rfl

theorem takes_blankRecord (path : Path) (level : Int) {line : String} (h : (blankRecord "" level).line? true = some line) :
    (Target.file path).takes line := by
  obtain rfl := Option.some.inj ((line?_blankRecord level).symm.trans h)
  rw [takes_compact, Bool.not_eq_true', Value.hasHalf]
  have hlevel := Text.hasHalf_of_isPlain (isPlain_levelName level)
  simp only [List.map_cons, List.map_nil, Value.someAtom, Value.someMemberAtom, Value.scalar?, Option.any_some, Scalar.hasHalf, hlevel]
  decide +kernel

theorem exists_enabled_line (s : State) (path : Path) (threshold : Int) :
    ∃ r, s.isEnabled r.logger r.level = true ∧ ∃ line, (Handler.mk (.file path) threshold true).line? r = some line := by
  have hpos : ∃ level : Int, 0 < level ∧ s.effectiveLevel "" ≤ level ∧ threshold ≤ level :=
    ⟨max 1 (max (s.effectiveLevel "") threshold), by omega, by omega, by omega⟩
  obtain ⟨level, hpos, henough, hhandled⟩ := hpos
  obtain ⟨line, hline⟩ := blankRecord_has_line true "" level
  refine ⟨blankRecord "" level, ?_, line, ?_⟩
  · have hnot : ¬ (Number.int level).le (.int 0) = true := fun hle => by rw [Number.int_le_int] at hle; omega
    rw [isEnabled, if_neg (by simp [blankRecord]), Bool.and_eq_true, Bool.not_eq_true']
    exact ⟨Bool.eq_false_iff.2 hnot, Number.int_le_int.2 henough⟩
  · have hreaches : (Number.int threshold).le (blankRecord "" level).level := Number.int_le_int.2 hhandled
    rw [Handler.line?, if_pos hreaches, hline, Option.filter_some, if_pos (takes_blankRecord path level hline)]

/-- A configuration that is applied again changes nothing of what is written to the stream and to the files, but for its own log file:
each record comes there once more, unless the file cannot be written. -/
theorem configured_again_iff (s : State) (c : LoggingConfig) :
    let once := (s.ofConfig c).2
    let again := once.ofConfig c
    (∀ target, (∀ path, c.logFile? = some path → target ≠ .file path) → ∀ r, again.2.linesTo target r = once.linesTo target r) ∧
    ((∀ target r, again.2.linesTo target r = once.linesTo target r) ↔ c.logFile? = none ∨ again.1.isOk = false) := by
  intro once again
  have hadded : ∀ target r, again.2.linesTo target r = once.linesTo target r ++
      if once.isEnabled r.logger r.level then
        ((fileHandlers c again.1).filter fun h => h.target = target).filterMap fun h => h.line? r
      else [] := linesTo_ofConfig_again s c
  refine ⟨fun target htarget r => ?_, fun hsame => ?_, fun hnone target r => ?_⟩
  · rw [hadded, filter_target_fileHandlers htarget]
    simp
  · by_contra hfile
    rw [not_or, Bool.not_eq_false] at hfile
    obtain ⟨path, hpath⟩ := Option.ne_none_iff_exists'.1 hfile.1
    have hhandlers : fileHandlers c again.1 = [Handler.mk (.file path) c.overall true] := by
      simp [fileHandlers, hpath, hfile.2]
    obtain ⟨r, henabled, line, hline⟩ := exists_enabled_line once path c.overall
    have hagain := hadded (.file path) r
    rw [hsame, if_pos henabled, hhandlers] at hagain
    simp [hline] at hagain
  · have hhandlers : fileHandlers c again.1 = [] := by
      unfold fileHandlers
      rcases hnone with hnone | hfailed
      · simp [hnone]
      · cases c.logFile? <;> simp [hfailed]
    rw [hadded, hhandlers]
    simp

end Logging.State

namespace Logging

def keptLog : LoggingConfig := { file := some "editor.log" }

def keptPath : Path := Path.ofText "editor.log"

def keptFiles (bytes : List Nat) : Files := { contents := [(["editor.log"], bytes)] }

theorem keptPath_eq : keptPath = ⟨["editor.log"]⟩ := by decide

theorem isName_kept : Files.IsName "editor.log" := ⟨by decide +kernel, by decide +kernel, by decide, by decide⟩

theorem read_kept (bytes : List Nat) : (keptFiles bytes).read keptPath = .ok bytes := by
  rw [keptPath_eq]
  exact Files.read_eq_ok.2 ⟨_, Files.place_name isName_kept _, rfl⟩

theorem write_kept (bytes more : List Nat) : (keptFiles bytes).write keptPath more = (.ok (), keptFiles more) := by
  rw [keptPath_eq]
  exact Files.write_name isName_kept List.not_mem_nil more

theorem files_emit_kept {s : State} {bytes more : List Nat} {line : String} (hs : s.files = keptFiles bytes)
    (hmore : Text.utf8? (line ++ "\n").toList = some more) : (s.emit (.file keptPath) line).files = keptFiles (bytes ++ more) := by
  rw [State.emit, hs, read_kept, hmore]
  dsimp only
  rw [write_kept]

theorem files_emit_stream (s : State) (line : String) : (s.emit .stream line).files = s.files := rfl

/-- After a second set-up of the same logging each record comes to the log file twice. -/
theorem keptLog_twice :
    let once := (State.ofConfig {} keptLog).2
    let again := (once.ofConfig keptLog).2
    let record : Record := { logger := "bteditor", level := .int 30, template := "full" }
    let line := "\x7b\"ts\": \"1970-01-01T00:00:00\", \"level\": \"WARNING\", \"logger\": \"bteditor\", " ++
      "\"message\": \"full\", \"where\": \"mod:1\"\x7d"
    (once.log record).2.files = keptFiles (Text.utf8 (line ++ "\n").toList) ∧
      (again.log record).2.files = keptFiles (Text.utf8 (line ++ "\n").toList ++ Text.utf8 (line ++ "\n").toList) := by
  intro once again record line
  have hline : record.line? true = some line := by decide +kernel
  obtain ⟨text, htext⟩ : ∃ text, record.line? false = some text := Option.isSome_iff_exists.1 (by decide +kernel)
  have hbytes : Text.utf8? (line ++ "\n").toList = some (Text.utf8 (line ++ "\n").toList) := Text.utf8?_of_isPlain (by decide +kernel)
  clear_value line
  have htakes : (Target.file keptPath).takes line = true := by rw [Target.takes, hbytes]; rfl
  have hstream : Target.stream.takes text = true := rfl
  have hfiles : once.files = keptFiles [] ∧ again.files = keptFiles [] := by decide +kernel
  have honce : once.written record = [(.stream, text), (.file keptPath, line)] := by
    have henabled : once.isEnabled record.logger record.level = true := by decide +kernel
    have hhandlers : once.handlers = [⟨.stream, 20, false⟩, ⟨.file keptPath, 20, true⟩] := by decide +kernel
    have hlevel : (Number.int 20).le record.level = true := by decide
    simp [State.written, henabled, hhandlers, Handler.line?, hlevel, hline, htext, Option.filter_some, htakes, hstream]
  have hagain : again.written record = [(.file keptPath, line), (.stream, text), (.file keptPath, line)] := by
    have henabled : again.isEnabled record.logger record.level = true := by decide +kernel
    have hhandlers : again.handlers = [⟨.file keptPath, 20, true⟩, ⟨.stream, 20, false⟩, ⟨.file keptPath, 20, true⟩] := by decide +kernel
    have hlevel : (Number.int 20).le record.level = true := by decide
    simp [State.written, henabled, hhandlers, Handler.line?, hlevel, hline, htext, Option.filter_some, htakes, hstream]
  rw [State.log_eq, State.log_eq, honce, hagain]
  simp only [List.foldl_cons, List.foldl_nil]
  exact ⟨files_emit_kept ((files_emit_stream ..).trans hfiles.1) hbytes,
    files_emit_kept ((files_emit_stream ..).trans (files_emit_kept hfiles.2 hbytes)) hbytes⟩

end Logging

end BehaviorTree
