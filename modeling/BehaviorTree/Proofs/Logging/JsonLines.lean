import BehaviorTree.Proofs.Json.Reading
import BehaviorTree.Proofs.Json.Standard
import BehaviorTree.Proofs.Logging.Repetition

/-!
Log files are read back. Each record that the handler of a log file accepts adds one line to the file, whatever the other handlers do, if
the record can be stored at all: halves of characters, integers that are too long and times beyond the calendar keep it out of the file.
Each line is read as an object that tells what the record holds: no text in it breaks the line, and no field of the context hides another
member. The object is one of standard JSON as long as there are no infinite numbers in the context.
-/

set_option autoImplicit false

namespace BehaviorTree

namespace Text

variable {separator : Char}

theorem split_append {cs : List Char} (h : separator ∉ cs) (rest : List Char) :
    split separator (cs ++ separator :: rest) = cs :: split separator rest := by
  induction cs with
  | nil => exact if_pos rfl
  | cons c r ih =>
    obtain ⟨hc, hr⟩ := List.ne_and_not_mem_of_not_mem_cons h
    rw [List.cons_append, split, if_neg hc.symm, ih hr]

/-- Parts without separators, each with one behind it, are what the text is split into; an empty part is left at the end. -/
theorem split_flatMap {parts : List (List Char)} (h : ∀ p ∈ parts, separator ∉ p) :
    split separator (parts.flatMap fun p => p ++ [separator]) = parts ++ [[]] := by
  induction parts with
  | nil => rfl
  | cons p r ih =>
    obtain ⟨hp, hr⟩ := List.forall_mem_cons.1 h
    rw [List.flatMap_cons, List.append_assoc, List.singleton_append, split_append hp, ih hr, List.cons_append]

theorem utf8?_append {cs ds : List Char} {bytes more : List Nat} (hcs : utf8? cs = some bytes) (hds : utf8? ds = some more) :
    utf8? (cs ++ ds) = some (bytes ++ more) := by
  obtain ⟨es, rfl, rfl⟩ := utf8?_eq_some.1 hcs
  obtain ⟨fs, rfl, rfl⟩ := utf8?_eq_some.1 hds
  exact utf8?_eq_some.2 ⟨es ++ fs, List.flatMap_append.symm, List.flatMap_append⟩

theorem utf8?_flatMap {α : Type} {as : List α} {f : α → List Char} (h : ∀ a ∈ as, (utf8? (f a)).isSome = true) :
    utf8? (as.flatMap f) = some (as.flatMap fun a => (utf8? (f a)).getD []) := by
  induction as with
  | nil => rfl
  | cons a r ih =>
    obtain ⟨ha, hr⟩ := List.forall_mem_cons.1 h
    obtain ⟨bytes, hbytes⟩ := Option.isSome_iff_exists.1 ha
    rw [List.flatMap_cons, List.flatMap_cons, hbytes]
    exact utf8?_append hbytes (ih hr)

end Text

namespace Value

theorem anyMemberScalar_eq (p : Scalar → Bool) (ms : List (String × Value)) : anyMemberScalar p ms = ms.any fun m => m.2.anyScalar p := by
  induction ms with
  | nil => rfl
  | cons m r ih => rw [anyMemberScalar, ih, List.any_cons]

theorem membersJson_iff {ms : List (String × Value)} : membersJson ms = true ↔ ∀ m ∈ ms, m.2.isJson = true := by
  induction ms with
  | nil => simp [membersJson]
  | cons m r ih => rw [membersJson, Bool.and_eq_true, ih, List.forall_mem_cons]

end Value

namespace Logging

namespace Record

def members (r : Record) (time message : String) : Table Value :=
  [("ts", .text time), ("level", .text (levelName r.level)), ("logger", .text r.loggerName), ("message", .text message),
    ("where", .text (r.module ++ ":" ++ r.line.written))] ++ r.context ++
    (r.exception.map fun e => ("exc_info", Value.text e)).toList

/-- Does an object tell all of the record: its time, level, logger, message, place and error, and of its other fields those of the
context? -/
structure IsTold (r : Record) (ms : Table Value) : Prop where
  time : ∃ time, r.time? = some time ∧ Table.lookup ms "ts" = some (.text time)
  level : Table.lookup ms "level" = some (.text (levelName r.level))
  logger : Table.lookup ms "logger" = some (.text r.loggerName)
  message : ∃ message, r.message? = some message ∧ Table.lookup ms "message" = some (.text message)
  location : Table.lookup ms "where" = some (.text (r.module ++ ":" ++ r.line.written))
  error : Table.lookup ms "exc_info" = r.exception.map fun e => .text e
  context : ∀ name ∈ contextNames, Table.lookup ms name = Table.lookup r.extra name

variable {r : Record} {time message : String}

theorem jsonLine_eq (r : Record) (time message : String) : r.jsonLine time message = Json.compact (.object (r.members time message)) := rfl

theorem nodup_members (r : Record) (time message : String) : (Table.keys (r.members time message)).Nodup := by
  have hnames : (["ts", "level", "logger", "message", "where"] ++ contextNames ++ ["exc_info"]).Nodup := by decide
  refine hnames.sublist ?_
  rw [members, Table.keys_append, Table.keys_append, context, Table.keys_filterMap_key]
  refine ((List.Sublist.refl _).append List.filter_sublist).append ?_
  cases r.exception with
  | none => exact List.nil_sublist _
  | some e => exact List.Sublist.refl _

theorem isTold_members (htime : r.time? = some time) (hmessage : r.message? = some message) : r.IsTold (r.members time message) := by
  have hcontext : ∀ name, Table.lookup r.context name = if name ∈ contextNames then Table.lookup r.extra name else none :=
    fun name => Table.lookup_filterMap_key ..
  refine ⟨⟨time, htime, rfl⟩, rfl, rfl, ⟨message, hmessage, rfl⟩, rfl, ?_, fun name hname => ?_⟩
  · rw [members, Table.lookup_append, Table.lookup_append, hcontext]
    cases r.exception <;> rfl
  · rw [members, Table.lookup_append, Table.lookup_append, hcontext, if_pos hname]
    have herror : Table.lookup (r.exception.map fun e => ("exc_info", Value.text e)).toList name = none := by
      cases r.exception with
      | none => rfl
      | some e => exact if_neg fun h => absurd hname (by rw [← h]; decide)
    rw [herror, Option.or_none]
    fin_cases hname <;> rfl

theorem isJson_members (h : ∀ v ∈ Table.values r.context, v.isJson = true) (time message : String) :
    (Value.object (r.members time message)).isJson = true := by
  rw [Value.isJson, Bool.and_eq_true, decide_eq_true_eq, Value.membersJson_iff]
  refine ⟨nodup_members r time message, fun m hm => ?_⟩
  rw [members, List.mem_append, List.mem_append] at hm
  rcases hm with (hm | hm) | hm
  · fin_cases hm <;> rfl
  · exact h m.2 (List.mem_map_of_mem hm)
  · cases he : r.exception <;> simp [he] at hm
    rw [hm]
    rfl

theorem anyScalar_members {p : Scalar → Bool} (htext : ∀ s, p (.text s) = false) (r : Record) (time message : String) :
    (Value.object (r.members time message)).anyScalar p = r.context.any fun f => f.2.anyScalar p := by
  rw [Value.anyScalar, Value.anyMemberScalar_eq, members, List.any_append, List.any_append]
  cases r.exception <;> simp [Value.anyScalar, Value.scalar?, htext]

theorem newline_not_mem_jsonLine (r : Record) (time message : String) : '\n' ∉ (r.jsonLine time message).toList := by
  rw [jsonLine_eq, Json.compact, String.toList_ofList]
  exact (Json.isInline_line _).not_mem_newline

def stored? (r : Record) : Option String := (r.line? true).filter fun line => (Text.utf8? (line ++ "\n").toList).isSome

/-- Can a record be stored? Its time must be told, its numbers be written, and there must be no half of a character in its texts. -/
def isStorable (r : Record) : Bool :=
  match r.time?, r.message? with
  | some time, some message => r.isWritable true && !(Value.object (r.members time message)).hasHalf
  | _, _ => false

def isFinite (r : Record) : Bool := !r.context.any fun f => f.2.hasNonFinite

/-- Is a line read as an object that tells the record, and one of standard JSON as far as the record has finite numbers only? -/
structure IsReadFrom (r : Record) (line : List Char) : Prop where
  told : ∃ ms, Json.parse line = .ok (.object ms) ∧ r.IsTold ms
  standard : Json.isStandard line = true ↔ r.isFinite = true

variable {line : String}

theorem exists_of_stored? (h : r.stored? = some line) :
    ∃ time message, r.time? = some time ∧ r.message? = some message ∧ r.isWritable true = true ∧ line = r.jsonLine time message := by
  rw [stored?, Option.filter_eq_some_iff] at h
  have hline := h.1
  unfold line? at hline
  cases hmessage : r.message? with
  | none => simp [hmessage] at hline
  | some message =>
    cases htime : r.time? with
    | none => simp [hmessage, htime] at hline
    | some time =>
      simp only [hmessage, htime, Option.bind_eq_bind, Option.bind_some, if_true] at hline
      split_ifs at hline with hwritable
      exact ⟨time, message, rfl, rfl, hwritable, (Option.some.inj hline).symm⟩

/-- The line of a record is read as an object that tells the record. It is standard JSON if and only if the numbers of the context are
finite. -/
theorem isReadFrom_stored (h : ∀ v ∈ Table.values r.context, v.isJson = true) (hstored : r.stored? = some line) :
    r.IsReadFrom line.toList := by
  obtain ⟨time, message, htime, hmessage, hwritable, rfl⟩ := exists_of_stored? hstored
  have hshort : (Value.object (r.members time message)).hasLongInteger = false := by
    rw [Value.hasLongInteger, anyScalar_members fun _ => rfl]
    rw [isWritable, Bool.and_eq_true, Bool.not_eq_true'] at hwritable
    exact hwritable.1
  have hfinite : r.isFinite = !(Value.object (r.members time message)).hasNonFinite := by
    rw [Value.hasNonFinite, anyScalar_members fun _ => rfl]
    rfl
  rw [jsonLine_eq, Json.compact, String.toList_ofList]
  refine ⟨⟨r.members time message, Json.parse_line (isJson_members h time message) hshort, isTold_members htime hmessage⟩, ?_⟩
  rw [Json.isStandard_line, hfinite]

theorem isSome_stored? (r : Record) : r.stored?.isSome = r.isStorable := by
  have htakes (line : String) : (Text.utf8? (line ++ "\n").toList).isSome = (Target.file ⟨[]⟩).takes line := rfl
  unfold stored? isStorable line?
  cases r.message? with
  | none => cases r.time? <;> rfl
  | some message =>
    cases r.time? with
    | none => rfl
    | some time =>
      simp only [Option.bind_eq_bind, Option.bind_some, if_true, htakes, jsonLine_eq]
      cases r.isWritable true with
      | false => rfl
      | true =>
        rw [if_pos rfl, Option.filter_some, State.takes_compact]
        cases (Value.object (r.members time message)).hasHalf <;> rfl

theorem newline_not_mem_stored (h : r.stored? = some line) : '\n' ∉ line.toList := by
  obtain ⟨time, message, -, -, -, rfl⟩ := exists_of_stored? h
  exact newline_not_mem_jsonLine r time message

theorem isSome_utf8?_of_stored? (h : r.stored? = some line) : (Text.utf8? (line ++ "\n").toList).isSome = true :=
  (Option.filter_eq_some_iff.1 h).2

end Record

namespace State

def logAll (s : State) (rs : List Record) : State := rs.foldl (fun s r => (s.log r).2) s

/-- Is a record for the file of a handler of this level? Its logger and its level have to let it pass, and its message must be put
together. -/
def accepts (s : State) (level : Int) (r : Record) : Bool :=
  s.isEnabled r.logger r.level && (Number.int level).le r.level && r.message?.isSome

def lineBytes (line : String) : List Nat := (Text.utf8? (line ++ "\n").toList).getD []

/-- Is there one handler for the file, with this level and with JSON lines, and is the file open with these bytes in it? -/
structure HasLog (s : State) (path : Path) (level : Int) (bytes : List Nat) : Prop where
  opened : s.files.IsOpen path bytes
  handler : s.handlers.filter (fun h => h.target = .file path) = [Handler.mk (.file path) level true]
  apart : ∀ h ∈ s.handlers, ∀ other, h.target = .file other → other ≠ path → s.files.place other ≠ s.files.place path

variable {s t : State} {path : Path} {level : Int} {bytes : List Nat}

/-- A file that is opened for a log has it, unless another handler writes to the same place, or nothing that is written there stays. -/
theorem hasLog_addFile (h : s.addFile path level true = (.ok (), t)) (hsink : t.files.place path ≠ .ok Files.sink)
    (hnone : ∀ h ∈ s.handlers, h.target ≠ .file path)
    (hapart : ∀ h ∈ s.handlers, ∀ other, h.target = .file other → t.files.place other ≠ t.files.place path) :
    t.HasLog path level (s.files.held path) := by
  rw [addFile_eq] at h
  obtain ⟨hok, rfl⟩ := Prod.mk.inj h
  refine ⟨Files.isOpen_of_write (Prod.ext hok rfl) hsink, ?_, fun h hmem other hother hne => ?_⟩
  · simp only [hok, Except.isOk, Except.toBool, if_true, List.filter_append]
    rw [List.filter_eq_nil_iff.2 fun h hmem => by simpa using hnone h hmem]
    simp
  · simp only [hok, Except.isOk, Except.toBool, if_true] at hmem
    rcases List.mem_append.1 hmem with hmem | hmem
    · exact hapart h hmem other hother
    · obtain rfl := List.mem_singleton.1 hmem
      exact absurd (Target.file.inj hother).symm hne

theorem foldl_emit_eq (ws : List (Target × String)) (s : State) :
    ∃ fs stderr, ws.foldl (fun s w => s.emit w.1 w.2) s = { s with files := fs, stderr := stderr } := by
  induction ws generalizing s with
  | nil => exact ⟨s.files, s.stderr, rfl⟩
  | cons w rest ih =>
    have hone : ∃ fs stderr, s.emit w.1 w.2 = { s with files := fs, stderr := stderr } := by
      unfold emit
      split
      · exact ⟨s.files, _, rfl⟩
      · split
        · exact ⟨_, s.stderr, rfl⟩
        · exact ⟨s.files, s.stderr, rfl⟩
    obtain ⟨fs, stderr, hone⟩ := hone
    obtain ⟨fs', stderr', hrest⟩ := ih (s.emit w.1 w.2)
    exact ⟨fs', stderr', by rw [List.foldl_cons, hrest, hone]⟩

def added (path : Path) (ws : List (Target × String)) : List Nat :=
  ((ws.filter fun w => w.1 = .file path).map Prod.snd).flatMap lineBytes

theorem added_cons (path : Path) (w : Target × String) (ws : List (Target × String)) :
    added path (w :: ws) = (if w.1 = .file path then lineBytes w.2 else []) ++ added path ws := by
  unfold added
  split_ifs with h <;> simp [h]

theorem isOpen_emit (h : s.files.IsOpen path bytes) {target : Target} (line : String)
    (hapart : ∀ other, target = .file other → other ≠ path → s.files.place other ≠ s.files.place path) :
    (s.emit target line).files.IsOpen path (bytes ++ if target = .file path then lineBytes line else []) ∧
      (s.emit target line).files.directories = s.files.directories := by
  cases target with
  | stream =>
    rw [if_neg nofun, List.append_nil]
    exact ⟨h, rfl⟩
  | file other =>
    cases hmore : Text.utf8? (line ++ "\n").toList with
    | none =>
      rw [emit_of_not_takes (by rw [Target.takes, hmore]; rfl), lineBytes, hmore, Option.getD_none, ite_self, List.append_nil]
      exact ⟨h, rfl⟩
    | some more =>
      rw [emit, hmore, lineBytes, hmore, Option.getD_some]
      by_cases hsame : other = path
      · subst hsame
        rw [h.read_eq, if_pos rfl]
        exact ⟨h.write _, Files.directories_write_of_read h.read_eq _⟩
      · rw [if_neg fun heq => hsame (Target.file.inj heq), List.append_nil]
        cases hread : s.files.read other with
        | error e => exact ⟨h, rfl⟩
        | ok there => exact ⟨h.write_other hread (hapart other rfl hsame) _, Files.directories_write_of_read hread _⟩

theorem isOpen_foldl_emit (h : s.files.IsOpen path bytes) {ws : List (Target × String)}
    (hapart : ∀ w ∈ ws, ∀ other, w.1 = .file other → other ≠ path → s.files.place other ≠ s.files.place path) :
    (ws.foldl (fun s w => s.emit w.1 w.2) s).files.IsOpen path (bytes ++ added path ws) ∧
      (ws.foldl (fun s w => s.emit w.1 w.2) s).files.directories = s.files.directories := by
  induction ws generalizing s bytes with
  | nil => exact ⟨by simpa [added] using h, rfl⟩
  | cons w rest ih =>
    obtain ⟨hw, hrest⟩ := List.forall_mem_cons.1 hapart
    obtain ⟨hopen, hdirectories⟩ := isOpen_emit h w.2 hw
    obtain ⟨place, hplace, -⟩ := Files.read_eq_ok.1 h.read_eq
    obtain ⟨hopen', hdirectories'⟩ := ih hopen fun v hv other hother hne =>
      Files.place_ne_of_directories hdirectories hplace (hrest v hv other hother hne)
    rw [added_cons, ← List.append_assoc]
    exact ⟨hopen', hdirectories'.trans hdirectories⟩

theorem exists_handler_of_written {r : Record} {w : Target × String} {other : Path} (hw : w ∈ s.written r) (hother : w.1 = .file other) :
    ∃ h ∈ s.handlers, h.target = .file other := by
  unfold written at hw
  split_ifs at hw with henabled hempty hlevel
  · cases hmessage : r.message? <;> simp [hmessage] at hw
    rw [hw] at hother
    cases hother
  · cases hw
  · obtain ⟨h, hmem, hline⟩ := List.mem_filterMap.1 hw
    obtain ⟨line, -, rfl⟩ := Option.map_eq_some_iff.1 hline
    exact ⟨h, hmem, hother⟩
  · cases hw

theorem HasLog.log (h : s.HasLog path level bytes) (r : Record) :
    (s.log r).2.HasLog path level (bytes ++ (s.linesTo (.file path) r).flatMap lineBytes) := by
  have hapart : ∀ w ∈ s.written r, ∀ other, w.1 = .file other → other ≠ path → s.files.place other ≠ s.files.place path := by
    intro w hw other hother hne
    obtain ⟨handler, hmem, htarget⟩ := exists_handler_of_written hw hother
    exact h.apart handler hmem other htarget hne
  obtain ⟨hopen, hdirectories⟩ := isOpen_foldl_emit h.opened hapart
  obtain ⟨fs, stderr, hstate⟩ := foldl_emit_eq (s.written r) s
  obtain ⟨place, hplace, -⟩ := Files.read_eq_ok.1 h.opened.read_eq
  rw [log_eq]
  dsimp only
  rw [hstate] at hopen hdirectories ⊢
  exact ⟨hopen, h.handler, fun handler hmem other hother hne =>
    Files.place_ne_of_directories hdirectories hplace (h.apart handler hmem other hother hne)⟩

theorem linesTo_log (s : State) (r : Record) (target : Target) : (s.log r).2.linesTo target = s.linesTo target := by
  obtain ⟨fs, stderr, hstate⟩ := foldl_emit_eq (s.written r) s
  rw [log_eq]
  dsimp only
  rw [hstate]
  rfl

theorem HasLog.logAll (h : s.HasLog path level bytes) (rs : List Record) :
    (s.logAll rs).HasLog path level (bytes ++ (rs.flatMap (s.linesTo (.file path))).flatMap lineBytes) := by
  induction rs generalizing s bytes with
  | nil => simpa [State.logAll] using h
  | cons r rest ih =>
    have hrest := ih (h.log r)
    rwa [linesTo_log, List.append_assoc, ← List.flatMap_append, ← List.flatMap_cons] at hrest

variable {r : Record}

/-- A record that is accepted and can be stored adds its line to the file, and no other record adds anything. -/
theorem HasLog.linesTo_eq (h : s.HasLog path level bytes) (r : Record) :
    s.linesTo (.file path) r = if s.accepts level r then r.stored?.toList else [] := by
  have hhandlers : s.handlers ≠ [] := fun hnil => by
    have hfilter := h.handler
    rw [hnil] at hfilter
    cases hfilter
  have hmessage : r.message?.isSome = false → r.stored? = none := fun hmessage => by
    rw [Record.stored?, Record.line?, Option.isSome_eq_false_iff.1 hmessage |> Option.isNone_iff_eq_none.1]
    rfl
  rw [State.linesTo_eq hhandlers, h.handler, accepts]
  cases s.isEnabled r.logger r.level with
  | false => rfl
  | true =>
    cases hlevel : (Number.int level).le r.level with
    | false => simp [Handler.line?, hlevel]
    | true =>
      have hline : (Handler.mk (.file path) level true).line? r = r.stored? := by
        rw [Handler.line?, if_pos hlevel]
        rfl
      rw [if_pos rfl, List.filterMap_cons, hline, List.filterMap_nil]
      cases hsome : r.message?.isSome with
      | false => rw [hmessage hsome]; rfl
      | true => cases r.stored? <;> rfl

/-- Does a record add a line to the file of a handler of this level? -/
def stores (s : State) (level : Int) (r : Record) : Bool := s.accepts level r && r.isStorable

theorem HasLog.mem_linesTo (h : s.HasLog path level bytes) {line : String} :
    line ∈ s.linesTo (.file path) r ↔ s.accepts level r = true ∧ r.stored? = some line := by
  rw [h.linesTo_eq]
  split_ifs with haccepts
  · simp [haccepts]
  · simp [haccepts]

/-- The lines of all records, one for each that is accepted and can be stored, are read as objects that tell the records. -/
theorem HasLog.lines_read_back (h : s.HasLog path level bytes) {rs : List Record}
    (hrs : ∀ r ∈ rs, ∀ v ∈ Table.values r.context, v.isJson = true) :
    List.Forall₂ (fun r (line : String) => r.IsReadFrom line.toList) (rs.filter (s.stores level))
      (rs.flatMap (s.linesTo (.file path))) := by
  induction rs with
  | nil => exact .nil
  | cons r rest ih =>
    obtain ⟨hr, hrest⟩ := List.forall_mem_cons.1 hrs
    rw [List.flatMap_cons, h.linesTo_eq, List.filter_cons, stores, ← Record.isSome_stored?]
    cases haccepts : s.accepts level r with
    | false => exact ih hrest
    | true =>
      cases hstored : r.stored? with
      | none => exact ih hrest
      | some line => exact .cons (Record.isReadFrom_stored hr hstored) (ih hrest)

theorem forall_mem_iff_of_forall₂ {α β : Type} {R : α → β → Prop} {p : α → Prop} {q : β → Prop} {as : List α} {bs : List β}
    (h : List.Forall₂ R as bs) (hR : ∀ a b, R a b → (q b ↔ p a)) : (∀ b ∈ bs, q b) ↔ ∀ a ∈ as, p a := by
  induction h with
  | nil => simp
  | cons hab _ ih => rw [List.forall_mem_cons, List.forall_mem_cons, hR _ _ hab, ih]

/-- All records that are accepted add a line if and only if there are as many lines as such records. -/
theorem length_filter_stores_iff (s : State) (level : Int) (rs : List Record) :
    (rs.filter (s.stores level)).length = (rs.filter (s.accepts level)).length ↔
      ∀ r ∈ rs, s.accepts level r = true → r.isStorable = true := by
  have hfilter : rs.filter (s.stores level) = (rs.filter (s.accepts level)).filter Record.isStorable := by
    rw [List.filter_filter]
    exact List.filter_congr fun r _ => Bool.and_comm _ _
  rw [hfilter, List.length_filter_eq_length_iff]
  simp [List.mem_filter]

/-- What is logged comes to the file as lines, one for each record that is accepted and can be stored, in their order. Each line is read
as an object that tells the record, whatever its texts are. There is a line of standard JSON for each record that is accepted if and only
if all of them can be stored and have finite numbers only. -/
theorem file_log_reads_back_iff (h : s.HasLog path level bytes) {rs : List Record}
    (hrs : ∀ r ∈ rs, ∀ v ∈ Table.values r.context, v.isJson = true) :
    ∃ text more lines, (s.logAll rs).files.read path = .ok (bytes ++ more) ∧ Text.utf8? text = some more ∧
      Text.split '\n' text = lines ++ [[]] ∧
      List.Forall₂ Record.IsReadFrom (rs.filter (s.stores level)) lines ∧
      ((lines.length = (rs.filter (s.accepts level)).length ∧ ∀ line ∈ lines, Json.isStandard line = true) ↔
        ∀ r ∈ rs, s.accepts level r = true → r.isStorable = true ∧ r.isFinite = true) := by
  have hstored : ∀ line ∈ rs.flatMap (s.linesTo (.file path)), ∃ r : Record, r.stored? = some line := by
    intro line hline
    obtain ⟨r, -, hline⟩ := List.mem_flatMap.1 hline
    exact ⟨r, (h.mem_linesTo.1 hline).2⟩
  have hbreak : ∀ p ∈ (rs.flatMap (s.linesTo (.file path))).map String.toList, '\n' ∉ p := by
    rw [List.forall_mem_map]
    intro line hline
    obtain ⟨r, hr⟩ := hstored line hline
    exact Record.newline_not_mem_stored hr
  have hencoded : ∀ line ∈ rs.flatMap (s.linesTo (.file path)), (Text.utf8? (line.toList ++ ['\n'])).isSome = true := by
    intro line hline
    obtain ⟨r, hr⟩ := hstored line hline
    have hsome := Record.isSome_utf8?_of_stored? hr
    rwa [String.toList_append] at hsome
  have hlines := (List.forall₂_map_right_iff (R := Record.IsReadFrom)).2 (h.lines_read_back hrs)
  refine ⟨_, _, _, (h.logAll rs).opened.read_eq, ?_, Text.split_flatMap hbreak, hlines, ?_⟩
  · rw [List.flatMap_map, Text.utf8?_flatMap hencoded]
    refine congrArg (fun f => some (List.flatMap f _)) (funext fun line => ?_)
    rw [lineBytes, String.toList_append]
    rfl
  · rw [← hlines.length_eq, length_filter_stores_iff, forall_mem_iff_of_forall₂ hlines fun r line hline => hline.standard]
    constructor
    · rintro ⟨hall, hfinite⟩ r hr haccepts
      have hsome := hall r hr haccepts
      exact ⟨hsome, hfinite r (List.mem_filter.2 ⟨hr, by rw [stores, haccepts, hsome]; rfl⟩)⟩
    · refine fun hall => ⟨fun r hr haccepts => (hall r hr haccepts).1, fun r hr => ?_⟩
      obtain ⟨hr, hstores⟩ := List.mem_filter.1 hr
      exact (hall r hr (Bool.and_eq_true_iff.1 hstores).1).2

def runPath : Path := Path.ofText "logs/run.jsonl"

def runState : State := (addFile (setup {} 20 false noisyLibraries) runPath 20 true).2

def halfText : String := String.ofList (Text.ofCode 0xD800)

def halfRecord : Record := { logger := "tree", level := .int 40, template := halfText }

def heavyRecord : Record :=
  { logger := "tree", level := .int 30, template := "weighed", extra := [("node_id", .float (1.0 / 0.0))] }

/-- One record with line ends wherever there is text, one that is below the level, one of an error, one that cannot be encoded, and one
without a finite number. -/
def runRecords : List Record :=
  [{ logger := "tree\nroot", level := .int 20, template := "first\nsecond \"third\"",
     extra := [("node_id", .text "a\r\nb"), ("operation", .object [("steps", .list [.int 1, .null, .text "\n"])])] },
    { logger := "tree", level := .int 10, template := "unheard" },
    { logger := "tree", level := .int 40, template := "lost", exception := some "in two\nlines", extra := [("weight", .int 3)] },
    halfRecord, heavyRecord]

theorem hasLog_runState : runState.HasLog runPath 20 [] := by
  have hok : (addFile (setup {} 20 false noisyLibraries) runPath 20 true).1 = .ok () := by decide +kernel
  have hadded : addFile (setup {} 20 false noisyLibraries) runPath 20 true = (.ok (), runState) := by rw [← hok, runState]
  have hheld : (setup {} 20 false noisyLibraries).files.held runPath = [] := by decide +kernel
  have hlog := hasLog_addFile hadded (by decide +kernel) (by simp [handlers_setup]) (by simp [handlers_setup])
  rwa [hheld] at hlog

theorem runRecords_read_back :
    runState.HasLog runPath 20 [] ∧ (∀ r ∈ runRecords, ∀ v ∈ Table.values r.context, v.isJson = true) ∧
      runRecords.map (runState.accepts 20) = [true, false, true, true, true] ∧
      runRecords.map (runState.stores 20) = [true, false, true, false, true] ∧
      runRecords.map Record.isFinite = [true, true, true, true, false] ∧
      ∃ text more lines, (runState.logAll runRecords).files.read runPath = .ok more ∧ Text.utf8? text = some more ∧
        Text.split '\n' text = lines ++ [[]] ∧ List.Forall₂ Record.IsReadFrom (runRecords.filter (runState.stores 20)) lines := by
  have hlog := hasLog_runState
  have hjson : ∀ r ∈ runRecords, ∀ v ∈ Table.values r.context, v.isJson = true := by decide +kernel
  obtain ⟨text, more, lines, hread, hmore, hsplit, hlines, -⟩ := file_log_reads_back_iff hlog hjson
  exact ⟨hlog, hjson, by decide +kernel, by decide +kernel, by decide +kernel, text, more, lines, hread, hmore, hsplit, hlines⟩

/-- Two records that are accepted and yet leave no JSON in the file. One has half a pair in its message and gets no line; a number of the other
is beyond the floats and comes to the file as a word that JSON does not have. -/
theorem accepted_records_leave_no_json :
    (runState.accepts 20 halfRecord = true ∧ halfRecord.message? = some halfText ∧
      (∀ v ∈ Table.values halfRecord.context, v.isJson = true) ∧ (runState.logAll [halfRecord]).files.read runPath = .ok []) ∧
    ((Json.parse "1e999".toList).toOption.any fun v => v.same false (.float (1.0 / 0.0))) = true ∧
      runState.accepts 20 heavyRecord = true ∧ (∀ v ∈ Table.values heavyRecord.context, v.isJson = true) ∧
      ∃ line, (runState.logAll [heavyRecord]).files.read runPath = .ok (lineBytes line) ∧
        line.toList = ("\x7b\"ts\": \"1970-01-01T00:00:00\", \"level\": \"WARNING\", \"logger\": \"tree\", " ++
          "\"message\": \"weighed\", \"where\": \"mod:1\", \"node_id\": Infinity\x7d").toList ∧
        Json.isStandard line.toList = false := by
  have hread : ∀ r : Record, runState.accepts 20 r = true →
      (runState.logAll [r]).files.read runPath = .ok (r.stored?.toList.flatMap lineBytes) := fun r haccepts => by
    have hopened := (hasLog_runState.logAll [r]).opened.read_eq
    rw [List.flatMap_singleton, hasLog_runState.linesTo_eq, if_pos haccepts] at hopened
    simpa using hopened
  have hhalf : runState.accepts 20 halfRecord = true := by decide +kernel
  have hnone : halfRecord.stored? = none := by decide +kernel
  have hheavy : runState.accepts 20 heavyRecord = true := by decide +kernel
  obtain ⟨line, hline⟩ := Option.isSome_iff_exists.1 (show heavyRecord.stored?.isSome = true by decide +kernel)
  have htext : heavyRecord.stored?.map String.toList = some ("\x7b\"ts\": \"1970-01-01T00:00:00\", \"level\": \"WARNING\", " ++
      "\"logger\": \"tree\", \"message\": \"weighed\", \"where\": \"mod:1\", \"node_id\": Infinity\x7d").toList := by decide +kernel
  rw [hline] at htext
  refine ⟨⟨hhalf, by decide +kernel, by decide +kernel, ?_⟩, by decide +kernel, hheavy, by decide +kernel, line, ?_, Option.some.inj htext, ?_⟩
  · rw [hread _ hhalf, hnone]
    rfl
  · rw [hread _ hheavy, hline]
    exact congrArg Except.ok (List.flatMap_singleton ..)
  · rw [Option.some.inj htext]
    decide +kernel

end State

end Logging

end BehaviorTree
