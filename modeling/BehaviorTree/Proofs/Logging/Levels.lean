import BehaviorTree.Proofs.Config
import BehaviorTree.Proofs.Files
import BehaviorTree.Proofs.Logging.Namespaces
import BehaviorTree.Proofs.Value.NumberOrder

/-!
Which records reach the stream. A configuration gives levels to namespaces, but a record has to pass the level of the stream as well,
which is the overall one, and the nearest namespace with a level decides, which may be one of the editor's or a damped library. So a
configured level has its effect only where it is not below the overall one and nothing stands between it and the logger.
-/

set_option autoImplicit false

namespace BehaviorTree

namespace Logging

variable {name space other logger : String}

def isRootName (name : String) : Bool := name.isEmpty || name = "root"

/-- The level that a namespace of the editor or a damped library is set to together with everything else. -/
def builtinLevel? (overall : Int) (name : String) : Option Int :=
  if noisyLibraries.contains name then some (max overall warning)
  else if namespaces.contains name then some overall
  else none

variable {overall builtin : Int}

theorem head?_of_builtin (h : builtinLevel? overall name = some builtin) :
    builtin = (if name.toList.head? = some 'b' then overall else max overall warning) ∧
      name.toList.head? ∉ [none, some '.', some 'r'] := by
  have hnoisy : ∀ n ∈ noisyLibraries, n.toList.head? ≠ some 'b' ∧ n.toList.head? ∉ [none, some '.', some 'r'] := by decide
  have hnamespaces : ∀ n ∈ namespaces, n.toList.head? = some 'b' := by decide
  unfold builtinLevel? at h
  split_ifs at h with hin hin'
  · obtain ⟨hne, hnotMem⟩ := hnoisy name (List.contains_iff_mem.1 hin)
    exact ⟨by rw [if_neg hne]; exact (Option.some.inj h).symm, hnotMem⟩
  · have heq := hnamespaces name (List.contains_iff_mem.1 hin')
    exact ⟨by rw [if_pos heq]; exact (Option.some.inj h).symm, by simp [heq]⟩

theorem eq_of_isRootName (hroot : isRootName name = true) : name = "" ∨ name = "root" := by
  simpa only [isRootName, Bool.or_eq_true, String.isEmpty_iff, decide_eq_true_eq] using hroot

theorem head?_of_below_root (hroot : isRootName space = true) (h : LiesIn space logger) :
    logger.toList.head? ∈ [none, some '.', some 'r'] := by
  rcases h with rfl | ⟨rest, rfl⟩ <;> rcases eq_of_isRootName hroot with rfl | rfl <;> simp

theorem ne_empty_of_builtin (h : builtinLevel? overall name = some builtin) : name ≠ "" := by
  rintro rfl
  exact (head?_of_builtin h).2 (by decide)

theorem builtinLevel?_of_root (hroot : isRootName name = true) : builtinLevel? overall name = none := by
  rw [Option.eq_none_iff_forall_ne_some]
  exact fun builtin h => (head?_of_builtin h).2 (head?_of_below_root hroot (.inl rfl))

theorem overall_le_builtin (h : builtinLevel? overall name = some builtin) : overall ≤ builtin := by
  rw [(head?_of_builtin h).1]
  split_ifs
  · exact le_refl _
  · exact le_max_left ..

end Logging

namespace LoggingConfig

open Logging

def overall (c : LoggingConfig) : Int := levelNamed c.level

/-- The level of the root: of several that are configured for it the last. -/
def rootLevel (c : LoggingConfig) : Int :=
  c.namespaces.foldl (fun level n => if isRootName n.1 then levelNamed n.2 else level) c.overall

/-- The level of a namespace of its own: the one that is configured, or else the one that it is set to anyway. -/
def ownLevel? (c : LoggingConfig) (name : String) : Option Int :=
  if isRootName name then none
  else ((Table.lookup c.namespaces name).map levelNamed).or (builtinLevel? c.overall name)

variable {c : LoggingConfig}

theorem IsAccepted.overall_pos (h : c.IsAccepted) : 0 < c.overall := by
  have hnames : ∀ name ∈ Config.levelNames, 0 < levelNamed name := by decide +kernel
  exact hnames c.level h.level

end LoggingConfig

namespace Logging.State

variable {s : State} {name k : String} {level : Int} {t : Table Int}

theorem setLevel_eq (s : State) (name : String) (level : Int) :
    s.setLevel name level =
      if isRootName name then { s with rootLevel := level } else { s with levels := Table.insert s.levels name level } := rfl

theorem lookup_setLevels (hn : (Table.keys t).Nodup) (k : String) :
    Table.lookup (s.setLevels t).levels k =
      if isRootName k then Table.lookup s.levels k else (Table.lookup t k).or (Table.lookup s.levels k) := by
  induction t generalizing s with
  | nil => simp [setLevels]
  | cons r t ih =>
    obtain ⟨name, level⟩ := r
    rw [Table.keys, List.map_cons, List.nodup_cons] at hn
    have hfresh : Table.lookup t name = none := Table.lookup_eq_none.2 hn.1
    rw [setLevels, List.foldl_cons, ← setLevels, ih hn.2, Table.lookup, setLevel_eq]
    dsimp only
    split_ifs with hk hname hname heq heq <;> try rfl
    · rw [Table.lookup_insert, if_neg fun h => hname (by rwa [h])]
    · exact absurd (heq ▸ hname) hk
    · rw [Table.lookup_insert, if_pos heq, ← heq, hfresh]
      rfl
    · rw [Table.lookup_insert, if_neg heq]

theorem rootLevel_setLevels (t : Table Int) :
    (s.setLevels t).rootLevel = t.foldl (fun level n => if isRootName n.1 then n.2 else level) s.rootLevel := by
  induction t generalizing s with
  | nil => rfl
  | cons r t ih =>
    rw [setLevels, List.foldl_cons, ← setLevels, ih, List.foldl_cons, setLevel_eq]
    split_ifs <;> rfl

theorem keptBy_setLevels (t : Table Int) :
    (s.setLevels t).handlers = s.handlers ∧ (s.setLevels t).files = s.files ∧ (s.setLevels t).stderr = s.stderr := by
  induction t generalizing s with
  | nil => exact ⟨rfl, rfl, rfl⟩
  | cons r t ih =>
    obtain ⟨hhandlers, hfiles, hstderr⟩ := ih (s := s.setLevel r.1 r.2)
    rw [setLevels, List.foldl_cons, ← setLevels, hhandlers, hfiles, hstderr, setLevel_eq]
    split_ifs <;> exact ⟨rfl, rfl, rfl⟩

theorem addFile_eq (s : State) (path : Path) (level : Int) (json : Bool) :
    s.addFile path level json =
      ((s.files.write path (s.files.held path)).1,
        { s with
          files := (s.files.write path (s.files.held path)).2
          handlers := s.handlers ++
            if (s.files.write path (s.files.held path)).1.isOk then [Handler.mk (.file path) level json] else [] }) := by
  unfold addFile Files.held
  rcases s.files.lookup path with _ | _ | _ | _
  all_goals
    dsimp only
    rcases s.files.write path _ with ⟨_ | _, fs⟩ <;> simp [Except.isOk, Except.toBool]

theorem addFile_snd (s : State) (path : Path) (level : Int) (json : Bool) :
    ∃ fs others, (s.addFile path level json).2 = { s with files := fs, handlers := s.handlers ++ others } ∧
      ∀ h ∈ others, isStream h = false := by
  rw [addFile_eq]
  refine ⟨_, _, rfl, fun h hmem => ?_⟩
  split_ifs at hmem
  · rw [List.mem_singleton.1 hmem]
    rfl
  · cases hmem

/-- A state in which the configuration is in force: one handler writes to the stream, from the overall level on. -/
structure Follows (s : State) (c : LoggingConfig) : Prop where
  handlers : ∃ others, s.handlers = Handler.mk .stream c.overall c.jsonLines :: others ∧ ∀ h ∈ others, isStream h = false
  root : s.rootLevel = c.rootLevel
  levels : ∀ name, Table.lookup s.levels name = c.ownLevel? name

def leveled (s : State) (c : LoggingConfig) : State :=
  (s.setup c.overall c.jsonLines noisyLibraries).setLevels (Table.mapValues levelNamed c.namespaces)

theorem ofConfig_snd (s : State) (c : LoggingConfig) :
    ∃ fs others, (s.ofConfig c).2 = { s.leveled c with files := fs, handlers := (s.leveled c).handlers ++ others } ∧
      ∀ h ∈ others, isStream h = false := by
  unfold ofConfig
  dsimp only
  split
  · exact ⟨(s.leveled c).files, [], by rw [List.append_nil]; rfl, by simp⟩
  · exact addFile_snd ..

theorem ofConfig_of_no_file (s : State) {c : LoggingConfig} (h : c.file.filter (fun f => !f.isEmpty) = none) :
    s.ofConfig c = (.ok (), s.leveled c) ∧ (s.leveled c).files = s.files := by
  constructor
  · unfold ofConfig
    rw [h]
    rfl
  · rw [leveled, (keptBy_setLevels _).2.1, setup, (keptBy_setLevels _).2.1, (keptBy_setLevels _).2.1]

theorem lookup_setup {overall : Int} {json : Bool} (hs : s.levels = []) :
    Table.lookup (s.setup overall json noisyLibraries).levels name =
      if isRootName name then none else builtinLevel? overall name := by
  have hnamespaces : namespaces.Nodup := by decide
  have hnoisy : noisyLibraries.Nodup := by decide
  rw [setup, lookup_setLevels ((Table.keys_map_key ..).symm ▸ hnoisy), lookup_setLevels ((Table.keys_map_key ..).symm ▸ hnamespaces),
    Table.lookup_map_key, Table.lookup_map_key, hs, builtinLevel?]
  split_ifs <;> simp_all

theorem rootLevel_setup {overall : Int} {json : Bool} : (s.setup overall json noisyLibraries).rootLevel = overall := by
  rw [setup, rootLevel_setLevels, rootLevel_setLevels]
  simp [namespaces, noisyLibraries, isRootName]

theorem rootLevel_leveled (s : State) (c : LoggingConfig) : (s.leveled c).rootLevel = c.rootLevel := by
  rw [leveled, rootLevel_setLevels, rootLevel_setup, Table.mapValues, List.foldl_map, LoggingConfig.rootLevel]

theorem handlers_setup {overall : Int} {json : Bool} (hs : s.handlers = []) :
    (s.setup overall json noisyLibraries).handlers = [Handler.mk .stream overall json] := by
  rw [setup, (keptBy_setLevels _).1, (keptBy_setLevels _).1, hs]
  rfl

theorem follows_ofConfig {c : LoggingConfig} (hc : c.IsAccepted) (files : Files) : (ofConfig { files } c).2.Follows c := by
  obtain ⟨fs, others, hstate, hothers⟩ := ofConfig_snd { files } c
  have hnodup : (Table.keys (Table.mapValues levelNamed c.namespaces)).Nodup := by
    rw [Table.keys_mapValues]
    exact hc.distinct
  rw [hstate]
  refine ⟨⟨others, ?_, hothers⟩, ?_, fun name => ?_⟩
  · dsimp only
    rw [leveled, (keptBy_setLevels _).1, handlers_setup rfl]
    rfl
  · exact rootLevel_leveled ..
  · dsimp only
    rw [leveled, lookup_setLevels hnodup, lookup_setup rfl, Table.lookup_mapValues, LoggingConfig.ownLevel?]
    split_ifs <;> rfl

end Logging.State

namespace LoggingConfig

open Logging

variable {c : LoggingConfig} {logger name : String}

def heldLevel? (c : LoggingConfig) (name : String) : Option Int := (c.ownLevel? name).filter (· ≠ 0)

/-- The level that a logger has: that of the nearest name with a level, or else that of the root. -/
def levelAt (c : LoggingConfig) (logger : String) : Int := ((above logger).findSome? c.heldLevel?).getD c.rootLevel

def threshold (c : LoggingConfig) (logger : String) : Int := max c.overall (c.levelAt logger)

theorem levelAt_root : c.levelAt "root" = c.levelAt "" := by
  simp [levelAt, above, Text.split, State.ancestors, heldLevel?, ownLevel?, isRootName]

/-- The longest configured namespace that the logger lies in, and its level. -/
structure IsNearest (c : LoggingConfig) (logger space level : String) : Prop where
  mem : (space, level) ∈ c.namespaces
  liesIn : LiesIn space logger
  longest : ∀ n ∈ c.namespaces, LiesIn n.1 logger → n.1.length ≤ space.length

variable {space level : String} {builtin : Int}

theorem heldLevel?_of_unset (hc : c.IsAccepted) (hname : Table.lookup c.namespaces name = none) :
    c.heldLevel? name = builtinLevel? c.overall name := by
  have hown : c.ownLevel? name = builtinLevel? c.overall name := by
    rw [ownLevel?, hname]
    split_ifs with hroot
    · exact (builtinLevel?_of_root hroot).symm
    · rfl
  rw [heldLevel?, hown]
  cases hbuiltin : builtinLevel? c.overall name with
  | none => rfl
  | some builtin =>
    have hle := overall_le_builtin hbuiltin
    have hpos := hc.overall_pos
    exact Option.filter_some_pos (by rw [decide_eq_true_eq]; omega)

theorem IsNearest.heldLevel?_of_longer (hc : c.IsAccepted) (h : c.IsNearest logger space level) (hname : LiesIn name logger)
    (hlonger : space.length < name.length) : c.heldLevel? name = builtinLevel? c.overall name := by
  refine heldLevel?_of_unset hc (Table.lookup_eq_none.2 fun hkey => ?_)
  obtain ⟨n, hn, rfl⟩ := List.mem_map.1 hkey
  have hle := h.longest n hn hname
  omega

theorem IsNearest.levelAt_of_builtin (hc : c.IsAccepted) (h : c.IsNearest logger space level) (hname : LiesIn name logger)
    (hlonger : space.length < name.length) (hbuiltin : builtinLevel? c.overall name = some builtin) : c.levelAt logger = builtin := by
  have hheld := h.heldLevel?_of_longer hc hname hlonger
  obtain ⟨nearest, hnearest, hle, hsome, hfirst⟩ :=
    exists_nearest (f := c.heldLevel?) (above_descends logger) (mem_above.2 hname) (by simp [hheld, hbuiltin])
  have hlies := mem_above.1 hnearest
  rw [h.heldLevel?_of_longer hc hlies (hlonger.trans_le hle)] at hsome hfirst
  obtain ⟨other, hother⟩ := Option.ne_none_iff_exists'.1 hsome
  -- Both stand above one logger, so they begin alike, and those that begin alike have one level.
  have hhead : nearest.toList.head? = name.toList.head? := (hlies.head?_eq (ne_empty_of_builtin hother)).symm.trans
    (hname.head?_eq (ne_empty_of_builtin hbuiltin))
  rw [levelAt, hfirst, hother, Option.getD_some, (head?_of_builtin hother).1, (head?_of_builtin hbuiltin).1, hhead]

theorem IsNearest.levelAt_of_root (hc : c.IsAccepted) (h : c.IsNearest logger space level) (hroot : isRootName space = true) :
    c.levelAt logger = c.rootLevel := by
  have hnone : (above logger).findSome? c.heldLevel? = none := by
    rw [List.findSome?_eq_none_iff]
    intro name hname
    have hlies := mem_above.1 hname
    rcases lt_trichotomy name.length space.length with hlt | heq | hlt
    · have hdot := hlies.of_length_lt h.liesIn hlt
      rcases eq_of_isRootName hroot with rfl | rfl <;> simp at hdot
    · rw [hlies.eq_of_length_eq h.liesIn heq, heldLevel?, ownLevel?, if_pos hroot]
      rfl
    · rw [h.heldLevel?_of_longer hc hlies hlt, Option.eq_none_iff_forall_ne_some]
      intro builtin hbuiltin
      have hhead := hlies.head?_eq (ne_empty_of_builtin hbuiltin)
      exact (head?_of_builtin hbuiltin).2 (hhead ▸ head?_of_below_root hroot h.liesIn)
  rw [levelAt, hnone]
  rfl

theorem IsNearest.lookup_eq (hc : c.IsAccepted) (h : c.IsNearest logger space level) :
    Table.lookup c.namespaces space = some level := Table.lookup_of_mem hc.distinct h.mem

theorem IsNearest.levelAt_of_configured (hc : c.IsAccepted) (h : c.IsNearest logger space level) (hroot : isRootName space = false)
    (hnone : ∀ name, LiesIn name logger → space.length < name.length → builtinLevel? c.overall name = none)
    (hlevel : levelNamed level ≠ 0) : c.levelAt logger = levelNamed level := by
  have hheld : c.heldLevel? space = some (levelNamed level) := by
    rw [heldLevel?, ownLevel?, h.lookup_eq hc, if_neg (by simp [hroot]), Option.map_some, Option.some_or]
    exact Option.filter_some_pos (by simpa using hlevel)
  obtain ⟨nearest, hnearest, hle, hsome, hfirst⟩ :=
    exists_nearest (f := c.heldLevel?) (above_descends logger) (mem_above.2 h.liesIn) (by simp [hheld])
  have hlies := mem_above.1 hnearest
  have hsame : space = nearest := by
    refine h.liesIn.eq_of_length_eq hlies (le_antisymm hle (not_lt.1 fun hlt => hsome ?_))
    rw [h.heldLevel?_of_longer hc hlies hlt, hnone nearest hlies hlt]
  rw [levelAt, hfirst, ← hsame, hheld, Option.getD_some]

theorem IsNearest.threshold_eq_iff (hc : c.IsAccepted) (h : c.IsNearest logger space level) :
    c.threshold logger = levelNamed level ↔
      c.overall ≤ levelNamed level ∧
        (∀ name builtin, LiesIn name logger → space.length < name.length → builtinLevel? c.overall name = some builtin →
          builtin = levelNamed level) ∧
        (isRootName space = true → max c.overall c.rootLevel = levelNamed level) := by
  rw [threshold]
  generalize hlevel : levelNamed level = L
  by_cases hnearer : ∃ name builtin, LiesIn name logger ∧ space.length < name.length ∧ builtinLevel? c.overall name = some builtin
  · obtain ⟨name, builtin, hname, hlonger, hbuiltin⟩ := hnearer
    have hlevelAt := h.levelAt_of_builtin hc hname hlonger hbuiltin
    have hle := overall_le_builtin hbuiltin
    rw [hlevelAt, max_eq_right hle]
    constructor
    · rintro rfl
      refine ⟨hle, fun other b hother hlonger' hb => ?_, fun hroot => ?_⟩
      · exact (h.levelAt_of_builtin hc hother hlonger' hb).symm.trans hlevelAt
      · rw [← h.levelAt_of_root hc hroot, hlevelAt, max_eq_right hle]
    · exact fun ⟨_, hall, _⟩ => (hall name builtin hname hlonger hbuiltin)
  · have hnone : ∀ name, LiesIn name logger → space.length < name.length → builtinLevel? c.overall name = none := fun name hname hlonger =>
      Option.eq_none_iff_forall_ne_some.2 fun builtin hbuiltin => hnearer ⟨name, builtin, hname, hlonger, hbuiltin⟩
    have hall : ∀ name builtin, LiesIn name logger → space.length < name.length → builtinLevel? c.overall name = some builtin →
        builtin = L := fun name builtin hname hlonger hbuiltin => absurd ⟨name, builtin, hname, hlonger, hbuiltin⟩ hnearer
    cases hroot : isRootName space with
    | true =>
      rw [h.levelAt_of_root hc hroot]
      exact ⟨fun heq => ⟨heq ▸ le_max_left .., hall, fun _ => heq⟩, fun hright => hright.2.2 rfl⟩
    | false =>
      have hpos := hc.overall_pos
      constructor
      · exact fun heq => ⟨heq ▸ le_max_left .., hall, fun hfalse => absurd hfalse (by simp)⟩
      · rintro ⟨hle, _, _⟩
        rw [h.levelAt_of_configured hc hroot hnone (by omega), hlevel, max_eq_right hle]

end LoggingConfig

namespace Logging

namespace State

variable {s : State} {c : LoggingConfig} {r : Record} {line : String}

theorem effectiveLevel_eq (hs : s.Follows c) (logger : String) : s.effectiveLevel logger = c.levelAt logger := by
  have hheld : (fun name => (Table.lookup s.levels name).filter (· ≠ 0)) = c.heldLevel? := by
    funext name
    rw [hs.levels]
    rfl
  rw [effectiveLevel, hheld, hs.root, LoggingConfig.levelAt, above]
  split
  · rename_i level hlevel
    rw [hlevel]
    rfl
  · rename_i hnone
    rw [hnone]
    rfl

theorem isEnabled_iff (hs : s.Follows c) {logger : String} {level : Number} :
    s.isEnabled logger level = true ↔ level.le (.int 0) = false ∧ (Number.int (c.levelAt logger)).le level = true := by
  have hroot : c.levelAt (if logger = "root" then "" else logger) = c.levelAt logger := by
    split_ifs with h
    · rw [h, LoggingConfig.levelAt_root]
    · rfl
  rw [isEnabled, effectiveLevel_eq hs, hroot, Bool.and_eq_true, Bool.not_eq_true']

theorem stderr_emit {target : Target} (h : target ≠ .stream) : (s.emit target line).stderr = s.stderr := by
  cases target with
  | stream => exact absurd rfl h
  | file path =>
    rw [emit]
    split <;> rfl

theorem stderr_handleWith {h : Handler} (hh : isStream h = false) : (handleWith r s h).stderr = s.stderr := by
  have htarget : h.target ≠ .stream := of_decide_eq_false hh
  unfold handleWith
  split
  · split_ifs
    · exact stderr_emit htarget
    · rfl
  · rfl

theorem stderr_foldl_handleWith {others : List Handler} (hothers : ∀ h ∈ others, isStream h = false) :
    (others.foldl (handleWith r) s).stderr = s.stderr := by
  induction others generalizing s with
  | nil => rfl
  | cons h rest ih =>
    rw [List.foldl_cons, ih fun k hk => hothers k (List.mem_cons_of_mem _ hk), stderr_handleWith (hothers h List.mem_cons_self)]

theorem stderr_handle (hs : s.Follows c) (hline : r.line? c.jsonLines = some line) :
    (s.handle r).stderr = if (Number.int c.overall).le r.level then s.stderr ++ line ++ "\n" else s.stderr := by
  obtain ⟨others, hhandlers, hothers⟩ := hs.handlers
  rw [handle, hhandlers, if_neg (by simp), List.foldl_cons, stderr_foldl_handleWith hothers, handleWith, hline]
  split_ifs <;> rfl

theorem stderr_log (hs : s.Follows c) (hc : 0 < c.overall) (hline : r.line? c.jsonLines = some line) :
    (s.log r).2.stderr = if (Number.int (c.threshold r.logger)).le r.level then s.stderr ++ line ++ "\n" else s.stderr := by
  have hthreshold : (Number.int (c.threshold r.logger)).le r.level = true ↔
      (Number.int c.overall).le r.level = true ∧ (Number.int (c.levelAt r.logger)).le r.level = true := Number.int_max_le
  have hpos : (Number.int c.overall).le r.level = true → r.level.le (.int 0) = false := Number.positive_of_int_le hc
  rw [log]
  split_ifs with henabled hreached hreached
  · rw [stderr_handle hs hline, if_pos (hthreshold.1 hreached).1]
  · rw [isEnabled_iff hs] at henabled
    rw [stderr_handle hs hline, if_neg fun h => hreached (hthreshold.2 ⟨h, henabled.2⟩)]
  · rw [isEnabled_iff hs] at henabled
    exact absurd ⟨hpos (hthreshold.1 hreached).1, (hthreshold.1 hreached).2⟩ henabled
  · rfl

theorem written_iff (hs : s.Follows c) (hc : 0 < c.overall) (hline : r.line? c.jsonLines = some line) :
    (s.log r).2.stderr = s.stderr ++ line ++ "\n" ↔ (Number.int (c.threshold r.logger)).le r.level = true := by
  rw [stderr_log hs hc hline]
  split_ifs with h
  · exact iff_of_true rfl h
  · refine iff_of_false (fun heq => ?_) h
    have hlength := congrArg String.length heq
    have hbreak : "\n".length = 1 := rfl
    rw [String.length_append, String.length_append] at hlength
    omega

end State

def blankRecord (logger : String) (level : Int) : Record := { logger, level := .int level, template := "" }

theorem blankRecord_has_line (json : Bool) (logger : String) (level : Int) :
    ∃ line, (blankRecord logger level).line? json = some line := by
  cases json <;> exact ⟨_, rfl⟩

variable {c : LoggingConfig} {logger space level : String}

/-- The level of the nearest configured namespace decides what of a logger reaches the stream exactly if it is not below the overall
level, every namespace between them that is set anyway has the same one, and, for a namespace that is the root, the root and the stream
together come to it. -/
theorem configured_level_decides_iff (hc : c.IsAccepted) (h : c.IsNearest logger space level) (files : Files) :
    (∀ r line, r.logger = logger → r.line? c.jsonLines = some line →
        (((State.ofConfig { files } c).2.log r).2.stderr = (State.ofConfig { files } c).2.stderr ++ line ++ "\n" ↔
          (Number.int (levelNamed level)).le r.level = true)) ↔
      c.overall ≤ levelNamed level ∧
        (∀ name builtin, LiesIn name logger → space.length < name.length → builtinLevel? c.overall name = some builtin →
          builtin = levelNamed level) ∧
        (isRootName space = true → max c.overall c.rootLevel = levelNamed level) := by
  have hfollows := State.follows_ofConfig hc files
  rw [← h.threshold_eq_iff hc]
  constructor
  · intro hdecides
    have hsame : ∀ n : Int, c.threshold logger ≤ n ↔ levelNamed level ≤ n := fun n => by
      obtain ⟨line, hline⟩ := blankRecord_has_line c.jsonLines logger n
      have hwritten := State.written_iff hfollows hc.overall_pos hline
      have hdecided := hdecides _ line rfl hline
      exact Number.int_le_int.symm.trans ((hwritten.symm.trans hdecided).trans Number.int_le_int)
    exact le_antisymm ((hsame _).2 (le_refl _)) ((hsame _).1 (le_refl _))
  · rintro hthreshold r line rfl hline
    rw [State.written_iff hfollows hc.overall_pos hline, hthreshold]

def quietBehavior : LoggingConfig := { namespaces := [("bteditor", "INFO"), ("bteditor.behavior", "WARNING")] }

theorem quietBehavior_decides :
    quietBehavior.IsAccepted ∧ quietBehavior.IsNearest "bteditor.behavior.validator" "bteditor.behavior" "WARNING" ∧
      ∀ r line, r.logger = "bteditor.behavior.validator" → r.line? false = some line →
        (((State.ofConfig {} quietBehavior).2.log r).2.stderr = (State.ofConfig {} quietBehavior).2.stderr ++ line ++ "\n" ↔
          (Number.int 30).le r.level = true) := by
  have haccepted : quietBehavior.IsAccepted := ⟨by decide, by decide⟩
  have hnearest : quietBehavior.IsNearest "bteditor.behavior.validator" "bteditor.behavior" "WARNING" :=
    ⟨by decide, .inr ⟨"validator", by decide⟩, fun n hn _ => (by decide : ∀ n ∈ quietBehavior.namespaces, n.1.length ≤ 17) n hn⟩
  have hlevel : levelNamed "WARNING" = 30 := by decide +kernel
  have hoverall : quietBehavior.overall = 20 := by decide +kernel
  have habove : above "bteditor.behavior.validator" = ["bteditor.behavior.validator", "bteditor.behavior", "bteditor"] := by decide
  have hdecides := (configured_level_decides_iff haccepted hnearest {}).2
  rw [hlevel, hoverall] at hdecides
  refine ⟨haccepted, hnearest, hdecides ⟨by decide, fun name builtin hname hlonger hbuiltin => ?_, by decide⟩⟩
  have hunset : ∀ name ∈ above "bteditor.behavior.validator", 17 < name.length → builtinLevel? 20 name = none := by
    rw [habove]
    decide
  rw [hunset name (mem_above.2 hname) hlonger] at hbuiltin
  cases hbuiltin

def loudBehavior : LoggingConfig := { namespaces := [("bteditor.behavior", "DEBUG")] }

/-- The overall level stays that of the stream, so that the record is lost. -/
theorem loudBehavior_stays_quiet :
    loudBehavior.IsAccepted ∧ loudBehavior.IsNearest "bteditor.behavior" "bteditor.behavior" "DEBUG" ∧
      (Number.int (levelNamed "DEBUG")).le (blankRecord "bteditor.behavior" 10).level = true ∧
      (blankRecord "bteditor.behavior" 10).line? false = some "1970-01-01T00:00:00 DEBUG   bteditor.behavior: " ∧
      ((State.ofConfig {} loudBehavior).2.log (blankRecord "bteditor.behavior" 10)).2.stderr = "" := by
  refine ⟨⟨by decide, by decide⟩, ⟨by decide, .inl rfl, by simp [loudBehavior]⟩, by decide +kernel, by decide +kernel, by decide +kernel⟩

end Logging

end BehaviorTree
