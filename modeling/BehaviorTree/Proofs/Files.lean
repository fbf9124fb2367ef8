import BehaviorTree.Files
import BehaviorTree.Proofs.Result

/-!
What is written to a file is read from it. Writing a file changes no directory, so that the way to it stays the same.
-/

set_option autoImplicit false

namespace BehaviorTree.Files

variable {fs gs : Files} {path : Path} {place from_ : List String} {parts : List String} {bytes : List Nat}

def held (fs : Files) (path : Path) : List Nat :=
  match fs.lookup path with
  | .ok (.file bytes) => bytes
  | _ => []

theorem find?_put (place : List String) (bytes : List Nat) (contents : List (List String × List Nat)) :
    (put place bytes contents).find? (fun f => f.1 = place) = some (place, bytes) := by
  induction contents with
  | nil => simp [put]
  | cons f r ih =>
    unfold put
    split_ifs with hf
    · simp
    · rw [List.find?_cons_of_neg (by simpa using hf), ih]

theorem entry_eq_directory : fs.entry place = .directory ↔
    (isGiven place || systemDirectories.contains place || fs.directories.contains place) = true := by
  unfold entry
  split_ifs with h
  · exact ⟨fun _ => h, fun _ => rfl⟩
  · exact ⟨nofun, fun hd => absurd hd h⟩
  · refine ⟨fun he => ?_, fun hd => absurd hd h⟩
    split at he <;> cases he

theorem entry_put {contents : List (List String × List Nat)} (hplace : fs.entry place ≠ .directory) (hsink : place ≠ sink) :
    entry { fs with contents := put place bytes contents } place = .file bytes := by
  rw [Ne, entry_eq_directory] at hplace
  rw [entry, if_neg hplace, if_neg hsink, find?_put]

theorem entry_eq_directory_mono (h : fs.directories ⊆ gs.directories) (hentry : fs.entry place = .directory) :
    gs.entry place = .directory := by
  rw [entry_eq_directory, Bool.or_eq_true] at *
  exact hentry.imp_right fun hmem => List.contains_iff_mem.2 (h (List.contains_iff_mem.1 hmem))

theorem walk_of_directories (h : fs.directories ⊆ gs.directories) (hwalk : fs.walk path from_ parts = .ok place) :
    gs.walk path from_ parts = .ok place := by
  induction parts generalizing from_ with
  | nil => exact hwalk
  | cons part r ih =>
    have hdirectory : fs.entry from_ = .directory := by
      rw [walk] at hwalk
      split at hwalk
      · cases hwalk
      · cases hwalk
      · assumption
    rw [walk, hdirectory] at hwalk
    rw [walk, entry_eq_directory_mono h hdirectory]
    dsimp only at hwalk ⊢
    split_ifs at hwalk ⊢ with hlong <;> exact ih hwalk

theorem place_of_directories (h : fs.directories ⊆ gs.directories) (hplace : fs.place path = .ok place) :
    gs.place path = .ok place := by
  unfold Files.place at hplace ⊢
  cases hrefusal : refusal? path with
  | some e => simp [hrefusal] at hplace
  | none =>
    rw [hrefusal] at hplace
    dsimp only at hplace ⊢
    split at hplace
    · exact hplace
    · split_ifs at hplace ⊢ <;> exact walk_of_directories h hplace

/-- A file that was written is read as what was written, unless nothing that is written there stays. -/
theorem read_of_write (h : fs.write path bytes = (.ok (), gs)) (hsink : gs.place path ≠ .ok sink) : gs.read path = .ok bytes := by
  unfold write at h
  split at h
  · cases h
  · rename_i made hmade
    split at h
    · cases h
    · rename_i place hplace
      split at h
      · cases h
      · rename_i hentry
        obtain ⟨-, rfl⟩ := Prod.mk.inj h
        -- The place was found before writing; the directories have not changed since.
        have hsame : (if place = sink then made else { made with contents := put place bytes made.contents }).place path = .ok place :=
          place_of_directories (by split_ifs <;> exact List.Subset.refl _) hplace
        rw [hsame] at hsink
        have hne : place ≠ sink := fun he => hsink (congrArg _ he)
        rw [if_neg hne] at hsame ⊢
        rw [read, lookup, hsame, Except.map, entry_put hentry hne]

/-- Can a file be written at the end of the path? What is written plays no part. -/
def IsWritable (fs : Files) (path : Path) : Prop := ∃ gs, fs.write path [] = (.ok (), gs)

theorem isWritable_of_write (h : fs.write path bytes = (.ok (), gs)) (more : List Nat) : ∃ gs, fs.write path more = (.ok (), gs) := by
  unfold write at h ⊢
  split at h
  · cases h
  · split at h
    · cases h
    · split at h
      · cases h
      · exact ⟨_, rfl⟩

theorem IsWritable.exists_write (h : fs.IsWritable path) (bytes : List Nat) : ∃ gs, fs.write path bytes = (.ok (), gs) := by
  obtain ⟨gs, hgs⟩ := h
  exact isWritable_of_write hgs bytes

theorem contents_makeDirectory (fs : Files) (path : Path) (fuel : Nat) : (fs.makeDirectory path fuel).2.contents = fs.contents := by
  induction fuel generalizing fs path with
  | zero => rfl
  | succ fuel ih =>
    rw [makeDirectory]
    split
    · have habove := ih fs path.parent
      split
      · rename_i hmade
        rwa [hmade] at habove
      · rename_i hmade
        rw [hmade] at habove
        rw [ih, habove]
    · rfl
    · split <;> rfl

theorem contents_of_write_eq_error {e : FileFault} (h : fs.write path bytes = (.error e, gs)) : gs.contents = fs.contents := by
  have hparent := contents_makeDirectory fs path.parent (2 * path.parts.length + 1)
  unfold write at h
  split at h
  · rename_i hmade
    rw [hmade] at hparent
    rwa [← (Prod.mk.inj h).2]
  · rename_i hmade
    rw [hmade] at hparent
    split at h
    · rwa [← (Prod.mk.inj h).2]
    · split at h
      · rwa [← (Prod.mk.inj h).2]
      · cases h

theorem read_eq_ok : fs.read path = .ok bytes ↔ ∃ place, fs.place path = .ok place ∧ fs.entry place = .file bytes := by
  rw [read, lookup]
  cases fs.place path with
  | error e => simp [Except.map]
  | ok place => cases hentry : fs.entry place <;> simp [Except.map, hentry]

def IsDirectory (fs : Files) (path : Path) : Prop := ∃ place, fs.place path = .ok place ∧ fs.entry place = .directory

theorem IsDirectory.mono (h : fs.directories ⊆ gs.directories) (hdirectory : fs.IsDirectory path) : gs.IsDirectory path := by
  obtain ⟨place, hplace, hentry⟩ := hdirectory
  exact ⟨place, place_of_directories h hplace, entry_eq_directory_mono h hentry⟩

theorem IsDirectory.makeDirectory_eq (h : fs.IsDirectory path) (fuel : Nat) : fs.makeDirectory path (fuel + 1) = (.ok (), fs) := by
  obtain ⟨place, hplace, hentry⟩ := h
  rw [makeDirectory, hplace]
  dsimp only
  rw [hentry]

theorem isDirectory_of_makeDirectory {fuel : Nat} (h : fs.makeDirectory path fuel = (.ok (), gs)) : gs.IsDirectory path := by
  induction fuel generalizing fs path with
  | zero => cases h
  | succ fuel ih =>
    rw [makeDirectory] at h
    split at h
    · split at h
      · cases h
      · exact ih h
    · cases h
    · rename_i place hplace
      split at h
      · rename_i hentry
        obtain ⟨-, rfl⟩ := Prod.mk.inj h
        exact ⟨place, hplace, hentry⟩
      · cases h
      · obtain ⟨-, rfl⟩ := Prod.mk.inj h
        exact ⟨place, place_of_directories (List.subset_append_left ..) hplace, entry_eq_directory.2 (by simp)⟩

theorem walk_dropLast (other : Path) (hparts : parts ≠ []) (hwalk : fs.walk path from_ parts = .ok place) :
    ∃ above, fs.walk other from_ parts.dropLast = .ok above ∧ fs.entry above = .directory := by
  induction parts generalizing from_ with
  | nil => exact absurd rfl hparts
  | cons part r ih =>
    rw [walk] at hwalk
    split at hwalk
    · cases hwalk
    · cases hwalk
    · rename_i hdirectory
      have hlong : ¬ longestName < size part := fun hlong => by
        rw [if_pos hlong] at hwalk
        cases hwalk
      rw [if_neg hlong] at hwalk
      by_cases hr : r = []
      · exact ⟨from_, by rw [hr]; rfl, hdirectory⟩
      · obtain ⟨above, habove, hentry⟩ := ih hr hwalk
        refine ⟨above, ?_, hentry⟩
        rw [List.dropLast_cons_of_ne_nil hr, walk, hdirectory]
        exact (if_neg hlong).trans habove

theorem ne_missing_of_refusal? {e : FileFault} (h : refusal? path = some e) (p : Path) : e ≠ .missing p := by
  rintro rfl
  unfold refusal? at h
  split_ifs at h <;> cases h

/-- Above a file that is there stands a directory, unless the path is its own parent or the text of its parent is refused. -/
theorem isDirectory_parent (h : fs.read path = .ok bytes) :
    path.parent = path ∨ fs.IsDirectory path.parent ∨ ∃ e, fs.place path.parent = .error e ∧ ∀ p, e ≠ .missing p := by
  obtain ⟨place, hplace, hentry⟩ := read_eq_ok.1 h
  by_cases hroots : path.parts.all Path.isRoot = true
  · exact .inl (if_pos hroots)
  have hparent : path.parent = ⟨path.parts.dropLast⟩ := if_neg hroots
  cases hrefusal : refusal? path.parent with
  | some e => exact .inr (.inr ⟨e, by rw [Files.place, hrefusal], ne_missing_of_refusal? hrefusal⟩)
  | none =>
    refine .inr (.inl ?_)
    rw [IsDirectory, Files.place, hrefusal]
    unfold Files.place at hplace
    split at hplace
    · cases hplace
    obtain ⟨parts⟩ := path
    rw [hparent]
    match parts, hroots, hplace with
    | [], hroots, _ => exact absurd rfl hroots
    | [part], hroots, _ => exact ⟨[], rfl, rfl⟩
    | part :: next :: r, _, hplace =>
      dsimp only [List.dropLast] at hplace ⊢
      split_ifs at hplace ⊢ with hroot
      · exact walk_dropLast _ (List.cons_ne_nil next r) hplace
      · exact walk_dropLast _ (List.cons_ne_nil part (next :: r)) hplace

theorem makeDirectory_of_read (h : fs.read path = .ok bytes) (fuel : Nat) : (fs.makeDirectory path.parent (fuel + 1)).2 = fs := by
  obtain ⟨place, hplace, hentry⟩ := read_eq_ok.1 h
  rcases isDirectory_parent h with hself | hdirectory | ⟨e, he, hmissing⟩
  · rw [hself, makeDirectory, hplace]
    dsimp only
    rw [hentry]
  · rw [hdirectory.makeDirectory_eq]
  · rw [makeDirectory, he]
    cases e <;> first | rfl | exact absurd rfl (hmissing _)

theorem write_of_read (h : fs.read path = .ok bytes) (more : List Nat) :
    (fs.write path more).2 = fs ∨
      ∃ place, fs.place path = .ok place ∧ place ≠ sink ∧ (fs.write path more).2 = { fs with contents := put place more fs.contents } := by
  have hmade := makeDirectory_of_read h (2 * path.parts.length)
  unfold write
  split
  · rename_i heq
    exact .inl (by rwa [heq] at hmade)
  · rename_i heq
    rw [heq] at hmade
    dsimp only at hmade
    subst hmade
    split
    · exact .inl rfl
    · rename_i place hplace
      split
      · exact .inl rfl
      · by_cases hsink : place = sink
        · exact .inl (if_pos hsink)
        · exact .inr ⟨place, hplace, hsink, if_neg hsink⟩

/-- What can be written again and again: a file with these bytes, in a directory, and not the one in which nothing stays. -/
structure IsOpen (fs : Files) (path : Path) (bytes : List Nat) : Prop where
  read_eq : fs.read path = .ok bytes
  stays : fs.place path ≠ .ok sink
  parent : fs.IsDirectory path.parent

theorem isOpen_of_write (h : fs.write path bytes = (.ok (), gs)) (hsink : gs.place path ≠ .ok sink) : gs.IsOpen path bytes := by
  refine ⟨read_of_write h hsink, hsink, ?_⟩
  unfold write at h
  split at h
  · cases h
  · rename_i made hmade
    have hdirectory := isDirectory_of_makeDirectory hmade
    split at h
    · cases h
    · split at h
      · cases h
      · obtain ⟨-, rfl⟩ := Prod.mk.inj h
        exact hdirectory.mono (by split_ifs <;> exact List.Subset.refl _)

theorem IsOpen.write (h : fs.IsOpen path bytes) (more : List Nat) : (fs.write path more).2.IsOpen path more := by
  obtain ⟨place, hplace, hentry⟩ := read_eq_ok.1 h.read_eq
  have hsink : place ≠ sink := fun heq => h.stays (heq ▸ hplace)
  have hwritten : fs.write path more = (.ok (), { fs with contents := put place more fs.contents }) := by
    rw [Files.write, h.parent.makeDirectory_eq]
    dsimp only
    rw [hplace]
    dsimp only
    rw [hentry]
    dsimp only
    rw [if_neg hsink]
  have hplace' : ({ fs with contents := put place more fs.contents } : Files).place path = .ok place :=
    place_of_directories (List.Subset.refl fs.directories) hplace
  rw [hwritten]
  exact isOpen_of_write hwritten fun heq => hsink (Except.ok.inj (hplace'.symm.trans heq))

theorem find?_put_of_ne {other : List String} (h : place ≠ other) (bytes : List Nat) (contents : List (List String × List Nat)) :
    (put place bytes contents).find? (fun f => f.1 = other) = contents.find? (fun f => f.1 = other) := by
  induction contents with
  | nil => simp [put, h]
  | cons f r ih =>
    unfold put
    split_ifs with hf
    · have hne : f.1 ≠ other := hf ▸ h
      rw [List.find?_cons_of_neg (by simpa using h), List.find?_cons_of_neg (by simpa using hne)]
    · rw [List.find?_cons, List.find?_cons, ih]

theorem entry_put_of_ne {other : List String} (h : place ≠ other) (bytes : List Nat) :
    ({ fs with contents := put place bytes fs.contents } : Files).entry other = fs.entry other := by
  unfold entry
  dsimp only
  rw [find?_put_of_ne h]

variable {other : Path} {there : List Nat}

theorem directories_write_of_read (h : fs.read path = .ok there) (more : List Nat) :
    (fs.write path more).2.directories = fs.directories := by
  rcases write_of_read h more with heq | ⟨place, -, -, heq⟩ <;> rw [heq]

theorem place_ne_of_directories (h : gs.directories = fs.directories) (hplace : fs.place path = .ok place)
    (hne : fs.place other ≠ fs.place path) : gs.place other ≠ gs.place path := by
  have hsame : ∀ {path place}, gs.place path = .ok place ↔ fs.place path = .ok place :=
    ⟨place_of_directories (h ▸ List.Subset.refl _), place_of_directories (h ▸ List.Subset.refl _)⟩
  rw [hplace] at hne
  rw [hsame.2 hplace]
  exact fun hother => hne (hsame.1 hother)

theorem IsOpen.write_other (h : fs.IsOpen path bytes) (hread : fs.read other = .ok there) (hne : fs.place other ≠ fs.place path)
    (more : List Nat) : (fs.write other more).2.IsOpen path bytes := by
  obtain ⟨place, hplace, hentry⟩ := read_eq_ok.1 h.read_eq
  rcases write_of_read hread more with heq | ⟨written, hwritten, -, heq⟩
  · rwa [heq]
  · have hplace' : ({ fs with contents := put written more fs.contents } : Files).place path = .ok place :=
      place_of_directories (List.Subset.refl fs.directories) hplace
    have happart : written ≠ place := fun hsame => hne (by rw [hwritten, hplace, hsame])
    rw [heq]
    refine ⟨read_eq_ok.2 ⟨place, hplace', (entry_put_of_ne happart more).trans hentry⟩, fun hsink => h.stays ?_, ?_⟩
    · rwa [hplace, ← hplace']
    · exact h.parent.mono (List.Subset.refl fs.directories)

structure IsName (name : String) : Prop where
  accepted : refusal? ⟨[name]⟩ = none
  short : size name ≤ longestName
  notRoot : Path.isRoot name = false
  notAbove : name ≠ ".."

theorem isName_treeFile : IsName "tree.json" := ⟨by decide +kernel, by decide +kernel, by decide, by decide⟩

variable {name : String}

theorem place_name (h : IsName name) (fs : Files) : fs.place ⟨[name]⟩ = .ok [name] := by
  have hgiven : fs.entry [] = .directory := rfl
  simp only [Files.place, h.accepted, h.notRoot, Bool.false_eq_true, if_false, walk, hgiven, if_neg (Nat.not_lt.2 h.short),
    if_neg h.notAbove, List.nil_append]

theorem isGiven_name (h : IsName name) : isGiven [name] = false := by
  have hroot : name ≠ Path.root := fun heq => by
    have hnot := h.notRoot
    rw [heq] at hnot
    exact absurd hnot (by decide)
  simp [isGiven, hroot, h.notAbove]

theorem write_name (h : IsName name) (hfree : [name] ∉ fs.directories) (bytes : List Nat) :
    fs.write ⟨[name]⟩ bytes = (.ok (), { fs with contents := put [name] bytes fs.contents }) := by
  have hparent : (⟨[name]⟩ : Path).parent = ⟨[]⟩ := by simp [Path.parent, h.notRoot]
  have habove : fs.IsDirectory ⟨[]⟩ := ⟨[], by rw [Files.place, show refusal? ⟨[]⟩ = none by decide +kernel], rfl⟩
  have hentry : fs.entry [name] ≠ .directory := by
    rw [Ne, entry_eq_directory]
    simp [isGiven_name h, systemDirectories, hfree]
  have hsink : [name] ≠ sink := by simp [sink]
  rw [write, hparent, habove.makeDirectory_eq]
  dsimp only
  rw [place_name h]
  dsimp only
  split
  · exact absurd ‹_› hentry
  · rw [if_neg hsink]

end BehaviorTree.Files
