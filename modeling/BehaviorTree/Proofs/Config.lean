import BehaviorTree.Config.Schema
import BehaviorTree.Proofs.Document.RoundTrip
import BehaviorTree.Proofs.Table

/-!
Configurations that are accepted. Whatever they are read from, all measures of the layout are within their bounds, the grid has a
size, and the overall level of what is logged is one of those with a name.
-/

set_option autoImplicit false

namespace BehaviorTree

structure Layout.Options.IsAccepted (o : Options Float) : Prop where
  nodeWidth : 0.0 < o.nodeWidth
  nodeHeight : 0.0 < o.nodeHeight
  spacingX : 0.0 ≤ o.spacingX
  spacingY : 0.0 ≤ o.spacingY
  treeSpacing : 0.0 ≤ o.treeSpacing

theorem Layout.defaultOptions_isAccepted : defaultOptions.IsAccepted := by
  constructor <;> decide +kernel

/-- Has the overall level a name, and is no namespace given two levels? -/
structure LoggingConfig.IsAccepted (c : LoggingConfig) : Prop where
  level : c.level ∈ Config.levelNames
  distinct : (Table.keys c.namespaces).Nodup

namespace Config

open Schema Yaml

variable {α : Type} {rs : List (Data × Data)} {name : String} {fallback a : α} {read : Data → Checked α}

theorem of_field {P : α → Prop} (h : field rs name fallback read = .ok a) (hfallback : P fallback) (hread : ∀ d a, read d = .ok a → P a) :
    P a := by
  unfold field at h
  split at h
  · exact hread _ a (Checked.below_eq_ok.1 h)
  · exact Except.ok.inj h ▸ hfallback

theorem plain_eq_ok {read : Option Scalar → Except Cause α} {d : Data} : plain read d = .ok a ↔ read d.scalar? = .ok a := by
  unfold plain
  cases read d.scalar? with
  | error c => simp [Checked.ofCause, Checked.fail]
  | ok b => simp [Checked.ofCause]

theorem pos_of_readPositive {d : Data} {x : Float} (h : plain readPositive d = .ok x) : 0.0 < x := by
  rw [plain_eq_ok, readPositive] at h
  split at h
  · split_ifs at h with hpos
    exact Except.ok.inj h ▸ hpos
  · cases h

theorem nonneg_of_readNonNegative {d : Data} {x : Float} (h : plain readNonNegative d = .ok x) : 0.0 ≤ x := by
  rw [plain_eq_ok, readNonNegative] at h
  split at h
  · split_ifs at h with hnonneg
    exact Except.ok.inj h ▸ hnonneg
  · cases h

theorem isAccepted_of_layout {d : Data} {o : Layout.Options Float} (h : layout d = .ok o) : o.IsAccepted := by
  obtain ⟨rs, _, h⟩ := Checked.andThen_eq_ok.1 h
  dsimp only at h
  split at h
  · rename_i width height spacingX spacingY treeSpacing hwidth hheight hspacingX hspacingY htreeSpacing
    obtain rfl := Except.ok.inj h
    have hdefault := Layout.defaultOptions_isAccepted
    exact {
      nodeWidth := of_field hwidth hdefault.nodeWidth fun _ _ => pos_of_readPositive
      nodeHeight := of_field hheight hdefault.nodeHeight fun _ _ => pos_of_readPositive
      spacingX := of_field hspacingX hdefault.spacingX fun _ _ => nonneg_of_readNonNegative
      spacingY := of_field hspacingY hdefault.spacingY fun _ _ => nonneg_of_readNonNegative
      treeSpacing := of_field htreeSpacing hdefault.treeSpacing fun _ _ => nonneg_of_readNonNegative }
  · cases h

theorem one_le_of_grid {d : Data} {g : GridSettings} (h : grid d = .ok g) : 1 ≤ g.size := by
  obtain ⟨rs, _, h⟩ := Checked.andThen_eq_ok.1 h
  exact GridSettings.one_le_of_ofScalars h

theorem accepted_of_parse {d : Data} {config : EditorConfig} (h : parse d = .ok config) :
    1 ≤ config.grid.size ∧ config.layout.IsAccepted := by
  unfold parse at h
  split at h
  · split_ifs at h
    have heditor := Checked.report_eq_ok.1 (mapError_eq_ok.1 h)
    unfold editor at heditor
    dsimp only at heditor
    split at heditor
    · rename_i log cells view measures output entryPoints _ hcells _ hmeasures _ _
      obtain rfl := Except.ok.inj heditor
      exact ⟨of_field (P := fun g => 1 ≤ g.size) hcells (by decide) fun _ _ => one_le_of_grid,
        of_field hmeasures Layout.defaultOptions_isAccepted fun _ _ => isAccepted_of_layout⟩
    · cases heditor
  · cases h

end Config

end BehaviorTree
