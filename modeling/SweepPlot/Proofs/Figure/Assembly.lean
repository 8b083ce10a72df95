import SweepPlot.Figure.Render
import SweepPlot.Proofs.Outcome
set_option autoImplicit false

/-!
How a figure is put together. Its layout is checked and its panels are drafted one after the other, and then nothing can
fail any more: the panels are finished with the drafts of all of them in view. `render_eq_ok_iff`, `render_of_valid` and
`render_of_invalid` say this once, and `forall₂_assemble` what becomes of a single panel.
-/

namespace SweepPlot.View

variable {v : View} {layout : Layout} {groups : List (Group Float)} {figure : Figure}
  {drafts : List (DraftContent × Nat)}

def draftsIn (drafts : List (DraftContent × Nat)) : List (List Draft) :=
  drafts.map fun draft => draftsOf draft.1

def finishDraft (v : View) (tagged : List (List Draft)) (spec : PanelSpec) (draft : DraftContent × Nat) : Panel :=
  v.finishPanel spec (finishContent tagged draft.1) draft.2

def finishDrafts (v : View) (tagged : List (List Draft)) (specs : List PanelSpec)
    (drafts : List (DraftContent × Nat)) : List Panel :=
  (specs.zip drafts).map fun pair => v.finishDraft tagged pair.1 pair.2

def assemble (v : View) (layout : Layout) (drafts : List (DraftContent × Nat)) : Figure where
  title := layout.title
  rows := layout.rows
  cols := layout.cols
  width := layout.width
  height := layout.height
  panels :=
    if layout.shareY then shareRange (v.finishDrafts (draftsIn drafts) layout.panels drafts)
    else v.finishDrafts (draftsIn drafts) layout.panels drafts
  legend := Legend.ofSeries ((v.finishDrafts (draftsIn drafts) layout.panels drafts).flatMap (·.content.series))

/-- The panel is finished for itself, but for its range where the panels share theirs. -/
structure Finished (v : View) (layout : Layout) (tagged : List (List Draft)) (spec : PanelSpec)
    (draft : DraftContent × Nat) (panel : Panel) : Prop where
  same : panel = { v.finishDraft tagged spec draft with range := panel.range }
  apart : layout.shareY = false → panel = v.finishDraft tagged spec draft

theorem render_of_invalid {fault : LayoutFault} (invalid : layout.validate = .error fault) :
    v.render layout groups = .error (.misconfigured (.layout fault)) := by
  unfold render
  rw [invalid]
  rfl

theorem render_of_valid (valid : layout.validate = .ok ()) :
    v.render layout groups = (layout.panels.mapM (v.draftPanel groups)).map (v.assemble layout) := by
  unfold render
  rw [valid]
  cases layout.panels.mapM (v.draftPanel groups) <;> rfl

theorem render_eq_ok_iff : v.render layout groups = .ok figure ↔ layout.validate = .ok () ∧
    ∃ drafts, layout.panels.mapM (v.draftPanel groups) = .ok drafts ∧ v.assemble layout drafts = figure := by
  cases checked : layout.validate with
  | error fault =>
    rw [render_of_invalid checked]
    exact iff_of_false nofun nofun
  | ok =>
    rw [render_of_valid checked, map_eq_ok]
    exact (and_iff_right rfl).symm

/-- Panels with one range show what they showed before. -/
theorem content_shareRange (panels : List Panel) : (shareRange panels).map (·.content) = panels.map (·.content) := by
  unfold shareRange
  rw [List.map_map]
  apply List.map_congr_left
  intro panel _
  dsimp only [Function.comp]
  split <;> rfl

theorem content_assemble : (v.assemble layout drafts).panels.map (·.content) =
    (v.finishDrafts (draftsIn drafts) layout.panels drafts).map (·.content) := by
  unfold assemble
  dsimp only
  split
  · exact content_shareRange _
  · rfl

theorem content_finishDrafts (tagged : List (List Draft)) {specs : List PanelSpec}
    (sizes : drafts.length ≤ specs.length) :
    (v.finishDrafts tagged specs drafts).map (·.content) = drafts.map fun draft => finishContent tagged draft.1 := by
  conv_rhs => rw [← List.map_snd_zip sizes, List.map_map]
  rw [finishDrafts, List.map_map]
  rfl

theorem series_of_contents {panels others : List Panel} (same : panels.map (·.content) = others.map (·.content)) :
    panels.map (·.content.series) = others.map (·.content.series) := by
  simpa only [List.map_map, Function.comp_def] using congrArg (List.map PanelContent.series) same

theorem legend_assemble : (v.assemble layout drafts).legend = Legend.ofSeries (v.assemble layout drafts).allSeries := by
  rw [Figure.allSeries, List.flatMap_def, series_of_contents content_assemble]
  rfl

theorem forall₂_assemble {R : PanelSpec → DraftContent × Nat → Prop}
    (related : List.Forall₂ R layout.panels drafts) :
    List.Forall₂ (fun spec panel => ∃ draft, R spec draft ∧ v.Finished layout (draftsIn drafts) spec draft panel)
      layout.panels (v.assemble layout drafts).panels := by
  have finished : List.Forall₂ (fun spec panel => ∃ draft, R spec draft ∧
      panel = v.finishDraft (draftsIn drafts) spec draft) layout.panels
      (v.finishDrafts (draftsIn drafts) layout.panels drafts) :=
    forall₂_zip_map related _ fun spec draft own => ⟨draft, own, rfl⟩
  unfold assemble
  dsimp only
  split
  next shares =>
    refine List.forall₂_map_right_iff.mpr (finished.imp ?_)
    rintro spec _ ⟨draft, own, rfl⟩
    refine ⟨draft, own, ?_, fun apart => by simp [apart] at shares⟩
    split <;> rfl
  · refine finished.imp ?_
    rintro spec _ ⟨draft, own, rfl⟩
    exact ⟨draft, own, rfl, fun _ => rfl⟩

theorem render_finishes (rendered : v.render layout groups = .ok figure) :
    ∃ drafts, layout.panels.mapM (v.draftPanel groups) = .ok drafts ∧
      List.Forall₂ (fun spec panel => ∃ draft, v.draftPanel groups spec = .ok draft ∧
        v.Finished layout (draftsIn drafts) spec draft panel) layout.panels figure.panels := by
  obtain ⟨-, drafts, drafted, rfl⟩ := render_eq_ok_iff.mp rendered
  exact ⟨drafts, drafted, forall₂_assemble (mapM_eq_ok drafted)⟩

end SweepPlot.View
