import SweepPlot.Proofs.Figure.Labels
set_option autoImplicit false

namespace SweepPlot

namespace Legend

/-- The legend has the labels of the series, in the order in which they first come, each in the style of the first series
with it. -/
structure Lists (legend : Legend) (series : List Series) : Prop where
  once : (legend.map (·.label)).Nodup
  complete : ∀ s ∈ series, s.label ∈ legend.map (·.label)
  first : ∀ entry ∈ legend, ∃ s, series.find? (fun s => s.label == entry.label) = some s ∧ entry.style = s.style
  order : (legend.map (·.label)).Pairwise fun a b =>
    (series.map (·.label)).idxOf a < (series.map (·.label)).idxOf b

variable {legend : Legend} {series : List Series}

theorem holds_iff {label : String} : legend.holds label = true ↔ label ∈ legend.map (·.label) := by
  simp [holds]

theorem ofSeries_concat (series : List Series) (s : Series) :
    ofSeries (series ++ [s]) = (ofSeries series).insert s.label s.style := by
  rw [ofSeries, List.foldl_append]
  rfl

theorem labels_ofSeries (series : List Series) :
    (ofSeries series).map (·.label) = distinct (series.map (·.label)) := by
  -- Entries are added at the end, so the induction takes the last series off.
  induction series using List.reverseRecOn with
  | nil => rfl
  | append_singleton series s ih =>
    have known : (ofSeries series).holds s.label = true ↔ s.label ∈ series.map (·.label) := by
      rw [holds_iff, ih, mem_distinct]
    rw [ofSeries_concat, insert, List.map_append, List.map_singleton, distinct_concat, if_congr known rfl rfl]
    split
    · exact ih
    · rw [List.map_append, ih]
      rfl

theorem first_ofSeries (series : List Series) : ∀ entry ∈ ofSeries series,
    ∃ s, series.find? (fun s => s.label == entry.label) = some s ∧ entry.style = s.style := by
  induction series using List.reverseRecOn with
  | nil => simp [ofSeries]
  | append_singleton series s ih =>
    have kept : ∀ entry ∈ ofSeries series,
        ∃ t, (series ++ [s]).find? (fun s => s.label == entry.label) = some t ∧ entry.style = t.style := by
      intro entry mem
      obtain ⟨t, found, style⟩ := ih entry mem
      exact ⟨t, by rw [List.find?_append, found, Option.some_or], style⟩
    rw [ofSeries_concat, insert]
    split
    · exact kept
    next new =>
      intro entry mem
      obtain mem | mem := List.mem_append.mp mem
      · exact kept entry mem
      · obtain rfl := List.mem_singleton.mp mem
        have absent : series.find? (fun t => t.label == s.label) = none := by
          rw [holds_iff, labels_ofSeries, mem_distinct] at new
          rw [List.find?_eq_none]
          intro t present same
          exact new (List.mem_map.mpr ⟨t, present, beq_iff_eq.mp same⟩)
        exact ⟨s, by simp [List.find?_append, absent], rfl⟩

theorem lists_ofSeries (series : List Series) : (ofSeries series).Lists series := by
  have labels := labels_ofSeries series
  refine ⟨?_, fun s mem => ?_, first_ofSeries series, ?_⟩
  · rw [labels]
    exact nodup_distinct _
  · rw [labels, mem_distinct]
    exact List.mem_map_of_mem mem
  · rw [labels]
    exact pairwise_distinct _

end Legend

def Layout.linesOnly (layout : Layout) : Layout :=
  { layout with panels := layout.panels.filter fun spec => spec.kind == .lines }

theorem Layout.validate_linesOnly {layout : Layout} (valid : layout.validate = .ok ())
    (some : ∃ spec ∈ layout.panels, spec.kind = .lines) : layout.linesOnly.validate = .ok () := by
  obtain ⟨-, width, height, inside, apart⟩ := validate_eq_ok_iff.mp valid
  obtain ⟨spec, mem, lines⟩ := some
  have sub : layout.linesOnly.panels.Sublist layout.panels := List.filter_sublist
  refine validate_eq_ok_iff.mpr ⟨?_, width, height, fun p present => inside p (sub.subset present), apart.sublist sub⟩
  exact List.ne_nil_of_mem (List.mem_filter.mpr ⟨mem, beq_iff_eq.mpr lines⟩)

namespace View

variable {v : View} {spec : PanelSpec} {layout : Layout} {groups : List (Group Float)} {figure : Figure}

section LinesOnly

def isLines : DraftContent × Nat → Bool
  | (.lines _, _) => true
  | (.bars _, _) => false

theorem Drawn.isLines_iff {draft : DraftContent × Nat} (drawn : v.Drawn groups spec draft) :
    isLines draft = true ↔ (spec.kind == .lines) = true := by
  cases drawn with
  | lines kind => simp [isLines, kind]
  | bars kind => simp [isLines, kind]

def finished (drafts : List (DraftContent × Nat)) : List Series :=
  (draftsIn drafts).flatMap (·.map (Draft.finish (draftsIn drafts)))

/-- Panels without lines do not make a queue type ambiguous. -/
theorem isAmbiguous_filter_isLines (tag : TagOf) (drafts : List (DraftContent × Nat)) (queue : String) :
    Draft.isAmbiguous tag (draftsIn (drafts.filter isLines)) queue = Draft.isAmbiguous tag (draftsIn drafts) queue := by
  unfold Draft.isAmbiguous draftsIn
  rw [List.any_map, List.any_map, List.any_filter]
  congr 1
  funext ⟨content, dropped⟩
  cases content <;> simp [isLines, draftsOf, distinct]

theorem finished_filter_isLines (drafts : List (DraftContent × Nat)) :
    finished (drafts.filter isLines) = finished drafts := by
  have same : Draft.finish (draftsIn (drafts.filter isLines)) = Draft.finish (draftsIn drafts) := by
    funext d
    unfold Draft.finish Draft.label Draft.tags
    simp only [isAmbiguous_filter_isLines]
  unfold finished
  rw [same]
  clear same
  generalize Draft.finish _ = finish
  induction drafts with
  | nil => rfl
  | cons draft drafts ih =>
    obtain ⟨content, dropped⟩ := draft
    cases content with
    | lines own =>
      rw [List.filter_cons_of_pos rfl]
      exact congrArg (own.map finish ++ ·) ih
    | bars =>
      rw [List.filter_cons_of_neg (by simp [isLines])]
      exact ih

theorem allSeries_of_drafts {drafts : List (DraftContent × Nat)}
    (series : figure.panels.map (·.content.series) = (draftsIn drafts).map (·.map (Draft.finish (draftsIn drafts)))) :
    figure.allSeries = finished drafts := by
  rw [Figure.allSeries, List.flatMap_def, series]
  rfl

theorem render_linesOnly (some : ∃ spec ∈ layout.panels, spec.kind = .lines)
    (rendered : v.render layout groups = .ok figure) :
    ∃ lines, v.render layout.linesOnly groups = .ok lines ∧ lines.allSeries = figure.allSeries := by
  obtain ⟨valid, -, drafts, drafted, series⟩ := render_drafts rendered
  have kept : layout.linesOnly.panels.mapM (v.draftPanel groups) = .ok (drafts.filter isLines) := by
    have kinds := (mapM_eq_ok drafted).imp fun spec draft done =>
      And.intro done ((draftPanel_settles groups spec).returnsOnly draft done).isLines_iff
    have lines := List.rel_filter (fun spec draft own => own.2.symm) kinds
    exact mapM_of_forall₂ (lines.imp fun spec draft own => own.1)
  obtain ⟨lines, rendered'⟩ : ∃ lines, v.render layout.linesOnly groups = .ok lines := by
    rw [render_of_valid (Layout.validate_linesOnly valid some), kept]
    exact ⟨_, rfl⟩
  obtain ⟨-, -, own, drafted', series'⟩ := render_drafts rendered'
  obtain rfl : drafts.filter isLines = own := Except.ok.inj (kept.symm.trans drafted')
  refine ⟨lines, rendered', ?_⟩
  rw [allSeries_of_drafts series', allSeries_of_drafts series, finished_filter_isLines]

end LinesOnly

/-- The series of a panel stand in the order in which they are drawn, and a panel of bars has none. -/
structure Placed (spec : PanelSpec) (panel : Panel) : Prop where
  row : panel.row = spec.row
  col : panel.col = spec.col
  layers : panel.content.series.Pairwise fun s t => s.style.emphasis.layer ≤ t.style.emphasis.layer
  bars : spec.kind = .bars → panel.content.series = []

theorem placed_of_render (rendered : v.render layout groups = .ok figure) :
    List.Forall₂ Placed layout.panels figure.panels := by
  obtain ⟨_, -, cells⟩ := render_holdsLines rendered
  obtain ⟨tagged, drafted, series⟩ := render_series rendered
  have shown : List.Forall₂ (fun spec shown => ∃ drafts, v.Drafted groups spec drafts ∧
      shown = drafts.map (Draft.finish tagged)) layout.panels (figure.panels.map (·.content.series)) := by
    rw [series]
    exact List.forall₂_map_right_iff.mpr (drafted.imp fun _ drafts own => ⟨drafts, own, rfl⟩)
  refine List.Forall₂.mp (fun spec panel cell => ?_) cells (List.forall₂_map_right_iff.mp shown)
  rintro ⟨drafts, own, content⟩
  refine ⟨cell.row, cell.col, ?_, fun bars => ?_⟩
  · rw [content]
    exact List.pairwise_map.mpr own.layers
  · rw [content, own.of_bars bars]
    rfl

/-- A figure lists the labels of its series in its legend, where they first come and in the style that they first have.
Its panels stand in the order of the layout and their series in the order in which they are drawn; panels of bars have
none, and without these panels the legend is the same. -/
theorem render_legend (rendered : v.render layout groups = .ok figure) :
    figure.legend.Lists figure.allSeries ∧
    List.Forall₂ Placed layout.panels figure.panels ∧
    ((∃ spec ∈ layout.panels, spec.kind = .lines) →
      ∃ lines, v.render layout.linesOnly groups = .ok lines ∧ lines.legend = figure.legend) := by
  obtain ⟨-, legend, -⟩ := render_drafts rendered
  refine ⟨?_, ?_, fun some => ?_⟩
  · rw [legend]
    exact Legend.lists_ofSeries _
  · exact placed_of_render rendered
  · obtain ⟨lines, rendered', same⟩ := render_linesOnly some rendered
    obtain ⟨-, legend', -⟩ := render_drafts rendered'
    exact ⟨lines, rendered', by rw [legend', same, legend]⟩

def levels : Layout where
  rows := 1
  cols := 4
  width := 1200
  height := 400
  panels :=
    [{ metric := .throughput, row := 0, col := 3, kind := .bars },
     { metric := .throughput, row := 0, col := 0, selection := .only ["lcrq"], highlight := false },
     { metric := .throughput, row := 0, col := 1, selection := .only ["lcrq"] },
     { metric := .throughput, row := 0, col := 2, selection := .only ["bbq"] }]

/-- The label of two lines comes first where its line is not muted. -/
theorem render_legend_levels :
    ∃ figure lines, spotlight.render levels [timed "bbq" 2 (some 2.5), timed "lcrq" 2 (some 1.5)] = .ok figure ∧
      figure.legend.Lists figure.allSeries ∧
      figure.allSeries.map (fun s => (s.label, s.style.emphasis)) =
        [("lcrq", .normal), ("lcrq", .muted), ("BBQ ★", .highlighted)] ∧
      figure.legend.map (fun entry => (entry.label, entry.style.emphasis)) =
        [("lcrq", .normal), ("BBQ ★", .highlighted)] ∧
      spotlight.render levels.linesOnly [timed "bbq" 2 (some 2.5), timed "lcrq" 2 (some 1.5)] = .ok lines ∧
      lines.legend = figure.legend := by
  obtain ⟨figure, rendered⟩ := exists_eq_ok
    (show (spotlight.render levels [timed "bbq" 2 (some 2.5), timed "lcrq" 2 (some 1.5)]).isOk = true by decide +kernel)
  have shown : ((spotlight.render levels [timed "bbq" 2 (some 2.5), timed "lcrq" 2 (some 1.5)]).toOption.map
      fun figure => (figure.allSeries.map fun s => (s.label, s.style.emphasis),
        figure.legend.map fun entry => (entry.label, entry.style.emphasis))) =
      some ([("lcrq", .normal), ("lcrq", .muted), ("BBQ ★", .highlighted)],
        [("lcrq", .normal), ("BBQ ★", .highlighted)]) := by decide +kernel
  rw [rendered] at shown
  obtain ⟨series, entries⟩ := Prod.mk.inj (Option.some.inj shown)
  obtain ⟨lists, -, others⟩ := render_legend rendered
  obtain ⟨lines, rendered', same⟩ := others ⟨_, List.mem_cons_of_mem _ List.mem_cons_self, rfl⟩
  exact ⟨figure, lines, rendered, lists, series, entries, rendered', same⟩

end View

end SweepPlot
