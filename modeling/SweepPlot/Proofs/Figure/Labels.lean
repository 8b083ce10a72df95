import SweepPlot.Proofs.Figure.Independence
import SweepPlot.Proofs.Figure.Series
set_option autoImplicit false

/-!
Which series of a panel the labels tell apart. A label names a tag if some panel of the figure has two lines of the
queue type that differ in it. Two lines of a panel differ in a tag, so labels name it; if they still have the same
label, then labels name both tags, and these read the same when they are joined. Joined tags can be told again unless
the separator is part of one.
-/

namespace SweepPlot

def Line.tags (line : Line) : List String :=
  line.subfolder.toList ++ line.variant.toList

/-- The line has both tags, and its subfolder does not contain what stands between the two in a label. -/
def Line.Separable (line : Line) : Prop :=
  ∃ a b, line.subfolder = some a ∧ line.variant = some b ∧ ¬ ", ".toList <:+: a.toList

def Series.provenance (s : Series) : String :=
  String.intercalate ", " s.line.tags

def labelWith (queue : String) (tags : List String) (emphasis : Emphasis) : String :=
  Style.displayName queue ++ (if tags.isEmpty then "" else " [" ++ String.intercalate ", " tags ++ "]") ++ emphasis.mark

/-- Labels that name these tags read the same. -/
structure ReadLike (tags tags' : List String) : Prop where
  empty : tags = [] ↔ tags' = []
  joined : String.intercalate ", " tags = String.intercalate ", " tags'

/-- Some panel has two series of the queue type that differ in the tag. -/
def Figure.Splits (figure : Figure) (tag : Series → Option String) (queue : String) : Prop :=
  ∃ panel ∈ figure.panels, ∃ s ∈ panel.seriesOf queue, ∃ t ∈ panel.seriesOf queue, tag s ≠ tag t

instance (figure : Figure) (tag : Series → Option String) (queue : String) : Decidable (figure.Splits tag queue) :=
  inferInstanceAs (Decidable (∃ panel ∈ figure.panels, ∃ s ∈ panel.seriesOf queue, ∃ t ∈ panel.seriesOf queue,
    tag s ≠ tag t))

section Joined

variable {α : Type} {x y : α} {as as' bs bs' : List α}

/-- A separator does not begin inside another one, so nothing is left between the first ones of two equal lists. -/
theorem eq_nil_of_separator (differ : x ≠ y) {middle : List α} (free : ¬ [x, y] <:+: as ++ middle)
    (same : x :: y :: bs = middle ++ x :: y :: bs') : middle = [] := by
  match middle with
  | [] => rfl
  | [_] =>
    obtain ⟨rfl, second, -⟩ : x = _ ∧ y = x ∧ bs = y :: bs' := by simpa using same
    exact absurd second.symm differ
  | _ :: _ :: rest =>
    obtain ⟨rfl, rfl, -⟩ : x = _ ∧ y = _ ∧ bs = rest ++ x :: y :: bs' := by simpa using same
    exact absurd ⟨as, rest, by simp⟩ free

theorem separator_inj (differ : x ≠ y) (free : ¬ [x, y] <:+: as) (free' : ¬ [x, y] <:+: as')
    (same : as ++ x :: y :: bs = as' ++ x :: y :: bs') : as = as' ∧ bs = bs' := by
  have one : as = as' := by
    obtain ⟨middle, rfl, rest⟩ | ⟨middle, rfl, rest⟩ := List.append_eq_append_iff.mp same
    · rw [eq_nil_of_separator differ free' rest, List.append_nil]
    · rw [eq_nil_of_separator differ free rest, List.append_nil]
  subst one
  refine ⟨rfl, ?_⟩
  simpa using same

/-- Two joined texts are known if the first of them does not have a separator in it. -/
theorem joined_inj {a b a' b' : String} (free : ¬ ", ".toList <:+: a.toList) (free' : ¬ ", ".toList <:+: a'.toList)
    (same : String.intercalate ", " [a, b] = String.intercalate ", " [a', b']) : a = a' ∧ b = b' := by
  have texts : a.toList ++ ',' :: ' ' :: b.toList = a'.toList ++ ',' :: ' ' :: b'.toList := by
    simpa using congrArg String.toList same
  obtain ⟨first, second⟩ := separator_inj (by decide) free free' texts
  exact ⟨String.toList_inj.mp first, String.toList_inj.mp second⟩

/-- Otherwise two pairs may read the same. -/
example : String.intercalate ", " ["a, b", "c"] = String.intercalate ", " ["a", "b, c"] := by decide

theorem ReadLike.eq {tag tag' : Option String} (alike : ReadLike tag.toList tag'.toList) : tag = tag' := by
  obtain ⟨empty, joined⟩ := alike
  cases tag <;> cases tag' <;> simp_all

theorem readLike_of_labelWith {queue : String} {tags tags' : List String} {emphasis : Emphasis}
    (same : labelWith queue tags emphasis = labelWith queue tags' emphasis) : ReadLike tags tags' := by
  have inner := (String.append_right_inj _).mp ((String.append_left_inj _).mp same)
  cases tags with
  | nil =>
    cases tags' with
    | nil => exact ⟨Iff.rfl, rfl⟩
    | cons => simp at inner
  | cons =>
    cases tags' with
    | nil => simp at inner
    | cons => exact ⟨by simp, by simpa using inner⟩

theorem Line.eq_of_readLike {line line' : Line} (queue : line.queue = line'.queue)
    (alike : ReadLike line.tags line'.tags)
    (telling : line.variant = none ∧ line'.variant = none ∨ line.Separable ∧ line'.Separable) : line = line' := by
  obtain ⟨q, subfolder, variant⟩ := line
  obtain ⟨q', subfolder', variant'⟩ := line'
  obtain rfl : q = q' := queue
  obtain ⟨none, none'⟩ | ⟨⟨a, b, hasA, hasB, free⟩, ⟨a', b', hasA', hasB', free'⟩⟩ := telling
  · obtain rfl : variant = Option.none := none
    obtain rfl : variant' = Option.none := none'
    obtain rfl : subfolder = subfolder' := ReadLike.eq (by simpa [tags] using alike)
    rfl
  · obtain rfl : subfolder = some a := hasA
    obtain rfl : variant = some b := hasB
    obtain rfl : subfolder' = some a' := hasA'
    obtain rfl : variant' = some b' := hasB'
    obtain ⟨rfl, rfl⟩ := joined_inj free free' alike.joined
    rfl

end Joined

section Ambiguity

variable {tag : TagOf} {tagged : List (List Draft)}

theorem isAmbiguous_iff {queue : String} : Draft.isAmbiguous tag tagged queue = true ↔
    ∃ drafts ∈ tagged, ∃ d ∈ drafts, ∃ e ∈ drafts, d.queue = queue ∧ e.queue = queue ∧ tag d ≠ tag e := by
  unfold Draft.isAmbiguous
  simp only [List.any_eq_true, decide_eq_true_eq, one_lt_length_distinct, List.mem_map, List.mem_filter, beq_iff_eq]
  grind

variable {drafts : List Draft} {d e : Draft}

theorem isAmbiguous_of_ne (tag : TagOf) (shown : drafts ∈ tagged) (hd : d ∈ drafts) (he : e ∈ drafts)
    (queue : d.queue = e.queue) (differ : tag d ≠ tag e) : Draft.isAmbiguous tag tagged d.queue = true :=
  isAmbiguous_iff.mpr ⟨drafts, shown, d, hd, e, he, rfl, queue.symm, differ⟩

theorem isAmbiguous_of_readLike (shown : drafts ∈ tagged) (hd : d ∈ drafts) (he : e ∈ drafts)
    (queue : d.queue = e.queue) (apart : d.line ≠ e.line)
    (alike : ReadLike (Draft.tags tagged d) (Draft.tags tagged e)) :
    Draft.isAmbiguous (·.subfolder) tagged d.queue = true ∧ Draft.isAmbiguous (·.variant) tagged d.queue = true := by
  have differ : d.subfolder = e.subfolder → d.variant ≠ e.variant := by
    intro subfolder variant
    exact apart (by rw [Draft.line, Draft.line, queue, subfolder, variant])
  unfold Draft.tags at alike
  rw [← queue] at alike
  -- A tag in which the lines differ is named. If it were the only one, it would have to read the same for both.
  by_cases subfolder : d.subfolder = e.subfolder
  · have named := isAmbiguous_of_ne (·.variant) shown hd he queue (differ subfolder)
    refine ⟨?_, named⟩
    by_contra plain
    rw [if_neg plain, if_pos named, if_neg plain, if_pos named] at alike
    exact differ subfolder alike.eq
  · have named := isAmbiguous_of_ne (·.subfolder) shown hd he queue subfolder
    refine ⟨named, ?_⟩
    by_contra plain
    rw [if_pos named, if_neg plain, if_pos named, if_neg plain, List.append_nil, List.append_nil] at alike
    exact subfolder alike.eq

end Ambiguity

namespace View

variable {v : View} {spec : PanelSpec} {layout : Layout} {groups : List (Group Float)} {figure : Figure}

section Drafts

variable {drafts : List Draft}

theorem Drafted.readLike_of_label_eq (drafted : v.Drafted groups spec drafts) {tagged : List (List Draft)}
    (shown : drafts ∈ tagged) {d e : Draft} (hd : d ∈ drafts) (he : e ∈ drafts) (queue : d.queue = e.queue)
    (apart : d.line ≠ e.line) (same : Draft.label tagged d = Draft.label tagged e) :
    ReadLike d.line.tags e.line.tags := by
  have emphasis : d.emphasis = e.emphasis := by
    rw [(drafted.of_mem hd).2.1, (drafted.of_mem he).2.1, queue]
  have labels : labelWith d.queue (Draft.tags tagged d) d.emphasis =
      labelWith e.queue (Draft.tags tagged e) e.emphasis := same
  rw [queue, emphasis] at labels
  have alike := readLike_of_labelWith labels
  obtain ⟨subfolder, variant⟩ := isAmbiguous_of_readLike shown hd he queue apart alike
  have named : ∀ f : Draft, f.queue = d.queue → Draft.tags tagged f = f.line.tags := by
    intro f own
    rw [Draft.tags, own, if_pos subfolder, if_pos variant]
    rfl
  rwa [named d rfl, named e queue.symm] at alike

theorem Drafted.exists_group (drafted : v.Drafted groups spec drafts) {queue : String} {d : Draft}
    (mem : d ∈ drafts.filter fun d => d.queue == queue) : ∃ g ∈ groups, g.queue = queue ∧ d.line = g.line := by
  obtain ⟨mem, ofQueue⟩ := List.mem_filter.mp mem
  obtain ⟨⟨g, hg, line⟩, -⟩ := drafted.of_mem mem
  have same : d.queue = g.queue := congrArg Line.queue line
  exact ⟨g, hg, same.symm.trans (beq_iff_eq.mp ofQueue), line⟩

theorem Drafted.pairwise_labels (drafted : v.Drafted groups spec drafts) {tagged : List (List Draft)}
    (shown : drafts ∈ tagged) (queue : String) :
    (drafts.filter fun d => d.queue == queue).Pairwise fun d e => d.line ≠ e.line ∧
      (Draft.label tagged d = Draft.label tagged e → ReadLike d.line.tags e.line.tags) := by
  have apart := (List.pairwise_map.mp drafted.nodup_lines).filter fun d => d.queue == queue
  refine apart.imp_of_mem fun {d e} hd he differ => ⟨differ, fun same => ?_⟩
  obtain ⟨hd, ofQueue⟩ := List.mem_filter.mp hd
  obtain ⟨he, ofQueue'⟩ := List.mem_filter.mp he
  have queues : d.queue = e.queue := (beq_iff_eq.mp ofQueue).trans (beq_iff_eq.mp ofQueue').symm
  exact drafted.readLike_of_label_eq shown hd he queues differ same

theorem Drafted.nodup_labels (drafted : v.Drafted groups spec drafts) {tagged : List (List Draft)}
    (shown : drafts ∈ tagged) {queue : String}
    (telling : (∀ g ∈ groups, g.queue = queue → g.variant = none) ∨
      (∀ g ∈ groups, g.queue = queue → g.line.Separable)) :
    ((drafts.filter fun d => d.queue == queue).map (Draft.label tagged)).Nodup := by
  rw [List.Nodup, List.pairwise_map]
  refine (drafted.pairwise_labels shown queue).imp_of_mem fun {d e} hd he ⟨apart, alike⟩ same => apart ?_
  have alike := alike same
  obtain ⟨g, hg, ofQueue, line⟩ := drafted.exists_group hd
  obtain ⟨g', hg', ofQueue', line'⟩ := drafted.exists_group he
  rw [line, line'] at alike ⊢
  refine Line.eq_of_readLike (ofQueue.trans ofQueue'.symm) alike ?_
  exact telling.imp (fun none => ⟨none g hg ofQueue, none g' hg' ofQueue'⟩)
    fun separable => ⟨separable g hg ofQueue, separable g' hg' ofQueue'⟩

end Drafts

theorem series_finishContent (tagged : List (List Draft)) (content : DraftContent) :
    (finishContent tagged content).series = (draftsOf content).map (Draft.finish tagged) := by
  cases content <;> rfl

/-- A figure that is rendered has the drafts of its panels as series, with labels that take all of them into account, and
a legend of these series. -/
theorem render_drafts (rendered : v.render layout groups = .ok figure) :
    layout.validate = .ok () ∧ figure.legend = Legend.ofSeries figure.allSeries ∧
      ∃ drafts, layout.panels.mapM (v.draftPanel groups) = .ok drafts ∧
        figure.panels.map (·.content.series) = (draftsIn drafts).map (·.map (Draft.finish (draftsIn drafts))) := by
  obtain ⟨valid, drafts, drafted, rfl⟩ := render_eq_ok_iff.mp rendered
  refine ⟨valid, legend_assemble, drafts, drafted, ?_⟩
  have contents := congrArg (List.map PanelContent.series)
    (content_assemble.trans (v.content_finishDrafts (draftsIn drafts) (mapM_eq_ok drafted).length_eq.ge))
  rw [List.map_map, List.map_map] at contents
  refine contents.trans ?_
  rw [draftsIn, List.map_map]
  exact List.map_congr_left fun draft _ => series_finishContent _ draft.1

theorem render_series (rendered : v.render layout groups = .ok figure) :
    ∃ tagged, List.Forall₂ (v.Drafted groups) layout.panels tagged ∧
      figure.panels.map (·.content.series) = tagged.map (·.map (Draft.finish tagged)) := by
  obtain ⟨-, -, drafts, drafted, series⟩ := render_drafts rendered
  refine ⟨_, List.forall₂_map_right_iff.mpr ?_, series⟩
  exact (mapM_eq_ok drafted).imp fun _ draft done => (draftPanel_holdsLines draft done).1

section Figures

variable {tagged : List (List Draft)}
  (series : figure.panels.map (·.content.series) = tagged.map (·.map (Draft.finish tagged)))
include series

theorem exists_drafted (drafted : List.Forall₂ (v.Drafted groups) layout.panels tagged) {panel : Panel}
    (mem : panel ∈ figure.panels) :
    ∃ spec, ∃ drafts ∈ tagged, v.Drafted groups spec drafts ∧ ∀ queue,
      panel.seriesOf queue = (drafts.filter fun d => d.queue == queue).map (Draft.finish tagged) := by
  have shown : panel.content.series ∈ tagged.map (·.map (Draft.finish tagged)) := by
    rw [← series]
    exact List.mem_map_of_mem mem
  obtain ⟨drafts, listed, content⟩ := List.mem_map.mp shown
  obtain ⟨spec, -, own⟩ := exists_mem_of_forall₂ drafted listed
  refine ⟨spec, drafts, listed, own, fun queue => ?_⟩
  rw [Panel.seriesOf, ← content, List.filter_map]
  rfl

theorem splits_iff {tag : Series → Option String} {queue : String} :
    figure.Splits tag queue ↔ Draft.isAmbiguous (fun d => tag (Draft.finish tagged d)) tagged queue = true := by
  have listed : figure.Splits tag queue ↔ ∃ shown ∈ figure.panels.map (·.content.series),
      ∃ s ∈ shown, ∃ t ∈ shown, s.queue = queue ∧ t.queue = queue ∧ tag s ≠ tag t := by
    simp only [Figure.Splits, Panel.seriesOf, List.mem_map, exists_exists_and_eq_and, List.mem_filter, beq_iff_eq]
    grind
  rw [listed, series, isAmbiguous_iff]
  simp only [List.mem_map, exists_exists_and_eq_and]
  rfl

theorem label_of_mem (drafted : List.Forall₂ (v.Drafted groups) layout.panels tagged) {queue : String} {s : Series}
    (mem : s ∈ figure.seriesFor queue) : s.label = labelWith queue
      ((if figure.Splits (·.subfolder) queue then s.subfolder.toList else []) ++
        (if figure.Splits (·.variant) queue then s.variant.toList else [])) s.style.emphasis := by
  obtain ⟨inFigure, ofQueue⟩ := List.mem_filter.mp mem
  obtain ⟨panel, mem, onPanel⟩ := List.mem_flatMap.mp inFigure
  obtain ⟨spec, drafts, listed, own, shown⟩ := exists_drafted series drafted mem
  have onPanel : s ∈ panel.seriesOf queue := List.mem_filter.mpr ⟨onPanel, ofQueue⟩
  rw [shown] at onPanel
  obtain ⟨d, hd, rfl⟩ := List.mem_map.mp onPanel
  obtain rfl : d.queue = queue := beq_iff_eq.mp ofQueue
  have level : d.style.emphasis = d.emphasis := (own.of_mem (List.mem_filter.mp hd).1).2.2
  have tags : Draft.tags tagged d =
      (if figure.Splits (·.subfolder) d.queue then d.subfolder.toList else []) ++
        (if figure.Splits (·.variant) d.queue then d.variant.toList else []) := by
    rw [if_congr (splits_iff series) rfl rfl, if_congr (splits_iff series) rfl rfl]
    rfl
  change labelWith d.queue (Draft.tags tagged d) d.emphasis = labelWith d.queue _ d.style.emphasis
  rw [tags, level]
  rfl

end Figures

/-- Two series of a queue type on a panel have the same label only if their tags read the same when joined. They never
have if no group of the type has a variant, or if all have both tags with no separator in the subfolder. A label names
a tag if and only if some panel shows the queue type with that tag in two forms. -/
theorem render_labels (rendered : v.render layout groups = .ok figure) :
    (∀ panel ∈ figure.panels, ∀ queue,
      (panel.seriesOf queue).Pairwise fun s t => s.label = t.label → s.provenance = t.provenance) ∧
    (∀ queue, (∀ g ∈ groups, g.queue = queue → g.variant = none) ∨
        (∀ g ∈ groups, g.queue = queue → g.line.Separable) →
      ∀ panel ∈ figure.panels, ((panel.seriesOf queue).map (·.label)).Nodup) ∧
    ∀ queue, ∀ s ∈ figure.seriesFor queue, s.label = labelWith queue
      ((if figure.Splits (·.subfolder) queue then s.subfolder.toList else []) ++
        (if figure.Splits (·.variant) queue then s.variant.toList else [])) s.style.emphasis := by
  obtain ⟨tagged, drafted, series⟩ := render_series rendered
  refine ⟨fun panel mem queue => ?_, fun queue telling panel mem => ?_, fun queue s mem => ?_⟩
  · obtain ⟨spec, drafts, listed, own, shown⟩ := exists_drafted series drafted mem
    rw [shown, List.pairwise_map]
    exact (own.pairwise_labels listed queue).imp fun ⟨_, alike⟩ same => (alike same).joined
  · obtain ⟨spec, drafts, listed, own, shown⟩ := exists_drafted series drafted mem
    rw [shown, List.map_map]
    exact own.nodup_labels listed telling
  · exact label_of_mem series drafted mem

def sourced : List (Group Float) :=
  [{ timed "bbq" 2 (some 3.5) with subfolder := some "old" },
    { timed "lcrq" 2 (some 1.5) with subfolder := some "new" },
    { timed "bbq" 2 (some 4.5) with subfolder := some "new" }]

theorem render_labels_sourced :
    ∃ figure panel, spotlight.render (Layout.single .throughput) sourced = .ok figure ∧ figure.panels = [panel] ∧
      ((panel.seriesOf "bbq").map (·.label)).Nodup ∧
      panel.content.series.map (·.label) = ["lcrq", "BBQ [old] ★", "BBQ [new] ★"] := by
  have styled : spotlight.Styled sourced := styled_of_style? (by decide +kernel)
  obtain ⟨figure, rendered, -⟩ := render_yields
    (Layout.validate_eq_ok_iff.mp (show (Layout.single .throughput).validate = .ok () by decide)) styled
  obtain ⟨_, -, holds⟩ := render_holdsLines rendered
  obtain ⟨panel, _, holds, others, panels⟩ := List.forall₂_cons_left_iff.mp holds
  obtain rfl := List.forall₂_nil_left_iff.mp others
  have shows := holds.showsLines rfl
  have lines : panel.content.series.map Series.line =
      [⟨"lcrq", some "new", none⟩, ⟨"bbq", some "old", none⟩, ⟨"bbq", some "new", none⟩] :=
    shows.lines.trans (by decide +kernel)
  obtain ⟨-, nodup, labels⟩ := render_labels rendered
  refine ⟨figure, panel, rendered, panels, nodup "bbq" (.inl (by decide)) panel (by simp [panels]), ?_⟩
  obtain ⟨s, t, u, series⟩ : ∃ s t u, panel.content.series = [s, t, u] :=
    List.length_eq_three.mp (by simpa using congrArg List.length lines)
  have emphasis := holds.emphasis rfl
  simp only [series, List.map_cons, List.map_nil, List.cons.injEq, Series.line, Line.mk.injEq, and_true] at lines
  obtain ⟨⟨queueS, subfolderS, variantS⟩, ⟨queueT, subfolderT, variantT⟩, queueU, subfolderU, variantU⟩ := lines
  have ofLcrq : panel.seriesOf "lcrq" = [s] := by simp [Panel.seriesOf, series, queueS, queueT, queueU]
  have ofBbq : panel.seriesOf "bbq" = [t, u] := by simp [Panel.seriesOf, series, queueS, queueT, queueU]
  have drawn : ∀ r ∈ panel.content.series, r ∈ figure.seriesFor r.queue := by
    simp [Figure.seriesFor, Figure.allSeries, panels]
  have label : ∀ r ∈ panel.content.series, r.label = labelWith r.queue
      (if r.queue = "bbq" then r.subfolder.toList else []) (spotlight.filter.emphasis r.queue true) := by
    intro r mem
    rw [labels _ r (drawn r mem), emphasis r mem]
    simp only [series, List.mem_cons, List.not_mem_nil, or_false] at mem
    obtain rfl | rfl | rfl := mem <;> simp [Figure.Splits, *]
  simp only [series, List.forall_mem_cons, queueS, queueT, queueU, subfolderS, subfolderT, subfolderU] at label
  obtain ⟨labelS, labelT, labelU, -⟩ := label
  rw [series, List.map_cons, List.map_cons, List.map_cons, labelS, labelT, labelU]
  decide +kernel

end View

end SweepPlot
