import SweepPlot.Aggregation
import SweepPlot.Figure.Basic
import SweepPlot.Layout
set_option autoImplicit false

/-!
From groups to a figure. Each panel of the layout selects groups; a value that the panel's scale cannot
show is dropped and counted. Lines join the points of one queue type, subfolder and variant in order of the
swept count, muted lines below and highlighted ones on top. A label names a tag only if some panel of the
figure shows the queue type with two different tags. Bars stand in order of falling value.
-/

namespace SweepPlot

/-- How groups are looked at: their styles, which are shown, the swept count and its ticks. -/
structure View where
  registry : Registry
  filter : Filter
  sweep : Sweep
  ticks : List Int

structure Draft where
  queue : String
  subfolder : Option String
  variant : Option String
  emphasis : Emphasis
  style : DrawStyle
  points : List Point

inductive DraftContent where
  | lines (drafts : List Draft)
  | bars (bars : List Bar)

abbrev TagOf := Draft → Option String

def barAxisLabel : String := "Queue Type"

namespace PanelSpec

/-- A panel without a tag of its own takes groups with any. -/
def allows (own tag : Option String) : Bool :=
  own.isNone || tag == own

def selects (spec : PanelSpec) (filter : Filter) (g : Group Float) : Bool :=
  filter.admits g.queue && spec.selection.admits g.queue &&
    allows spec.variant g.variant && allows spec.subfolder g.subfolder

end PanelSpec

namespace Draft

def isOf (d : Draft) (g : Group Float) : Bool :=
  d.queue == g.queue && d.subfolder == g.subfolder && d.variant == g.variant

def sortPoints (d : Draft) : Draft :=
  { d with points := d.points.mergeSort fun p q => decide (p.x ≤ q.x) }

def sortLayers (drafts : List Draft) : List Draft :=
  drafts.mergeSort fun a b => decide (a.emphasis.layer ≤ b.emphasis.layer)

/-- Whether one of the panels shows the queue type with two different tags. -/
def isAmbiguous (tag : TagOf) (panels : List (List Draft)) (queue : String) : Bool :=
  panels.any fun drafts =>
    decide (1 < (distinct ((drafts.filter fun d => d.queue == queue).map tag)).length)

def tags (panels : List (List Draft)) (d : Draft) : List String :=
  (if isAmbiguous (·.subfolder) panels d.queue then d.subfolder.toList else []) ++
    (if isAmbiguous (·.variant) panels d.queue then d.variant.toList else [])

def label (panels : List (List Draft)) (d : Draft) : String :=
  let tags := tags panels d
  Style.displayName d.queue ++
    (if tags.isEmpty then "" else " [" ++ String.intercalate ", " tags ++ "]") ++ d.emphasis.mark

def finish (panels : List (List Draft)) (d : Draft) : Series where
  queue := d.queue
  subfolder := d.subfolder
  variant := d.variant
  label := label panels d
  style := d.style
  points := d.points

end Draft

namespace Bar

/-- Falling values, equal ones by rising label. -/
def precedes (a b : Bar) : Bool :=
  let keyA := Number.orderKey a.value
  let keyB := Number.orderKey b.value
  decide (keyB < keyA) || (keyA == keyB && decide (a.label ≤ b.label))

end Bar

namespace View

def styleFor (v : View) (queue : String) (emphasis : Emphasis) : Except Failure DrawStyle :=
  match v.registry.draw? queue emphasis with
  | some style => .ok style
  | none => .error (.misconfigured (.unstyled queue))

def addPoint (v : View) (spec : PanelSpec) (g : Group Float) (p : Point) :
    List Draft → Except Failure (List Draft)
  | [] =>
    let emphasis := v.filter.emphasis g.queue spec.highlight
    (v.styleFor g.queue emphasis).map fun style =>
      [⟨g.queue, g.subfolder, g.variant, emphasis, style, [p]⟩]
  | d :: ds =>
    if d.isOf g then .ok ({ d with points := d.points ++ [p] } :: ds)
    else (v.addPoint spec g p ds).map (d :: ·)

def addToLines (v : View) (spec : PanelSpec) (state : List Draft × Nat) (g : Group Float) :
    Except Failure (List Draft × Nat) :=
  match g.count v.sweep, g.metric spec.metric with
  | some x, some y =>
    if spec.scale.accepts y then
      (v.addPoint spec g ⟨Number.nearestWhole x, y⟩ state.1).map fun drafts => (drafts, state.2)
    else .ok (state.1, state.2 + 1)
  | _, _ => .ok state

def panelLines (v : View) (spec : PanelSpec) (groups : List (Group Float)) :
    Except Failure (List Draft × Nat) :=
  ((groups.filter (spec.selects v.filter)).foldlM (v.addToLines spec) ([], 0)).map
    fun state => (Draft.sortLayers (state.1.map Draft.sortPoints), state.2)

def addToBars (v : View) (spec : PanelSpec) (state : List Bar × Nat) (g : Group Float) :
    Except Failure (List Bar × Nat) :=
  match g.metric spec.metric with
  | some value =>
    if spec.scale.accepts value then
      let emphasis := v.filter.emphasis g.queue spec.highlight
      (v.styleFor g.queue emphasis).map fun style =>
        (state.1 ++ [⟨g.queue, Registry.label g.queue emphasis, value, style⟩], state.2)
    else .ok (state.1, state.2 + 1)
  | none => .ok state

def panelBars (v : View) (spec : PanelSpec) (groups : List (Group Float)) :
    Except Failure (List Bar × Nat) :=
  ((groups.filter (spec.selects v.filter)).foldlM (v.addToBars spec) ([], 0)).map
    fun state => (state.1.mergeSort Bar.precedes, state.2)

def draftPanel (v : View) (groups : List (Group Float)) (spec : PanelSpec) :
    Except Failure (DraftContent × Nat) :=
  match spec.kind with
  | .lines => (v.panelLines spec groups).map fun state => (.lines state.1, state.2)
  | .bars => (v.panelBars spec groups).map fun state => (.bars state.1, state.2)

def finishContent (panels : List (List Draft)) : DraftContent → PanelContent
  | .lines drafts => .lines (drafts.map (Draft.finish panels))
  | .bars bars => .bars bars

def finishPanel (v : View) (spec : PanelSpec) (content : PanelContent) (dropped : Nat) : Panel where
  row := spec.row
  col := spec.col
  title := spec.title
  xLabel := match spec.kind with
    | .lines => v.sweep.axisLabel
    | .bars => barAxisLabel
  yLabel := spec.metric.axisLabel
  scale := spec.scale
  ticks := match spec.kind with
    | .lines => v.ticks.map Number.nearestWhole
    | .bars => []
  range := content.range
  sideLabel := spec.sideLabel
  content := content
  dropped := dropped

def draftsOf : DraftContent → List Draft
  | .lines drafts => drafts
  | .bars _ => []

/-- Panels that show anything get the range of all panels together. -/
def shareRange (panels : List Panel) : List Panel :=
  let shared := Range.hull (panels.filterMap (·.range))
  panels.map fun panel => if panel.range.isSome then { panel with range := shared } else panel

def render (v : View) (layout : Layout) (groups : List (Group Float)) : Except Failure Figure := do
  (layout.validate).mapError fun fault => .misconfigured (.layout fault)
  let drafts ← layout.panels.mapM (v.draftPanel groups)
  let tagged := drafts.map fun draft => draftsOf draft.1
  let panels := (layout.panels.zip drafts).map fun (spec, draft) =>
    v.finishPanel spec (finishContent tagged draft.1) draft.2
  return {
    title := layout.title
    rows := layout.rows
    cols := layout.cols
    width := layout.width
    height := layout.height
    panels := if layout.shareY then shareRange panels else panels
    legend := Legend.ofSeries (panels.flatMap (·.content.series)) }

end View

end SweepPlot
