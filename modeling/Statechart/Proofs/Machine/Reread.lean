import Statechart.Proofs.Chart.Canonical
import Statechart.Proofs.Chart.WellFormed
import Statechart.Proofs.Definition.Tidy
import Statechart.Proofs.Json.Text
import Statechart.Proofs.Machine.Restored

/-!
# Charts that are read again

A chart can be built from a definition that no document is decoded to: its context or its metadata
may be `null`, where a document that says so is taken to say nothing. Its canonical document is
read as the chart of the definition without these, which has the same arena and the same default
context but another text under its checksum. So a snapshot is restored on the chart that is read
again exactly as long as the two texts have the same checksum.
-/
namespace Statechart

namespace Chart

variable {d : Definition} {c : Chart}

/-- The chart with a context or metadata that is `null` left out of its definition. -/
def withoutNulls (c : Chart) : Chart :=
  { c with definition := c.definition.withoutNulls, checksum := c.definition.withoutNulls.checksum }

theorem build_unknown (h : build d = .ok c) : ∀ n ∈ d.nodes, n.2.unknown = [] := by
  obtain ⟨_, _, _, _, hcheck, _, _⟩ := build_ok h
  exact fun n hn => ((checkPlaced_layout_iff.mp hcheck).1 n hn).2

theorem defaultContextOf_filter (x : Option Json) :
    defaultContextOf (x.filter fun v => !v.isNull) = defaultContextOf x := by
  cases x with
  | none => rfl
  | some v => cases v <;> rfl

/-- A definition without its nulls is built to the chart without them. -/
theorem build_withoutNulls (h : build d = .ok c) : build d.withoutNulls = .ok c.withoutNulls := by
  obtain ⟨context, states, hid, hcontext, hcheck, hstates, rfl⟩ := build_ok h
  have hfiltered : defaultContextOf d.withoutNulls.context = .ok context :=
    (defaultContextOf_filter d.context).trans hcontext
  have hsame : d.withoutNulls.id.isEmpty = false := hid
  have hlayout : layout d.withoutNulls = layout d := rfl
  simp only [build, hsame, hlayout, hfiltered, hcheck, hstates, bind, Except.bind, pure,
    Except.pure, Bool.false_eq_true, if_false]
  rfl

theorem withoutNulls_eq_iff (h : build d = .ok c) : c.withoutNulls = c ↔ d.NullFree := by
  have hdefinition := build_definition h
  have hsum : c.checksum = d.checksum := by
    obtain ⟨_, _, _, _, _, _, rfl⟩ := build_ok h
    rfl
  rw [← Definition.withoutNulls_eq_iff, ← hdefinition]
  rw [← hdefinition] at hsum
  constructor
  · exact fun heq => congrArg definition heq
  · intro heq
    rw [withoutNulls, heq, ← hsum]

/-- The canonical document of a chart is read as the chart without nulls. -/
theorem ofJson_toJson (hd : d.Tidy) (h : build d = .ok c) :
    ofJson c.definition.toJson = .ok c.withoutNulls := by
  rw [build_definition h]
  exact ofJson_ok_iff.mpr ⟨d.withoutNulls, (hd.decode (build_unknown h)).2, build_withoutNulls h⟩

/-- So is its canonical text, if its numbers are read back, unless it is nested too deeply. -/
theorem ofText_canonicalText (hd : d.Tidy) (h : build d = .ok c)
    (hdoubles : ∀ x ∈ c.definition.toDocument.doubles, Number.ReadsBack (.double x)) :
    ofText c.definition.canonicalText =
      if c.definition.toDocument.depth < Json.depthLimit then .ok c.withoutNulls
      else .error (.malformed .shape) := by
  have hread := Json.readFirst_write hdoubles
  have hdecode := (hd.decode (build_unknown h)).1
  rw [build_definition h] at hread ⊢
  rw [ofText, Definition.canonicalText, hread]
  by_cases hdepth : d.toDocument.depth < Json.depthLimit
  · rw [if_pos hdepth, if_pos hdepth]
    simp [hdecode, Except.mapError, bind, Except.bind, ofDefinition, build_withoutNulls h]
  · rw [if_neg hdepth, if_neg hdepth]

end Chart

namespace Machine

variable {c : Chart} {m₀ m r : Machine}

/-- A snapshot of a machine of a built chart is restored on every fresh machine of the chart that
is read again, unless the machine runs with nothing active or the checksums differ. -/
theorem restore_withoutNulls {d : Definition} {initial initial' : Json} {setup setup' : Setup}
    (h : Chart.build d = .ok c) (hcreate : create c initial setup = .ok m₀) (inputs : List Input)
    (hactive : (m₀.after inputs).status = .running → (m₀.after inputs).configuration ≠ [])
    (hfresh : create c.withoutNulls initial' setup' = .ok r) :
    r.restore (m₀.after inputs).snapshot =
      if c.withoutNulls.checksum = c.checksum then (r.resume (m₀.after inputs), .ok ())
      else (r, .error (.checksumMismatch c.withoutNulls.checksum c.checksum)) := by
  obtain ⟨hreach, hregular⟩ := after_reaches (create_begins (Chart.build_sound h) hcreate) inputs
  have hchart : (m₀.after inputs).chart = c := hreach.chart.trans (create_chart hcreate)
  obtain ⟨context, rfl⟩ := create_eq hfresh
  rw [restore_snapshot hregular hactive rfl (by rw [hchart]; rfl) (by rw [hchart]; rfl), hchart]

end Machine

namespace Chart

/-- Whatever tidy definition a chart is built from, it is read again from its canonical document as
the chart without nulls, which has the same states and the same default context; from its canonical
text as well, if its numbers are read back and it is not nested too deeply. That is the chart
itself exactly if neither the context nor the metadata of the definition is `null`. A snapshot of a
machine of the one, wherever a run has led, is restored on a fresh machine of the other exactly
if the checksums are the same, provided that something is active if the machine runs. -/
theorem build_reread {d : Definition} {c : Chart} (hd : d.Tidy) (h : build d = .ok c) :
    ofJson c.definition.toJson = .ok c.withoutNulls ∧
    ((∀ x ∈ c.definition.toDocument.doubles, Number.ReadsBack (.double x)) →
      ofText c.definition.canonicalText =
        if c.definition.toDocument.depth < Json.depthLimit then .ok c.withoutNulls
        else .error (.malformed .shape)) ∧
    (c.withoutNulls = c ↔ d.NullFree) ∧
    ∀ initial setup m₀, Machine.create c initial setup = .ok m₀ → ∀ inputs,
      ((m₀.after inputs).status = .running → (m₀.after inputs).configuration ≠ []) →
      ∀ initial' setup' r, Machine.create c.withoutNulls initial' setup' = .ok r →
        r.restore (m₀.after inputs).snapshot =
          if c.withoutNulls.checksum = c.checksum then (r.resume (m₀.after inputs), .ok ())
          else (r, .error (.checksumMismatch c.withoutNulls.checksum c.checksum)) :=
  ⟨ofJson_toJson hd h, ofText_canonicalText hd h, withoutNulls_eq_iff h,
    fun _ _ _ hcreate inputs hactive _ _ _ hfresh =>
      Machine.restore_withoutNulls h hcreate inputs hactive hfresh⟩

/-- A definition of one state with a context. -/
def plainDefinition (context : Option Json) : Definition := { id := "b", root := {}, context }

def plainChart (context : Option Json) : Chart where
  definition := plainDefinition context
  states := #[⟨"b", none, 0, [], none, [], [], [], none⟩]
  defaultContext := .obj []
  checksum := (plainDefinition context).checksum

theorem tidy_plain {context : Option Json} (h : ∀ v ∈ context, v.IsNormal) :
    (plainDefinition context).Tidy :=
  ⟨.bare rfl rfl (by simp [plainDefinition]) (by simp [plainDefinition])
    (by simp [plainDefinition]), h, by simp [plainDefinition]⟩

theorem build_plain_null : build (plainDefinition (some .null)) = .ok (plainChart (some .null)) :=
  rfl

/-- 18.5 degrees. -/
def cool : Double := ⟨false, 37 * Nat.pow 2 1073, by decide +kernel⟩

/-- 20.5 degrees. -/
def warm : Double := ⟨false, 41 * Nat.pow 2 1073, by decide +kernel⟩

def heaterOff : StateDef :=
  StateDef.withTransition {} "tick"
    { target := some "on", guard := some (.expression ⟨"ctx.cold", .context "cold", rfl⟩) }

def heaterOn : StateDef :=
  StateDef.withTransition { entry := [.assign "temp" (.literal (.num (.double warm)))] } "tick"
    { target := some "off", actions := [.assign "cold" (.literal (.bool false))] }

/-- A heater that goes on when it is cold, built step by step. -/
def heaterDefinition : Definition where
  id := "heater"
  root := (StateDef.withChild { initial := some "off" } "off" heaterOff).withChild "on" heaterOn
  context := some (.obj [("cold", .bool true), ("temp", .num (.double cool))])

def heaterChart : Chart where
  definition := heaterDefinition
  states := #[
    ⟨"heater", none, 0, [1, 2], some 1, [], [], [], none⟩,
    ⟨"off", some 0, 1, [], none, [], [],
      [("tick", [⟨1, "tick", some 2, some (.expression ⟨"ctx.cold", .context "cold", rfl⟩), []⟩])],
      none⟩,
    ⟨"on", some 0, 1, [], none, [.assign "temp" (.literal (.num (.double warm)))], [],
      [("tick", [⟨2, "tick", some 1, none, [.assign "cold" (.literal (.bool false))]⟩])], none⟩]
  defaultContext := .obj [("cold", .bool true), ("temp", .num (.double cool))]
  checksum := heaterDefinition.checksum

theorem build_heater : build heaterDefinition = .ok heaterChart := rfl

theorem tidy_heater : heaterDefinition.Tidy where
  root := by
    have hroot : ({ initial := some "off" } : StateDef).Tidy :=
      .bare rfl rfl (by simp) (by simp) (by simp)
    have hoff : heaterOff.Tidy := by
      have hnone : ({} : StateDef).Tidy := .bare rfl rfl (by simp) (by simp) (by simp)
      exact hnone.withTransition "tick" ⟨by rintro g ⟨⟩; rfl, by simp⟩
    have hon : heaterOn.Tidy := by
      have hwarm : (Action.assign "temp" (.literal (.num (.double warm)))).Tidy := rfl
      have hcold : (Action.assign "cold" (.literal (.bool false))).Tidy := rfl
      have hentry : StateDef.Tidy { entry := [.assign "temp" (.literal (.num (.double warm)))] } :=
        .bare rfl rfl (List.forall_mem_singleton.mpr hwarm) (by simp) (by simp)
      exact hentry.withTransition "tick" ⟨by simp, List.forall_mem_singleton.mpr hcold⟩
    exact (hroot.withChild "off" hoff).withChild "on" hon
  context := by rintro v ⟨⟩; rfl
  metadata := by simp [heaterDefinition]

theorem readsBack_heater :
    ∀ x ∈ heaterDefinition.toDocument.doubles, Number.ReadsBack (.double x) := by
  decide +kernel

def heaterMachine : Machine where
  chart := heaterChart
  setup := {}
  context := ⟨[("cold", .bool true), ("temp", .num (.double cool))]⟩

theorem create_heater : Machine.create heaterChart .null {} = .ok heaterMachine := rfl

/-- The heater is read again from its document and from its text, and a snapshot of it while it
heats is restored on what has been read; a chart whose context is `null` is another one when it is
read again. -/
theorem build_reread_heater :
    ofJson heaterChart.definition.toJson = .ok heaterChart ∧
    ofText heaterChart.definition.canonicalText = .ok heaterChart ∧
    (∃ r, heaterMachine.restore
        (heaterMachine.after [.start, .dispatch ⟨"tick", .null⟩]).snapshot = (r, .ok ()) ∧
      r.configurationIds = ["heater", "on"] ∧
      r.context = ⟨[("cold", .bool true), ("temp", .num (.double warm))]⟩) ∧
    (plainChart (some .null)).withoutNulls ≠ plainChart (some .null) := by
  have hnull : (plainDefinition (some .null)).Tidy := tidy_plain (by rintro v ⟨⟩; rfl)
  obtain ⟨hjson, htext, hsame, hrestores⟩ := build_reread tidy_heater build_heater
  obtain ⟨_, _, hother, _⟩ := build_reread hnull build_plain_null
  have heq : heaterChart.withoutNulls = heaterChart :=
    hsame.mpr ⟨by simp [heaterDefinition], by simp [heaterDefinition]⟩
  rw [heq] at hjson htext hrestores
  have hdepth : heaterChart.definition.toDocument.depth < Json.depthLimit := by decide
  have hread := htext readsBack_heater
  rw [if_pos hdepth] at hread
  have hrestored := hrestores .null {} heaterMachine create_heater
    [.start, .dispatch ⟨"tick", .null⟩] nofun .null {} heaterMachine create_heater
  rw [if_pos rfl] at hrestored
  exact ⟨hjson, hread, ⟨_, hrestored, rfl, rfl⟩, fun h => (hother.mp h).1 rfl⟩

/-- The canonical document of a built chart can be read as a chart with another checksum, on which
no snapshot of a machine of the first is restored. -/
theorem null_context_reread : ∃ c' m r,
    build (plainDefinition (some .null)) = .ok (plainChart (some .null)) ∧
    ofJson (plainChart (some .null)).definition.toJson = .ok c' ∧
    c'.checksum ≠ (plainChart (some .null)).checksum ∧
    Machine.create (plainChart (some .null)) .null {} = .ok m ∧
    Machine.create c' .null {} = .ok r ∧
    (r.restore (m.after [.start]).snapshot).2 =
      .error (.checksumMismatch c'.checksum (plainChart (some .null)).checksum) := by
  have hnull : (plainDefinition (some .null)).Tidy := tidy_plain (by rintro v ⟨⟩; rfl)
  have hsums : (plainChart (some .null)).withoutNulls.checksum ≠
      (plainChart (some .null)).checksum := by
    decide +kernel
  let m : Machine := { chart := plainChart (some .null), setup := {}, context := .empty }
  let r : Machine :=
    { chart := (plainChart (some .null)).withoutNulls, setup := {}, context := .empty }
  have hm : Machine.create (plainChart (some .null)) .null {} = .ok m := rfl
  have hr : Machine.create (plainChart (some .null)).withoutNulls .null {} = .ok r := rfl
  refine ⟨_, m, r, build_plain_null, ofJson_toJson hnull build_plain_null, hsums, hm, hr, ?_⟩
  rw [Machine.restore_withoutNulls build_plain_null hm [.start] nofun hr, if_neg hsums]

end Chart

end Statechart
