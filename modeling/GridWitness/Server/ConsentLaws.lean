import GridWitness.Server.DatabaseLaws
import GridWitness.Server.RoutesLaws
import GridWitness.Server.StagedLines

namespace GridWitness.Server

open Library Survey

/-- A row of a live node, with values only in the channels the node consents to. -/
def Row.Consented (db : Database) (r : Row) : Prop :=
  ∃ node, db.getNode node.nodeId = some node ∧ r.get "node_id" = .text node.nodeId ∧
    ∀ c : Channel, r.get c.name ≠ .null → c ∈ node.channels

/-- The same of a data line. -/
def Line.Consented (db : Database) (kind : Kind) (l : Line) : Prop :=
  ∃ node, db.getNode node.nodeId = some node ∧ l.get kind "node_id" = .text node.nodeId ∧
    ∀ c : Channel, l.get kind c.name ≠ .null → c ∈ node.channels

/-- A projected row of a node, with values only in the channels the node consents to. -/
inductive RowOf (node : Node) : Kind → Row → Prop
  | electrical (row : ElectricalRow) (consented : ∀ c ∈ row.presentChannels, c ∈ node.channels) :
    RowOf node .electrical (projectElectrical row node)
  | weather (row : WeatherRow) (consented : ∀ c ∈ row.presentChannels, c ∈ node.channels) :
    RowOf node .weather (projectWeather row node)

/-- A data line that writes such a row out. -/
def LineOf (node : Node) (kind : Kind) (l : Line) : Prop := ∃ r, RowOf node kind r ∧ kind.csvLine r = l

def LineOfLive (db : Database) (kind : Kind) (l : Line) : Prop :=
  ∃ node, db.getNode node.nodeId = some node ∧ LineOf node kind l

theorem RowOf.consented {node : Node} {kind : Kind} {r : Row} (h : RowOf node kind r)
    {db : Database} (hnode : db.getNode node.nodeId = some node) : r.Consented db := by
  cases h with
  | electrical row hchannels =>
    exact ⟨node, hnode, rfl, fun c hc => hchannels c (projectElectrical_channel.mp hc)⟩
  | weather row hchannels =>
    exact ⟨node, hnode, rfl, fun c hc => hchannels c (projectWeather_channel.mp hc)⟩

theorem Row.Consented.line {db : Database} {r : Row} (h : r.Consented db) (kind : Kind) :
    (kind.csvLine r).Consented db kind := by
  obtain ⟨node, hnode, hid, hchannels⟩ := h
  refine ⟨node, hnode, ?_, fun c hc => hchannels c (Kind.csvLine_get_ne_null hc)⟩
  rw [Kind.csvLine_get, if_pos (by cases kind <;> decide), hid]

theorem LineOfLive.consented {db : Database} {kind : Kind} {l : Line} (h : LineOfLive db kind l) :
    l.Consented db kind := by
  obtain ⟨node, hnode, r, hr, rfl⟩ := h
  exact (hr.consented hnode).line kind

theorem consentedRows_rowOf {node : Node} {body : SamplesRequest} {kind : Kind} {r : Row}
    (hr : r ∈ consentedRows node body kind) : RowOf node kind r := by
  cases kind with
  | electrical =>
    obtain ⟨row, hrow, rfl⟩ := List.mem_map.mp hr
    exact .electrical row (by simpa using (List.mem_filter.mp hrow).2)
  | weather =>
    obtain ⟨row, hrow, rfl⟩ := List.mem_map.mp hr
    exact .weather row (by simpa using (List.mem_filter.mp hrow).2)

theorem writeKind_lineOf {rt : Runtime} (kind : Kind) {node : Node} {rows : List Row}
    (fault : Option AppendFault) (w : StagingWriter) (h : ∀ r ∈ rows, RowOf node kind r) :
    StagingTree.Appends (LineOf node) w.tree
      (StagingWriter.writeKind rt kind fault w rows).1.tree := by
  apply (StagingWriter.write_appends rt kind fault w rows).mono
  rintro _ _ ⟨rfl, r, hr, rfl⟩
  exact ⟨r, h r (Deduper.filterNew_unique_mem _ hr), rfl⟩

/-- A samples request stages rows of the one node it names, and none unless it is live. -/
theorem postSamples_lineOf (rt : Runtime) (s : App) (c : SamplesCall) :
    (postSamples rt s c).1.tree = s.tree ∨
      ∃ node, s.db.getNode c.body.nodeId = some node ∧
        StagingTree.Appends (LineOf node) s.tree (postSamples rt s c).1.tree := by
  have helec : ∀ node, StagingTree.Appends (LineOf node) s.tree
      (StagingWriter.writeElectrical rt c.electricalFault s.writer
        (consentedRows node c.body .electrical)).1.tree := fun node =>
    writeKind_lineOf .electrical c.electricalFault s.writer fun _ => consentedRows_rowOf
  have hweather : ∀ node w, StagingTree.Appends (LineOf node) w.tree
      (StagingWriter.writeWeather rt c.weatherFault w
        (consentedRows node c.body .weather)).1.tree := fun node w =>
    writeKind_lineOf .weather c.weatherFault w fun _ => consentedRows_rowOf
  rcases postSamples_cases rt s c with
    ⟨-, _, _, h⟩ | ⟨node, _, hnode, ⟨-, h⟩ | ⟨-, -, h⟩ | ⟨-, -, _, h⟩⟩
  · exact Or.inl (by rw [h]; rfl)
  · refine Or.inr ⟨node, App.admitted_live hnode, ?_⟩
    rw [h]
    exact helec node
  · refine Or.inr ⟨node, App.admitted_live hnode, ?_⟩
    rw [h]
    exact (helec node).trans (hweather node _)
  · refine Or.inr ⟨node, App.admitted_live hnode, ?_⟩
    rw [h]
    exact (helec node).trans (hweather node _)

theorem postSamples_staged (rt : Runtime) (s : App) (c : SamplesCall) :
    StagingTree.Appends (LineOfLive s.db) s.tree (postSamples rt s c).1.tree := by
  rcases postSamples_lineOf rt s c with h | ⟨node, hnode, h⟩
  · rw [h]
    exact .refl
  · exact h.mono fun _ _ hl => ⟨node, by rwa [Database.getNode_nodeId hnode], hl⟩

end GridWitness.Server
