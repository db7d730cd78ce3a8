import GridWitness.Survey.NameLaws
import GridWitness.Survey.PhaseLaws
import GridWitness.Survey.Pqdif

namespace GridWitness.Survey

open Library Server

variable {clr : Clr} {host : ParserHost}

section Converter

theorem bind_eq_ok {α β : Type} {x : Except String α} {f : α → Except String β} {b : β} :
    x >>= f = .ok b ↔ ∃ a, x = .ok a ∧ f a = .ok b := by
  cases x with
  | error message =>
    refine ⟨fun h => (by cases h), ?_⟩
    rintro ⟨a, ha, -⟩
    cases ha
  | ok a =>
    refine ⟨fun h => ⟨a, rfl, h⟩, ?_⟩
    rintro ⟨a', ha, hf⟩
    cases ha
    exact hf

/-- A sample as the converter makes it. -/
structure Sample.Made (clr : Clr) (x : Sample) : Prop where
  time : ∃ t, x.time = clr.toUniversalTime t
  phase : x.phase ∈ ["L1", "L2", "L3", "1p"]
  channel : x.channel ∈ ["frequency", "voltage"]
  value : ∃ o, clr.toDouble o = some (.fin x.value)

theorem tryToDouble_eq_some {value : clr.Value} {q : ℚ} (h : value.tryToDouble = some q) :
    ∃ o, clr.toDouble o = some (.fin q) := by
  cases value with
  | stamp dt => cases h
  | span ts => cases h
  | object o =>
    simp only [Clr.Value.tryToDouble] at h
    split at h
    · next q' ho =>
      cases h
      exact ⟨o, ho⟩
    · cases h

theorem label_mem (phase : PqdifPhase) : phase.label ∈ ["L1", "L2", "L3", "1p"] := by
  cases phase <;> decide

theorem channelName_mem {isVoltage : Bool} {series : clr.SeriesInstance} {name : String}
    (h : channelName clr isVoltage series = some name) : name ∈ ["frequency", "voltage"] := by
  simp only [channelName] at h
  split at h
  · cases h
  split at h
  · cases h
    decide
  split at h
  · cases h
    decide
  · cases h

theorem emit_made {times : List clr.Stamp} {values : List clr.Value} {phase channel : String}
    (hphase : phase ∈ ["L1", "L2", "L3", "1p"]) (hchannel : channel ∈ ["frequency", "voltage"]) :
    ∀ x ∈ emit clr times values phase channel, x.Made clr := by
  intro x hx
  obtain ⟨⟨time, value⟩, -, hx⟩ := List.mem_filterMap.mp hx
  obtain ⟨q, hq, rfl⟩ := Option.map_eq_some_iff.mp hx
  exact ⟨⟨time, rfl⟩, hphase, hchannel, tryToDouble_eq_some hq⟩

theorem convertChannel_made {start : clr.Stamp} {channel : clr.ChannelInstance} {samples : List Sample}
    (h : convertChannel clr start channel = .ok samples) : ∀ x ∈ samples, x.Made clr := by
  simp only [convertChannel] at h
  split at h
  · cases h
    exact fun x hx => absurd hx List.not_mem_nil
  · obtain ⟨times, -, h⟩ := bind_eq_ok.mp h
    cases h
    intro x hx
    obtain ⟨series, -, hx⟩ := List.mem_flatMap.mp hx
    rw [emitSeries] at hx
    split at hx
    · cases hx
    · next name hname => exact emit_made (label_mem _) (channelName_mem hname) x hx

theorem convertRecord_made {start : clr.Stamp} {channels : List clr.ChannelInstance}
    {samples : List Sample} (h : convertRecord clr start channels = .ok samples) :
    ∀ x ∈ samples, x.Made clr := by
  induction channels generalizing samples with
  | nil =>
    cases h
    exact fun x hx => absurd hx List.not_mem_nil
  | cons channel channels ih =>
    obtain ⟨first, hfirst, h⟩ := bind_eq_ok.mp h
    obtain ⟨rest, hrest, h⟩ := bind_eq_ok.mp h
    cases h
    exact List.forall_mem_append.mpr ⟨convertChannel_made hfirst, ih hrest⟩

theorem convert_made {file : clr.PqdifFile} {samples : List Sample} (h : convert clr file = .ok samples) :
    ∀ x ∈ samples, x.Made clr := by
  induction file generalizing samples with
  | nil =>
    cases h
    exact fun x hx => absurd hx List.not_mem_nil
  | cons record file ih =>
    obtain ⟨record, -, h⟩ := bind_eq_ok.mp h
    obtain ⟨first, hfirst, h⟩ := bind_eq_ok.mp h
    obtain ⟨rest, hrest, h⟩ := bind_eq_ok.mp h
    cases h
    exact List.forall_mem_append.mpr ⟨convertRecord_made hfirst, ih hrest⟩

end Converter

section Visible

/-- The part of a channel that may leave: its times, and the frequencies and voltages next to them. -/
structure VisibleChannel (clr : Clr) where
  phase : String
  times : List clr.Value
  series : List (String × List clr.Value)

/-- A channel without a frequency or a voltage shows nothing. -/
def Clr.ChannelInstance.visible (channel : clr.ChannelInstance) : Option (VisibleChannel clr) :=
  match channel.seriesInstances.find? (·.valueType = .time) with
  | none => none
  | some timeSeries =>
    let isVoltage := channel.quantityMeasured = .voltage
    let series := channel.seriesInstances.filterMap fun series =>
      (channelName clr isVoltage series).map fun name => (name, series.originalValues)
    if series = [] then none else some ⟨channel.phase.label, timeSeries.originalValues, series⟩

/-- What a file shows of its records. -/
def visible : clr.PqdifFile → List (clr.Stamp × List (VisibleChannel clr))
  | [] => []
  | .error _ :: file => visible file
  | .ok record :: file => (record.startTime, record.channelInstances.filterMap (·.visible)) :: visible file

/-- The samples of a visible channel. -/
def VisibleChannel.samples (start : clr.Stamp) (channel : VisibleChannel clr) : List Sample :=
  match resolveTimes clr start channel.times with
  | .ok times => channel.series.flatMap fun series => emit clr times series.2 channel.phase series.1
  | .error _ => []

theorem convertChannel_eq {start : clr.Stamp} {channel : clr.ChannelInstance} {samples : List Sample}
    (h : convertChannel clr start channel = .ok samples) :
    samples = channel.visible.toList.flatMap (VisibleChannel.samples start) := by
  simp only [convertChannel] at h
  split at h
  · next hnone =>
    cases h
    simp [Clr.ChannelInstance.visible, hnone]
  · next timeSeries htimes =>
    obtain ⟨times, hresolve, h⟩ := bind_eq_ok.mp h
    cases h
    have hseries : ∀ all : List clr.SeriesInstance, all.flatMap (emitSeries clr times channel) =
        (all.filterMap fun series =>
          (channelName clr (channel.quantityMeasured = .voltage) series).map fun name =>
            (name, series.originalValues)).flatMap
          fun series => emit clr times series.2 channel.phase.label series.1 := by
      intro all
      induction all with
      | nil => rfl
      | cons series all ih =>
        rw [List.flatMap_cons, ih, List.filterMap_cons, emitSeries]
        cases channelName clr (channel.quantityMeasured = .voltage) series with
        | none => rfl
        | some name => rfl
    simp only [Clr.ChannelInstance.visible, htimes]
    split
    · next hnone => rw [hseries, hnone]; rfl
    · rw [hseries]
      simp [VisibleChannel.samples, hresolve]

theorem convertRecord_eq {start : clr.Stamp} {channels : List clr.ChannelInstance}
    {samples : List Sample} (h : convertRecord clr start channels = .ok samples) :
    samples = (channels.filterMap (·.visible)).flatMap (VisibleChannel.samples start) := by
  induction channels generalizing samples with
  | nil =>
    cases h
    rfl
  | cons channel channels ih =>
    obtain ⟨first, hfirst, h⟩ := bind_eq_ok.mp h
    obtain ⟨rest, hrest, h⟩ := bind_eq_ok.mp h
    cases h
    rw [convertChannel_eq hfirst, ih hrest, List.filterMap_cons]
    cases channel.visible with
    | none => rfl
    | some shown => rw [Option.toList_some, List.flatMap_singleton, List.flatMap_cons]

/-- The samples of a file are made of what it shows. -/
theorem convert_eq {file : clr.PqdifFile} {samples : List Sample} (h : convert clr file = .ok samples) :
    samples = (visible file).flatMap fun (start, channels) => channels.flatMap (VisibleChannel.samples start) := by
  induction file generalizing samples with
  | nil =>
    cases h
    rfl
  | cons record file ih =>
    obtain ⟨record, hrecord, h⟩ := bind_eq_ok.mp h
    obtain ⟨first, hfirst, h⟩ := bind_eq_ok.mp h
    obtain ⟨rest, hrest, h⟩ := bind_eq_ok.mp h
    cases h
    cases hrecord
    rw [convertRecord_eq hfirst, ih hrest, visible, List.flatMap_cons]

/-- Some hours of a day, and the numbers of a small meter. -/
def Clr.meter : Clr where
  Stamp := Fin 4
  Span := Empty
  Object := Fin 8
  add t _ := .ok t
  addSeconds t _ := .ok t
  toUniversalTime t := ⟨2026, 1, 1, t, 0, 0, 0⟩
  toDouble n := some (.fin ((48 + n.val : Nat) : ℚ))
  roundTrip q := toString q.num

/-- One channel with a voltage and a current, and a frequency in another. -/
def meterFile (currents : List (Fin 8)) : Clr.meter.PqdifFile :=
  [.ok
    { startTime := (0 : Fin 4)
      channelInstances :=
        [⟨.an, .voltage,
          [⟨.time, .other, [.stamp (0 : Fin 4), .stamp (1 : Fin 4)]⟩,
            ⟨.val, .rms, [.object (2 : Fin 8), .object (3 : Fin 8)]⟩,
            ⟨.val, .other, currents.map .object⟩]⟩,
          ⟨.other, .other,
            [⟨.time, .other, [.stamp (0 : Fin 4)]⟩, ⟨.val, .frequency, [.object (2 : Fin 8)]⟩]⟩] }]

end Visible

section Read

/-- A character that stands for itself in a field and on a line. -/
def Bare (c : Char) : Prop := 33 ≤ c.toNat ∧ c.toNat ≤ 126 ∧ c ∉ [',', ';', '"']

instance (c : Char) : Decidable (Bare c) := inferInstanceAs (Decidable (_ ∧ _))

theorem Bare.special {c : Char} (h : Bare c) : excel.special c = false := by
  obtain ⟨hlow, -, hc⟩ := h
  simp only [List.mem_cons, List.not_mem_nil, or_false, not_or] at hc
  refine excel.special_eq_false.mpr ⟨hc.1, hc.2.2, ?_⟩
  have hlf : c ≠ '\n' := fun heq => absurd hlow (by rw [heq]; decide)
  have hcr : c ≠ '\r' := fun heq => absurd hlow (by rw [heq]; decide)
  simp [Csv.Dialect.newline, excel, hlf, hcr]

theorem Bare.isSpace {c : Char} (h : Bare c) : Text.isSpace c = false := by
  obtain ⟨hlow, hhigh, -⟩ := h
  simp [Text.isSpace]
  omega

theorem Bare.isLineBreak {c : Char} (h : Bare c) : Text.isLineBreak c = false := by
  obtain ⟨hlow, hhigh, -⟩ := h
  simp [Text.isLineBreak]
  omega

theorem bare_of_isDigit {c : Char} (h : c.isDigit) : Bare c := by
  obtain ⟨hlow, hhigh⟩ := Char.isDigit_iff_toNat.mp h
  have hzero : '0'.toNat = 48 := rfl
  have hnine : '9'.toNat = 57 := rfl
  refine ⟨by omega, by omega, fun hc => ?_⟩
  have hother : ∀ c ∈ [',', ';', '"'], c.isDigit = false := by decide
  rw [hother c hc] at h
  cases h

theorem zeroPad_bare (width n : Nat) : ∀ c ∈ (zeroPad width n).toList, Bare c := by
  intro c hc
  rw [zeroPad, String.toList_append, String.toList_ofList, Nat.toString_eq_ofList_toDigits,
    String.toList_ofList] at hc
  rcases List.mem_append.mp hc with hc | hc
  · rw [List.eq_of_mem_replicate hc]
    decide
  · exact bare_of_isDigit (Nat.isDigit_of_mem_toDigits (by decide) (by decide) hc)

theorem bare_append {s t : String} (hs : ∀ c ∈ s.toList, Bare c) (ht : ∀ c ∈ t.toList, Bare c) :
    ∀ c ∈ (s ++ t).toList, Bare c := by
  rw [String.toList_append]
  exact List.forall_mem_append.mpr ⟨hs, ht⟩

theorem isoZ_bare (t : DateTime) : ∀ c ∈ (isoZ t).toList, Bare c := by
  have hdash : ∀ c ∈ "-".toList, Bare c := by decide
  have hcolon : ∀ c ∈ ":".toList, Bare c := by decide
  have hdate : ∀ c ∈ t.date.toList, Bare c :=
    bare_append (bare_append (bare_append (bare_append (zeroPad_bare 4 _) hdash) (zeroPad_bare 2 _)) hdash)
      (zeroPad_bare 2 _)
  exact bare_append (bare_append (bare_append (bare_append (bare_append (bare_append (bare_append
    (bare_append (bare_append hdate (by decide)) (zeroPad_bare 2 _)) hcolon) (zeroPad_bare 2 _)) hcolon)
    (zeroPad_bare 2 _)) (by decide)) (zeroPad_bare 3 _)) (by decide)

/-- What the worker relies on to take apart what the converter writes: Python's text, and numbers and
timestamps printed as .NET prints them. -/
structure ReadsConverted (host : ParserHost) (clr : Clr) : Prop where
  strip : ∀ s : String, (∀ c ∈ s.toList, Text.isSpace c = false) → host.rt.strip s = s
  lower : ∀ s : String, (∀ c ∈ s.toList, c.toNat < 128 ∧ c.isUpper = false) → host.rt.lower s = s
  digits : ∀ o q, clr.toDouble o = some (.fin q) → clr.roundTrip q ≠ "" ∧
    (clr.roundTrip q).length ≤ 24 ∧ ∀ c ∈ (clr.roundTrip q).toList, c ∈ "0123456789+-.E".toList
  stamped : ∀ t, (isoZ (clr.toUniversalTime t)).length = 24

/-- Where pandas can read a moment as the converter writes it, it reads that moment. -/
def DatesConverted (host : ParserHost) (clr : Clr) : Prop :=
  ∀ t, toIsoZ host (some (isoZ (clr.toUniversalTime t))) = none ∨
    toIsoZ host (some (isoZ (clr.toUniversalTime t))) = some (isoZ (clr.toUniversalTime t))

/-- A field of a line of the converter. -/
def PlainField (field : List Char) : Prop := field ≠ [] ∧ field.length ≤ 24 ∧ ∀ c ∈ field, Bare c

instance (field : List Char) : Decidable (PlainField field) := inferInstanceAs (Decidable (_ ∧ _))

theorem longHeader_plain : ∀ field ∈ longHeader.map String.toList, PlainField field := by decide

theorem Sample.Made.fields_plain (reads : ReadsConverted host clr) {x : Sample} (h : x.Made clr) :
    ∀ field ∈ x.fields clr, PlainField field := by
  obtain ⟨⟨t, htime⟩, hphase, hchannel, o, hvalue⟩ := h
  obtain ⟨hne, hshort, hdigits⟩ := reads.digits o x.value hvalue
  have hlabels : ∀ label ∈ ["L1", "L2", "L3", "1p"], PlainField label.toList := by decide
  have hnames : ∀ name ∈ ["frequency", "voltage"], PlainField name.toList := by decide
  have hbare : ∀ c ∈ "0123456789+-.E".toList, Bare c := by decide
  have hlength := reads.stamped t
  simp only [Sample.fields, List.forall_mem_cons, List.not_mem_nil, false_implies, implies_true, and_true]
  refine ⟨⟨fun hnil => ?_, ?_, isoZ_bare _⟩, hlabels _ hphase, hnames _ hchannel, ?_, ?_, ?_⟩
  · rw [← htime, String.length, hnil] at hlength
    cases hlength
  · rw [← htime, String.length] at hlength
    exact hlength.le
  · simpa using hne
  · exact hshort
  · exact fun c hc => hbare c (hdigits c hc)

/-- Rows of plain fields on lines without quotes, as the CSV reader reads them. -/
theorem csvReader_plain {rows : List (List (List Char))} (hplain : ∀ row ∈ rows, ∀ field ∈ row, PlainField field)
    (hrows : ∀ row ∈ rows, row ≠ []) :
    csvReader "," (rows.map fun row => String.ofList ([','].intercalate row)) =
      rows.map (List.map String.ofList) := by
  have hspecial : ∀ row ∈ rows, ∀ field ∈ row, Csv.Plain excel field := fun row hrow field hfield c hc =>
    ((hplain row hrow field hfield).2.2 c hc).special
  have hread := Csv.readLines_joinFields hspecial
    (fun row hrow field hfield => (hplain row hrow field hfield).2.1.trans (by decide))
    fun row hrow => ⟨hrows row hrow, fun hnil => (hplain row hrow [] (by simp [hnil])).1 rfl⟩
  have hlines : (rows.map fun row => String.ofList ([','].intercalate row)).map String.toList =
      rows.map (Csv.joinFields excel) := by
    rw [List.map_map]
    refine List.map_congr_left fun row hrow => ?_
    rw [Csv.joinFields_intercalate (hspecial row hrow), Function.comp_apply, String.toList_ofList]
    rfl
  have hdelimited : delimited ',' = some excel := rfl
  have hcomma : ",".toList = [','] := rfl
  simp only [csvReader, hcomma, hdelimited, hlines, hread]

theorem mem_line {row : List (List Char)} (hplain : ∀ field ∈ row, PlainField field) {c : Char}
    (hc : c ∈ [','].intercalate row) : c = ',' ∨ Bare c := by
  obtain hc | ⟨field, hfield, hc⟩ := Text.mem_intercalate hc
  · exact Or.inl (List.mem_singleton.mp hc)
  · exact Or.inr ((hplain field hfield).2.2 c hc)

theorem longRows_plain (reads : ReadsConverted host clr) {samples : List Sample}
    (hmade : ∀ x ∈ samples, x.Made clr) : ∀ row ∈ longRows clr samples, ∀ field ∈ row, PlainField field := by
  refine List.forall_mem_cons.mpr ⟨longHeader_plain, fun row hrow => ?_⟩
  obtain ⟨x, hx, rfl⟩ := List.mem_map.mp hrow
  exact (hmade x hx).fields_plain reads

/-- The lines of what the converter writes, on any platform. -/
theorem splitlines_longText (reads : ReadsConverted host clr) {samples : List Sample}
    (hmade : ∀ x ∈ samples, x.Made clr) {ending : List Char} (hending : Text.LineEnd ending) :
    Text.splitlines (longText clr ending samples) =
      (longRows clr samples).map fun row => [','].intercalate row := by
  have htext : longText clr ending samples =
      ((longRows clr samples).map fun row => [','].intercalate row).flatMap (· ++ ending) := by
    rw [List.flatMap_map]
    rfl
  rw [htext]
  refine Text.splitlines_flatMap (fun line hline => ?_) hending
  obtain ⟨row, hrow, rfl⟩ := List.mem_map.mp hline
  intro c hc
  rcases mem_line (longRows_plain reads hmade row hrow) hc with rfl | hbare
  · decide
  · exact hbare.isLineBreak

/-- The cells of the line of a sample. -/
def Sample.cells (clr : Clr) (x : Sample) : List String :=
  [isoZ x.time, x.phase, x.channel, clr.roundTrip x.value]

theorem lines_longText (reads : ReadsConverted host clr) {samples : List Sample}
    (hmade : ∀ x ∈ samples, x.Made clr) {ending : List Char} (hending : Text.LineEnd ending) :
    host.withCsv.splitlines (String.ofList (longText clr ending samples)) =
      (longRows clr samples).map fun row => String.ofList ([','].intercalate row) := by
  simp only [ParserHost.withCsv, String.toList_ofList, splitlines_longText reads hmade hending,
    List.map_map]
  rfl

theorem reader_longText (reads : ReadsConverted host clr) {samples : List Sample}
    (hmade : ∀ x ∈ samples, x.Made clr) {ending : List Char} (hending : Text.LineEnd ending) :
    csvReader "," (host.withCsv.splitlines (String.ofList (longText clr ending samples))) =
      longHeader :: samples.map (Sample.cells clr) := by
  rw [lines_longText reads hmade hending, csvReader_plain (longRows_plain reads hmade)]
  · have hheader : (longHeader.map String.toList).map String.ofList = longHeader := by decide
    rw [longRows, List.map_cons, hheader, List.map_map]
    refine congrArg _ (List.map_congr_left fun x _ => ?_)
    simp [Sample.fields, Sample.cells]
  · refine List.forall_mem_cons.mpr ⟨by decide, fun row hrow => ?_⟩
    obtain ⟨x, -, rfl⟩ := List.mem_map.mp hrow
    exact List.cons_ne_nil _ _

/-- The record of a sample. -/
def Sample.record (clr : Clr) (x : Sample) : Record :=
  [("timestamp", some (isoZ x.time)), ("phase", some x.phase), ("channel", some x.channel),
    ("value", some (clr.roundTrip x.value))]

theorem dictRows_samples (samples : List Sample) :
    dictRows longHeader (samples.map (Sample.cells clr)) = samples.map (Sample.record clr) := by
  have hkeep : (samples.map (Sample.cells clr)).filter (· ≠ []) = samples.map (Sample.cells clr) := by
    refine List.filter_eq_self.mpr fun row hrow => ?_
    obtain ⟨x, -, rfl⟩ := List.mem_map.mp hrow
    rfl
  rw [dictRows, hkeep, List.map_map]
  refine List.map_congr_left fun x _ => ?_
  simp [dictRow, longHeader, Sample.cells, Sample.record, Dict.set, Dict.alter]

theorem fieldName_longHeader (reads : ReadsConverted host clr) {name : String} (h : name ∈ longHeader) :
    fieldName host name = name := by
  have hstrip : ∀ name ∈ longHeader, ∀ c ∈ name.toList, Text.isSpace c = false := by decide
  have hlower : ∀ name ∈ longHeader, ∀ c ∈ name.toList, c.toNat < 128 ∧ c.isUpper = false := by decide
  rw [fieldName, reads.strip name (hstrip name h), reads.lower name (hlower name h)]

theorem longRecord_record (reads : ReadsConverted host clr) (x : Sample) :
    longRecord host (x.record clr) = x.record clr := by
  have hname : ∀ name ∈ longHeader, fieldName host name = name := fun _ => fieldName_longHeader reads
  simp only [longHeader, List.forall_mem_cons] at hname
  obtain ⟨htimestamp, hphase, hchannel, hvalue, -⟩ := hname
  simp [longRecord, Sample.record, htimestamp, hphase, hchannel, hvalue, Dict.set, Dict.alter]

/-- The number of a sample, as its text reads. -/
def Sample.reading (host : ParserHost) (clr : Clr) (x : Sample) : Option PyFloat :=
  host.float (clr.roundTrip x.value)

theorem num_roundTrip (reads : ReadsConverted host clr) {o : clr.Object} {q : ℚ}
    (ho : clr.toDouble o = some (.fin q)) :
    num host (some (clr.roundTrip q)) = host.float (clr.roundTrip q) := by
  obtain ⟨hne, -, hdigits⟩ := reads.digits o q ho
  have hspace : ∀ c ∈ "0123456789+-.E".toList, Text.isSpace c = false ∧ c ≠ ' ' ∧ c ≠ ',' := by decide
  have hchars := fun c hc => hspace c (hdigits c hc)
  have hstrip : host.rt.strip (clr.roundTrip q) = clr.roundTrip q :=
    reads.strip _ fun c hc => (hchars c hc).1
  have hblank : (clr.roundTrip q).toList.filter (· ≠ ' ') = (clr.roundTrip q).toList :=
    List.filter_eq_self.mpr fun c hc => by simpa using (hchars c hc).2.1
  have hcomma : ',' ∉ (clr.roundTrip q).toList := fun hc => (hchars _ hc).2.2 rfl
  have hkeep : (clr.roundTrip q).toList.filter (· ≠ ',') = (clr.roundTrip q).toList :=
    List.filter_eq_self.mpr fun c hc => by simpa using (hchars c hc).2.2
  simp only [num, Option.getD_some, hstrip, hblank, hcomma, and_false, if_false, hkeep,
    List.count_eq_zero_of_not_mem hcomma, Nat.zero_ne_one, false_and, String.ofList_toList]
  exact if_neg (by simpa using hne)

/-- The moment, to a millisecond, and the phase of a sample. -/
def Sample.key (x : Sample) : String × String := (isoZ x.time, x.phase)

/-- A sample whose moment the worker can read. -/
def Sample.Dated (host : ParserHost) (x : Sample) : Prop := (toIsoZ host (some (isoZ x.time))).isSome

instance (x : Sample) : Decidable (x.Dated host) := inferInstanceAs (Decidable (_ = true))

theorem longStep_record (reads : ReadsConverted host clr) (hdates : DatesConverted host clr) {x : Sample}
    (hx : x.Made clr) (grouped : Dict (String × String) ParsedRow) :
    longStep host grouped (x.record clr) =
      if x.Dated host then
        (x.reading host clr).elim grouped fun val =>
          grouped.alter x.key fun row => longUpdate x.channel val (row.getD ⟨x.key.1, x.key.2, none, none⟩)
      else grouped := by
  obtain ⟨⟨t, ht⟩, hphase, hchannel, o, ho⟩ := hx
  have htimestamp : cell (x.record clr) "timestamp" = some (isoZ x.time) := by
    simp [cell, Sample.record, Dict.get]
  have hvalue : cell (x.record clr) "value" = some (clr.roundTrip x.value) := by
    simp [cell, Sample.record, Dict.get]
  have hphases : ∀ label ∈ ["L1", "L2", "L3", "1p"],
      label ≠ "" ∧ ∀ c ∈ label.toList, Text.isSpace c = false := by decide
  have hchannels : ∀ name ∈ ["frequency", "voltage"], name ≠ "" ∧
      (∀ c ∈ name.toList, Text.isSpace c = false) ∧ ∀ c ∈ name.toList, c.toNat < 128 ∧ c.isUpper = false := by
    decide
  obtain ⟨hlabel, hlabels⟩ := hphases _ hphase
  obtain ⟨hname, hstrip, hlower⟩ := hchannels _ hchannel
  have hlongPhase : longPhase host (x.record clr) = x.phase := by
    simp [longPhase, orElse, Sample.record, Dict.get, hlabel, reads.strip _ hlabels]
  have hlongChannel : longChannel host (x.record clr) = x.channel := by
    simp [longChannel, orElse, Sample.record, Dict.get, hname, reads.strip _ hstrip, reads.lower _ hlower]
  simp only [longStep, longRecord_record reads, htimestamp, hvalue, num_roundTrip reads ho, hlongPhase,
    hlongChannel, Sample.Dated, Sample.reading, Sample.key, ht]
  rcases hdates t with hnone | hsome
  · simp [hnone]
  · cases hread : host.float (clr.roundTrip x.value) <;> simp [hsome]

/-- A reading the worker keeps: of a channel, and in its band. -/
def Sample.InBand (host : ParserHost) (clr : Clr) (x : Sample) : Prop :=
  (x.reading host clr).any fun val =>
    x.channel = "frequency" ∧ val.between 40 70 ∨ x.channel = "voltage" ∧ val.between 40 520

instance Sample.decidableInBand (x : Sample) : Decidable (x.InBand host clr) :=
  inferInstanceAs (Decidable (_ = true))

/-- The last reading of a channel that is given to a moment and a phase. -/
def lastReading (host : ParserHost) (clr : Clr) (samples : List Sample) (key : String × String)
    (channel : String) : Option PyFloat :=
  ((samples.filter fun x => x.Dated host ∧ x.key = key ∧ x.channel = channel ∧
    x.InBand host clr).getLast?).bind (Sample.reading host clr)

/-- The row of a moment and a phase. -/
def readingRow (host : ParserHost) (clr : Clr) (samples : List Sample) (key : String × String) : ParsedRow :=
  ⟨key.1, key.2, lastReading host clr samples key "voltage", lastReading host clr samples key "frequency"⟩

theorem lastReading_append (samples : List Sample) (x : Sample) (key : String × String) (channel : String) :
    lastReading host clr (samples ++ [x]) key channel =
      if x.Dated host ∧ x.key = key ∧ x.channel = channel ∧ x.InBand host clr then x.reading host clr
      else lastReading host clr samples key channel := by
  simp only [lastReading, List.filter_append, List.filter_singleton]
  split
  · next h => simp [h]
  · next h => simp [h]

/-- One sample updates the row of its moment and phase. -/
theorem longUpdate_sample {samples : List Sample} {x : Sample} (hx : x.channel ∈ ["frequency", "voltage"])
    (hdated : x.Dated host) {val : PyFloat} (hval : x.reading host clr = some val) :
    longUpdate x.channel val (readingRow host clr samples x.key) =
      readingRow host clr (samples ++ [x]) x.key := by
  have hfreq : contains "frequency" "freq" = true := by decide
  have hvolt : contains "voltage" "volt" = true := by decide
  have hnotfreq : contains "voltage" "freq" = false := by decide
  have hnotvolt : contains "frequency" "volt" = false := by decide
  simp only [readingRow, lastReading_append, hdated, true_and]
  rcases List.mem_cons.mp hx with hchannel | hx
  · by_cases hband : val.between 40 70 <;>
      simp [longUpdate, Sample.InBand, hval, hchannel, hfreq, hnotvolt, hband]
  · have hchannel := List.mem_singleton.mp hx
    by_cases hband : val.between 40 520 <;>
      simp [longUpdate, Sample.InBand, hval, hchannel, hnotfreq, hvolt, hband]

/-- The dictionary of the loop: at every moment and phase the last readings so far. -/
def Tabled (host : ParserHost) (clr : Clr) (samples : List Sample)
    (grouped : Dict (String × String) ParsedRow) : Prop :=
  ∀ key, (grouped.get key).getD ⟨key.1, key.2, none, none⟩ = readingRow host clr samples key

theorem Tabled.step (reads : ReadsConverted host clr) (hdates : DatesConverted host clr)
    {samples : List Sample} {grouped : Dict (String × String) ParsedRow}
    (h : Tabled host clr samples grouped) {x : Sample} (hx : x.Made clr) :
    Tabled host clr (samples ++ [x]) (longStep host grouped (x.record clr)) := by
  intro key
  rw [longStep_record reads hdates hx]
  by_cases hdated : x.Dated host
  · rw [if_pos hdated]
    cases hread : x.reading host clr with
    | none =>
      rw [Option.elim_none, h]
      simp [readingRow, lastReading_append, Sample.InBand, hread]
    | some val =>
      rw [Option.elim_some, Dict.get_alter]
      by_cases hkey : key = x.key
      · subst hkey
        rw [if_pos rfl, Option.getD_some, h, longUpdate_sample hx.channel hdated hread]
      · rw [if_neg hkey, h]
        simp [readingRow, lastReading_append, Ne.symm hkey]
  · rw [if_neg hdated, h]
    simp [readingRow, lastReading_append, hdated]

theorem Tabled.run (reads : ReadsConverted host clr) (hdates : DatesConverted host clr)
    {done : List Sample} {grouped : Dict (String × String) ParsedRow} (h : Tabled host clr done grouped)
    {samples : List Sample} (hmade : ∀ x ∈ samples, x.Made clr) :
    Tabled host clr (done ++ samples) ((samples.map (Sample.record clr)).foldl (longStep host) grouped) := by
  induction samples generalizing done grouped with
  | nil => simpa using h
  | cons x samples ih =>
    obtain ⟨hx, hrest⟩ := List.forall_mem_cons.mp hmade
    simpa using ih (h.step reads hdates hx) hrest

/-- The rows of the long format, moment by moment and phase by phase. -/
theorem rowsFromLong_samples (reads : ReadsConverted host clr) (hdates : DatesConverted host clr)
    {samples : List Sample} (hmade : ∀ x ∈ samples, x.Made clr) (key : String × String) :
    (rowsFromLong host (samples.map (Sample.record clr))).rows.filter (·.key = key) =
      [readingRow host clr samples key].filter fun row => row.voltageV.isSome || row.frequencyHz.isSome := by
  have hstart : Tabled host clr [] [] := fun _ => rfl
  have htable := hstart.run reads hdates hmade key
  have hgrouped : Grouped host (samples.map (Sample.record clr)) _ := Grouped.nil.run _
  simp only [List.nil_append, rowsFromLong] at htable hgrouped ⊢
  generalize (samples.map (Sample.record clr)).foldl (longStep host) [] = grouped at htable hgrouped ⊢
  have hkeys : ∀ item ∈ grouped, item.2.key = item.1 := fun item hitem =>
    hgrouped.keyed item.1 item.2 (Dict.get_of_mem hgrouped.nodup hitem)
  have hcomm : ∀ rows : List ParsedRow, (rows.filter fun row =>
      row.voltageV.isSome || row.frequencyHz.isSome).filter (·.key = key) =
      (rows.filter (·.key = key)).filter fun row => row.voltageV.isSome || row.frequencyHz.isSome :=
    fun rows => List.filter_comm _ _ _
  have hone : (grouped.map (·.2)).filter (·.key = key) = (grouped.get key).toList := by
    rw [List.filter_map, ← List.map_id (grouped.get key).toList]
    have hsame : grouped.filter ((fun row => decide (row.key = key)) ∘ (·.2)) =
        grouped.filter (·.1 = key) :=
      List.filter_congr fun item hitem => by rw [Function.comp_apply, hkeys item hitem]
    rw [hsame, Dict.filter_key hgrouped.nodup, List.map_map]
    rfl
  rw [hcomm, hone]
  cases hget : grouped.get key with
  | none =>
    rw [hget, Option.getD_none] at htable
    rw [← htable]
    rfl
  | some row =>
    rw [hget, Option.getD_some] at htable
    rw [← htable, Option.toList_some]

theorem ReadsConverted.withCsv (reads : ReadsConverted host clr) : ReadsConverted host.withCsv clr :=
  ⟨reads.strip, reads.lower, reads.digits, reads.stamped⟩

theorem parsePqdif_converted (reads : ReadsConverted host clr) (path inputPath : String)
    (load : Content → clr.PqdifFile) (content : Content) {samples : List Sample}
    (hconvert : convert clr (load content) = .ok samples) :
    parsePqdif host.withCsv (some (pqdif2csv clr path inputPath load)) content =
      rowsFromLong host.withCsv (samples.map (Sample.record clr)) := by
  have hread := reader_longText reads (convert_made hconvert) (Or.inl rfl)
  have hreader : host.withCsv.reader = csvReader := rfl
  simp only [parsePqdif, pqdif2csv, hconvert, hreader, hread, dictRows_samples]

/-- A binary file comes out as one row for each moment that can be read and each phase with a reading in its
band there; the row holds the last frequency and the last voltage the file gives it, as their texts read. -/
theorem pqdif_rows (host : ParserHost) (clr : Clr) (reads : ReadsConverted host clr)
    (hdates : DatesConverted host clr) (path inputPath : String) (load : Content → clr.PqdifFile)
    (content : Content) (samples : List Sample) (hconvert : convert clr (load content) = .ok samples) :
    let res := parsePqdif host.withCsv (some (pqdif2csv clr path inputPath load)) content
    res.deferred = false ∧ res.read = samples.length ∧
      ∀ key, res.rows.filter (·.key = key) =
        [readingRow host clr samples key].filter fun row => row.voltageV.isSome || row.frequencyHz.isSome := by
  rw [parsePqdif_converted reads path inputPath load content hconvert]
  refine ⟨rfl, by simp [rowsFromLong], fun key => ?_⟩
  exact rowsFromLong_samples reads.withCsv hdates (convert_made hconvert) key

/-- A host that reads what the meter writes. -/
def ParserHost.meter : ParserHost :=
  { ParserHost.ascii with
    rt := textRuntime
    sniff := fun s => if ',' ∈ s.toList then some "," else none
    toDatetime := fun value => ((List.range 4).map fun hour => ⟨2026, 1, 1, hour, 0, 0, 0⟩).find? fun t =>
      some (isoZ t) = value }

theorem meter_reads : ReadsConverted .meter .meter where
  strip s h := by
    change String.ofList (Text.strip s.toList) = s
    rw [Text.strip_eq_self h, String.ofList_toList]
  lower s h := by
    have hkeep : ∀ c ∈ s.toList, Char.toLower c = c := fun c hc => by
      refine dif_neg fun hupper => ?_
      exact of_decide_eq_false (h c hc).2 hupper
    change String.ofList (s.toList.map Char.toLower) = s
    rw [List.map_congr_left hkeep, List.map_id', String.ofList_toList]
  digits o q h := by
    obtain rfl := PyFloat.fin.inj (Option.some.inj h)
    clear h
    revert o
    change ∀ o : Fin 8, let text := Clr.meter.roundTrip ((48 + o.val : Nat) : ℚ)
      text ≠ "" ∧ text.length ≤ 24 ∧ ∀ c ∈ text.toList, c ∈ "0123456789+-.E".toList
    decide
  stamped := by
    change ∀ t : Fin 4, _
    decide

theorem meter_dates : DatesConverted .meter .meter := by
  change ∀ t : Fin 4, _
  decide +kernel

def meterSamples : List Sample :=
  [⟨⟨2026, 1, 1, 0, 0, 0, 0⟩, "L1", "voltage", 50⟩, ⟨⟨2026, 1, 1, 1, 0, 0, 0⟩, "L1", "voltage", 51⟩,
    ⟨⟨2026, 1, 1, 0, 0, 0, 0⟩, "1p", "frequency", 50⟩]

theorem pqdif_rows_meter :
    let res := parsePqdif ParserHost.meter.withCsv
      (some (pqdif2csv .meter "pqdif2csv" "000_a.pqd" fun _ => meterFile [4])) (.raw [])
    res.deferred = false ∧ res.read = meterSamples.length ∧
      ∀ key, res.rows.filter (·.key = key) =
        [readingRow .meter .meter meterSamples key].filter fun row =>
          row.voltageV.isSome || row.frequencyHz.isSome :=
  pqdif_rows .meter .meter meter_reads meter_dates "pqdif2csv" "000_a.pqd" (fun _ => meterFile [4]) (.raw [])
    meterSamples rfl

/-- What `csv.Sniffer` promises: it names one of the delimiters it is offered, and one the lines hold. -/
def SniffsHeld (host : ParserHost) : Prop :=
  ∀ lines delim, host.sniff ("\n".intercalate lines) = some delim →
    ∃ c ∈ [',', '\t', ';'], delim = c.toString ∧ ∃ line ∈ lines, c ∈ line.toList

/-- A file converted elsewhere, on any platform, and uploaded as CSV gives what the converter would give
here. -/
theorem pqdif_reuploaded (host : ParserHost) (clr : Clr) (reads : ReadsConverted host clr)
    (sniffs : SniffsHeld host) (path inputPath : String) (load : Content → clr.PqdifFile)
    (content upload : Content) (samples : List Sample) (hconvert : convert clr (load content) = .ok samples)
    (ending : List Char) (hending : Text.LineEnd ending)
    (hupload : host.readText upload = String.ofList (longText clr ending samples)) :
    parseCsv host.withCsv upload =
      parsePqdif host.withCsv (some (pqdif2csv clr path inputPath load)) content := by
  have hmade := convert_made hconvert
  have hread := reader_longText reads hmade hending
  have hlines := lines_longText reads hmade hending
  have hsplit : host.withCsv.splitlines (host.withCsv.readText upload) =
      host.withCsv.splitlines (String.ofList (longText clr ending samples)) := congrArg _ hupload
  rw [parsePqdif_converted reads path inputPath load content hconvert]
  simp only [parseCsv, hsplit]
  rw [if_neg (by rw [hlines]; exact List.cons_ne_nil _ _)]
  -- no line holds a tab or a semicolon
  have hcomma : (host.withCsv.sniff ("\n".intercalate ((host.withCsv.splitlines (String.ofList
      (longText clr ending samples))).take 20))).getD "," = "," := by
    cases hsniff : host.withCsv.sniff ("\n".intercalate ((host.withCsv.splitlines (String.ofList
      (longText clr ending samples))).take 20)) with
    | none => rfl
    | some delim =>
      obtain ⟨c, hc, rfl, line, hline, hmem⟩ := sniffs _ _ hsniff
      rw [hlines] at hline
      obtain ⟨row, hrow, rfl⟩ := List.mem_map.mp (List.mem_of_mem_take hline)
      rw [String.toList_ofList] at hmem
      rcases mem_line (longRows_plain reads hmade row hrow) hmem with rfl | hbare
      · rfl
      · have hother : ∀ c ∈ [',', '\t', ';'], ¬Bare c := by decide
        exact absurd hbare (hother c hc)
  have hreader : host.withCsv.reader = csvReader := rfl
  have hlong : isLong host.withCsv longHeader = true := by
    have hname : ∀ name ∈ longHeader, fieldName host.withCsv name = name := fun _ =>
      fieldName_longHeader reads.withCsv
    rw [isLong, List.map_congr_left hname, List.map_id', Bool.and_eq_true, List.all_eq_true,
      List.all_eq_true]
    exact ⟨fun name h => by rw [hname name h]; simpa using h, fun name h => by simpa using h⟩
  rw [hcomma, hreader, hread]
  change (if isLong host.withCsv longHeader then
    rowsFromLong host.withCsv (dictRows longHeader (samples.map (Sample.cells clr))) else _) = _
  rw [if_pos hlong, dictRows_samples]

/-- The same host, with an upload from a machine that ends its lines otherwise. -/
def ParserHost.windows : ParserHost :=
  { ParserHost.meter with readText := fun _ => String.ofList (longText .meter ['\r', '\n'] meterSamples) }

theorem windows_sniffs : SniffsHeld .windows := by
  intro lines delim h
  simp only [ParserHost.windows, ParserHost.meter] at h
  split at h
  · next hcomma =>
    cases h
    rw [String.toList_intercalate] at hcomma
    obtain hcomma | ⟨line, hline, hcomma⟩ := Text.mem_intercalate hcomma
    · exact absurd hcomma (by decide)
    · obtain ⟨text, htext, rfl⟩ := List.mem_map.mp hline
      exact ⟨',', by decide, rfl, text, htext, hcomma⟩
  · cases h

theorem ReadsConverted.withText (reads : ReadsConverted host clr) (readText : Content → String) :
    ReadsConverted { host with readText } clr :=
  ⟨reads.strip, reads.lower, reads.digits, reads.stamped⟩

theorem pqdif_reuploaded_windows :
    parseCsv ParserHost.windows.withCsv (.raw [0]) =
      parsePqdif ParserHost.windows.withCsv
        (some (pqdif2csv .meter "pqdif2csv" "000_a.pqd" fun _ => meterFile [4])) (.raw []) := by
  have hconvert : convert .meter (meterFile [4]) = .ok meterSamples := rfl
  have hupload : ParserHost.windows.readText (.raw [0]) =
      String.ofList (longText .meter ['\r', '\n'] meterSamples) := rfl
  exact pqdif_reuploaded .windows .meter (meter_reads.withText _) windows_sniffs "pqdif2csv" "000_a.pqd"
    (fun _ => meterFile [4]) (.raw []) (.raw [0]) meterSamples hconvert ['\r', '\n'] (Or.inr rfl) hupload

end Read

end GridWitness.Survey
