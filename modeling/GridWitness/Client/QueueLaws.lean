import GridWitness.Client.BufferLaws
import GridWitness.Library.Backlog

namespace GridWitness.Client

open Server Library

universe u

variable {Line : Type u} (py : Python) (codec : Codec Line)

/-- The text of a clock reading, and the time it stands for. -/
structure Stamp (py : Python) where
  text : String
  time : Time
  reads : py.parseIso text = some time

inductive BufferCall (py : Python)
  | append (items : List Captured) (now : Stamp py)
  | peek (maxRows : Nat)
  | commit (n : Nat)
  | count
  | prune (now : Time)

variable {py} in
/-- What a call asks of a queue, for the caps of a buffer. -/
def BufferCall.op (maxRows maxAgeH : Nat) : BufferCall py → Backlog.Op Item Time
  | .append items now => .append (items.map Captured.item) now.time
  | .peek n => .peek n
  | .commit n => .commit n
  | .count => .count
  | .prune now => .prune (now - maxAgeH * DiskBuffer.hour) maxRows

/-- A line is the complete record of an item and the time it was buffered. -/
structure Codec.Records (l : Line) (e : Item × Time) : Prop where
  item : codec.item l = .value e.1
  time : codec.bufferedTs py l = .value e.2

def DiskBuffer.call (b : DiskBuffer Line) :
    BufferCall py → Except PyError (DiskBuffer Line × Backlog.Answer Item)
  | .append items now => .ok (b.append codec items now.text, .done)
  | .peek n => (b.peek codec n).map fun items => (b, .items items)
  | .commit n => .ok (b.commit n, .done)
  | .count => .ok (b, .number b.count)
  | .prune now => (b.prune codec py now).map fun (b, dropped) => (b, .number dropped)

/-- The file corresponds to a queue line by line. -/
structure DiskBuffer.Refines (maxRows maxAgeH : Nat) (b : DiskBuffer Line)
    (q : Backlog Item Time) : Prop where
  maxRows : b.maxRows = maxRows
  maxAgeH : b.maxAgeH = maxAgeH
  lines : List.Forall₂ (codec.Records py) b.lines q

variable {py codec} {ls : List Line} {q : Backlog Item Time}

theorem Codec.records_record (r : Captured) (now : Stamp py) :
    codec.Records py (codec.record now.text r) (r.item, now.time) where
  item := Codec.item_record _ r
  time := by
    simp [Codec.bufferedTs, Codec.record, codec.lossless, List.lookup_cons, now.reads]

theorem Codec.items_records (h : List.Forall₂ (codec.Records py) ls q) (n : Nat) :
    codec.items n ls = .ok ((q.take n).map (·.1)) := by
  induction h generalizing n with
  | nil => cases n <;> rfl
  | cons hrecord _ ih =>
    cases n with
    | zero => rfl
    | succ n =>
      simp only [Codec.items, hrecord.item, ih]
      rfl

theorem Codec.fresh_records (h : List.Forall₂ (codec.Records py) ls q) (cutoff : Time) :
    ∃ kept, codec.fresh py cutoff ls = .ok kept ∧
      List.Forall₂ (codec.Records py) kept (q.filter (cutoff ≤ ·.2)) := by
  induction h with
  | nil => exact ⟨[], rfl, .nil⟩
  | @cons l e ls q hrecord _ ih =>
    obtain ⟨kept, hkept, hrecords⟩ := ih
    by_cases hold : e.2 < cutoff
    · refine ⟨kept, ?_, ?_⟩
      · simp only [Codec.fresh, hrecord.time, if_pos hold, hkept]
      · rwa [List.filter_cons_of_neg (by simpa using hold)]
    · refine ⟨l :: kept, ?_, ?_⟩
      · simp only [Codec.fresh, hrecord.time, if_neg hold, hkept]
        rfl
      · rw [List.filter_cons_of_pos (by simpa using hold)]
        exact .cons hrecord hrecords

namespace DiskBuffer

variable {b : DiskBuffer Line} {maxRows maxAgeH : Nat}

/-- A prune keeps the last of the fresh lines, and counts what it leaves out. -/
theorem prune_fresh {now : Time} {kept : List Line} (hcap : 0 < b.maxRows)
    (hfresh : codec.fresh py (now - b.maxAgeH * hour) b.lines = .ok kept) :
    ∃ b', b.prune codec py now = .ok (b', b.lines.length - (kept.rtake b.maxRows).length) ∧
      b'.maxRows = b.maxRows ∧ b'.maxAgeH = b.maxAgeH ∧ b'.lines = kept.rtake b.maxRows := by
  have hsub := Codec.fresh_sublist hfresh
  have hlength : (kept.rtake b.maxRows).length = kept.length - (kept.length - b.maxRows) := by
    rw [List.rtake, List.length_drop]
  rw [prune]
  split
  · next hfile =>
    have hlines : b.lines = [] := by rw [lines, hfile, Option.getD_none]
    obtain rfl : kept = [] := List.sublist_nil.mp (hlines ▸ hsub)
    exact ⟨b, by simp [hlines], rfl, rfl, by simp [hlines]⟩
  · next ls hfile =>
    have hlines : b.lines = ls := by rw [lines, hfile, Option.getD_some]
    subst hlines
    have hpair : (if b.maxRows < kept.length then
        (newest b.maxRows kept, b.lines.length - kept.length + (kept.length - b.maxRows))
        else (kept, b.lines.length - kept.length)) =
        (kept.rtake b.maxRows, b.lines.length - (kept.rtake b.maxRows).length) := by
      have hle := hsub.length_le
      split
      · rw [newest, if_neg hcap.ne']
        exact Prod.ext rfl (by omega)
      · next hfew => rw [Backlog.rtake_eq_self (Nat.le_of_not_lt hfew)]
    rw [hfresh]
    simp only [bind, Except.bind, hpair]
    refine ⟨_, rfl, ?_⟩
    split
    · next hnone =>
      -- what loses no line is the file as it was
      have hall : (kept.rtake b.maxRows).Sublist b.lines := (List.drop_sublist _ _).trans hsub
      exact ⟨rfl, rfl, (hall.eq_of_length_le (Nat.le_of_sub_eq_zero hnone)).symm⟩
    · exact ⟨rfl, rfl, rfl⟩

/-- Each call answers and changes the file as the queue operation does. -/
theorem call_refines (hcap : 1 ≤ maxRows) (c : BufferCall py)
    (h : b.Refines py codec maxRows maxAgeH q) :
    ∃ b', b.call py codec c = .ok (b', (q.apply (c.op maxRows maxAgeH)).2) ∧
      b'.Refines py codec maxRows maxAgeH (q.apply (c.op maxRows maxAgeH)).1 := by
  obtain ⟨rfl, rfl, hlines⟩ := h
  cases c with
  | append items now =>
    refine ⟨_, rfl, ?_, ?_, ?_⟩
    · rw [append]
      split <;> rfl
    · rw [append]
      split <;> rfl
    · rw [lines_append]
      refine List.rel_append hlines ?_
      simp only [List.map_map, List.forall₂_map_left_iff, List.forall₂_map_right_iff,
        List.forall₂_same]
      exact fun r _ => Codec.records_record r now
  | peek n =>
    refine ⟨b, ?_, rfl, rfl, hlines⟩
    rw [call, peek, Codec.items_records hlines]
    rfl
  | commit n =>
    refine ⟨_, rfl, ?_, ?_, ?_⟩
    · rw [commit]
      split <;> rfl
    · rw [commit]
      split <;> rfl
    · rw [lines_commit]
      exact List.forall₂_drop n hlines
  | count =>
    refine ⟨b, ?_, rfl, rfl, hlines⟩
    rw [call, count, hlines.length_eq]
    rfl
  | prune now =>
    obtain ⟨kept, hfresh, hkept⟩ := Codec.fresh_records hlines (now - b.maxAgeH * hour)
    obtain ⟨b', hprune, hrows, hage, hnewest⟩ := prune_fresh hcap hfresh
    have hrel := Backlog.rtake_rel hkept b.maxRows
    refine ⟨b', ?_, hrows, hage, ?_⟩
    · rw [call, hprune, hlines.length_eq, hrel.length_eq]
      rfl
    · rw [hnewest]
      exact hrel

/-- The buffer is a FIFO queue of its items. -/
theorem buffer_fifo (py : Python) (codec : Codec Line) (b : DiskBuffer Line) (hcap : 1 ≤ b.maxRows)
    (hcomplete : ∀ l ∈ b.lines, ∃ e, codec.Records py l e) :
    ∃ q : Backlog Item Time, List.Forall₂ (codec.Records py) b.lines q ∧
      ∀ calls : List (BufferCall py),
        let after := runOps Backlog.apply q (calls.map (·.op b.maxRows b.maxAgeH))
        ∃ b', runCalls (DiskBuffer.call py codec) b calls = .ok (b', after.2) ∧
          List.Forall₂ (codec.Records py) b'.lines after.1 := by
  obtain ⟨q, hq⟩ := Backlog.exists_rel hcomplete
  refine ⟨q, hq, fun calls => ?_⟩
  obtain ⟨b', hrun, href⟩ := runCalls_simulates (fun _ _ c h => call_refines hcap c h) calls
    (⟨rfl, rfl, hq⟩ : b.Refines py codec b.maxRows b.maxAgeH q)
  exact ⟨b', hrun, href.lines⟩

/-- A reading of the mains as the client stores it. -/
def mains : Captured := (.electrical, .obj [("frequency_hz", .int 50)])

theorem buffer_fifo_mains :
    let b : DiskBuffer Json := ⟨some [Codec.plain.record "2026-07-10T09:00:00.000Z" mains], 1, 72⟩
    ∃ q : Backlog Item Time, List.Forall₂ (Codec.plain.Records .july) b.lines q ∧
      ∀ calls : List (BufferCall .july),
        let after := runOps Backlog.apply q (calls.map (·.op b.maxRows b.maxAgeH))
        ∃ b', runCalls (DiskBuffer.call .july .plain) b calls = .ok (b', after.2) ∧
          List.Forall₂ (Codec.plain.Records .july) b'.lines after.1 :=
  buffer_fifo .july .plain _ (by decide) fun l hl => by
    rw [List.mem_singleton.mp hl]
    exact ⟨_, Codec.records_record mains ⟨_, 1783674000000000, rfl⟩⟩

end DiskBuffer

/-- The value a line gives its reader, if it gives one. -/
def Reading.toOption {α : Type} : Reading α → Option α
  | .value a => some a
  | .skipped => none
  | .raised _ => none

/-- The items of a file, whatever lines stand between them. -/
def Codec.wellFormed (codec : Codec Line) (ls : List Line) : List Item :=
  ls.filterMap fun l => (codec.item l).toOption

theorem Codec.wellFormed_append (ls ms : List Line) :
    codec.wellFormed (ls ++ ms) = codec.wellFormed ls ++ codec.wellFormed ms :=
  List.filterMap_append

/-- A line is a record or no JSON at all. -/
def Codec.RecordOrTorn (codec : Codec Line) (l : Line) : Prop :=
  codec.loads l = .undecodable ∨ ∃ item, codec.item l = .value item

theorem Codec.item_torn {l : Line} (h : codec.loads l = .undecodable) : codec.item l = .skipped := by
  rw [Codec.item, h]

theorem Codec.RecordOrTorn.item_ne_raised {l : Line} (h : codec.RecordOrTorn l) (e : PyError) :
    codec.item l ≠ .raised e := by
  rcases h with htorn | ⟨item, hitem⟩
  · simp [Codec.item_torn htorn]
  · simp [hitem]

/-- Where no line raises, a peek gives the first of the items. -/
theorem Codec.items_wellFormed (h : ∀ l ∈ ls, ∀ e, codec.item l ≠ .raised e) (n : Nat) :
    codec.items n ls = .ok ((codec.wellFormed ls).take n) := by
  induction ls generalizing n with
  | nil => cases n <;> rfl
  | cons l ls ih =>
    have ih := ih fun l hl => h l (List.mem_cons_of_mem _ hl)
    cases n with
    | zero => rfl
    | succ n =>
      cases hitem : codec.item l with
      | value item =>
        simp only [Codec.items, hitem, ih, Codec.wellFormed, List.filterMap_cons,
          Reading.toOption]
        rfl
      | skipped =>
        simp only [Codec.items, hitem, ih, Codec.wellFormed, List.filterMap_cons,
          Reading.toOption]
      | raised e => exact absurd hitem (h l List.mem_cons_self e)

theorem Codec.wellFormed_full (h : ∀ l ∈ ls, codec.RecordOrTorn l) :
    (codec.wellFormed ls).length = ls.length ↔ ∀ l ∈ ls, codec.loads l ≠ .undecodable := by
  rw [Codec.wellFormed, List.filterMap_length_eq_length]
  refine forall₂_congr fun l hl => ?_
  rcases h l hl with htorn | ⟨item, hitem⟩
  · simp [Codec.item_torn htorn, htorn, Reading.toOption]
  · have hloads : codec.loads l ≠ .undecodable := fun htorn => by
      rw [Codec.item_torn htorn] at hitem
      cases hitem
    simp [hitem, hloads, Reading.toOption]

namespace DiskBuffer

/-- A commit of what a peek returned removes just that, exactly when no torn line stands among as
many lines at the head of the file. -/
theorem commit_peeked (codec : Codec Line) (b : DiskBuffer Line)
    (h : ∀ l ∈ b.lines, codec.RecordOrTorn l) (n : Nat) :
    ∃ chunk, b.peek codec n = .ok chunk ∧
      (codec.wellFormed (b.commit chunk.length).lines =
          (codec.wellFormed b.lines).drop chunk.length ↔
        ∀ l ∈ b.lines.take (min n (codec.wellFormed b.lines).length), codec.loads l ≠ .undecodable) := by
  refine ⟨_, Codec.items_wellFormed (fun l hl => (h l hl).item_ne_raised) n, ?_⟩
  rw [List.length_take, lines_commit]
  generalize hk : min n (codec.wellFormed b.lines).length = k
  have hsplit : codec.wellFormed b.lines =
      codec.wellFormed (b.lines.take k) ++ codec.wellFormed (b.lines.drop k) := by
    rw [← Codec.wellFormed_append, List.take_append_drop]
  have hle : k ≤ (codec.wellFormed b.lines).length := hk ▸ Nat.min_le_right _ _
  have htake : (b.lines.take k).length = k :=
    List.length_take_of_le (hle.trans (List.length_filterMap_le _ _))
  rw [← Codec.wellFormed_full fun l hl => h l (List.mem_of_mem_take hl), htake]
  constructor
  · intro heq
    have hlength := congrArg List.length heq
    rw [List.length_drop] at hlength
    rw [hsplit, List.length_append] at hlength hle
    omega
  · intro hfull
    rw [hsplit]
    exact (List.drop_left' hfull).symm

/-- Lines kept as the values they hold, and torn ones as none. -/
def torn : Codec (Option Json) := ⟨some, .ofOption, fun _ => rfl⟩

/-- A buffer whose first line was torn. -/
def tornFile : DiskBuffer (Option Json) :=
  ⟨some [none, torn.record "2026-07-10T09:00:00.000Z" mains], 250000, 72⟩

theorem tornFile_lines : ∀ l ∈ tornFile.lines, torn.RecordOrTorn l := by
  intro l hl
  rcases List.mem_cons.mp hl with rfl | hl
  · exact Or.inl rfl
  · rw [List.mem_singleton.mp hl]
    exact Or.inr ⟨_, Codec.item_record _ mains⟩

theorem commit_peeked_torn :
    ∃ chunk, tornFile.peek torn 1 = .ok chunk ∧
      (torn.wellFormed (tornFile.commit chunk.length).lines =
          (torn.wellFormed tornFile.lines).drop chunk.length ↔
        ∀ l ∈ tornFile.lines.take (min 1 (torn.wellFormed tornFile.lines).length),
          torn.loads l ≠ .undecodable) :=
  commit_peeked torn tornFile tornFile_lines 1

/-- The item that was peeked is still there after the commit. -/
theorem torn_line_committed :
    (∀ l ∈ tornFile.lines, torn.RecordOrTorn l) ∧ tornFile.peek torn 1 = .ok [mains.item] ∧
      torn.wellFormed (tornFile.commit 1).lines = [mains.item] ∧
      (torn.wellFormed tornFile.lines).drop 1 = [] :=
  ⟨tornFile_lines, rfl, rfl, rfl⟩

end DiskBuffer

end GridWitness.Client
