import GridWitness.Survey.Intake
import GridWitness.Survey.WorkerLaws

namespace GridWitness.Survey

open Library Server

namespace Drain

variable {d d' : Drain} {id name : String} {content : Content}

theorem writeInbox_file (h : d.writeInbox id name content = some d') (n : String) :
    d'.inboxFile id n = if n = name then some content else d.inboxFile id n := by
  obtain ⟨folder, hfolder, rfl⟩ := Option.map_eq_some_iff.mp h
  simp only [inboxFile, withInbox, Table.lookup_replaceRow, if_true, Option.bind_some, hfolder]

theorem writeInbox_isSome :
    (d.writeInbox id name content).isSome = (d.site.surveys.inbox.lookup id).isSome :=
  Option.isSome_map

theorem writeInbox_folder (h : d.writeInbox id name content = some d') :
    (d'.site.surveys.inbox.lookup id).isSome := by
  obtain ⟨folder, -, rfl⟩ := Option.map_eq_some_iff.mp h
  simp [withInbox, Table.lookup_replaceRow]

/-- The folder is made with the files that are there already. -/
theorem makeInbox_file (n : String) :
    (d.withInbox (d.site.surveys.inbox.replaceRow id
      ((d.site.surveys.inbox.lookup id).getD ∅))).inboxFile id n = d.inboxFile id n := by
  simp only [inboxFile, withInbox, Table.lookup_replaceRow, if_true, Option.bind_some]
  cases d.site.surveys.inbox.lookup id with
  | none => exact AList.lookup_empty n
  | some folder => rfl

theorem writeArchive_file (h : d.writeArchive id name content = some d') (n : String) :
    d'.archiveFile id n = if n = name then some content else d.archiveFile id n := by
  obtain ⟨folder, hfolder, rfl⟩ := Option.map_eq_some_iff.mp h
  simp only [archiveFile, withArchive, Table.lookup_replaceRow, if_true, Option.bind_some, hfolder]

theorem makeArchive_file (n : String) : (d.makeArchive id).archiveFile id n = d.archiveFile id n := by
  simp only [archiveFile, makeArchive, withArchive, Table.lookup_replaceRow, if_true,
    Option.bind_some]
  cases d.site.surveys.archive.lookup id with
  | none => exact AList.lookup_empty n
  | some folder => rfl

/-- What a move does: the file is in the archive with the content it had. -/
theorem moveFile_file (h : d.moveFile id name = some d') :
    ∃ content, d.inboxFile id name = some content ∧
      (d'.site.surveys.inbox.lookup id).isSome ∧
      (∀ n, d'.inboxFile id n = if n = name then none else d.inboxFile id n) ∧
      ∀ n, d'.archiveFile id n = if n = name then some content else d.archiveFile id n := by
  simp only [moveFile] at h
  split at h
  · cases h
  · next folder hfolder =>
    split at h
    · cases h
    · next content hcontent =>
      obtain ⟨d₁, hwritten, rfl⟩ := Option.map_eq_some_iff.mp h
      refine ⟨content, ?_, ?_, fun n => ?_, fun n => ?_⟩
      · simp only [inboxFile, hfolder, Option.bind_some, hcontent]
      · simp [withInbox, Table.lookup_replaceRow]
      · simp only [inboxFile, withInbox, Table.lookup_replaceRow, if_true, Option.bind_some,
          Table.lookup_deleteRow, hfolder]
      · exact writeArchive_file hwritten n

end Drain

/-- The step of a survey leaves the folders of every other one alone. -/
theorem Effect.other {rt : Runtime} {parseFile : Parser} {id other : String} {d d' : Drain}
    {stage stage' : Stage} (h : Effect rt parseFile id d stage d' stage') (hne : other ≠ id) :
    d'.site.surveys.inbox.lookup other = d.site.surveys.inbox.lookup other ∧
      d'.site.surveys.archive.lookup other = d.site.surveys.archive.lookup other := by
  have hinbox : ∀ {d d' : Drain} {name content}, d.writeInbox id name content = some d' →
      d'.site.surveys.inbox.lookup other = d.site.surveys.inbox.lookup other ∧
        d'.site.surveys.archive.lookup other = d.site.surveys.archive.lookup other := by
    intro d d' name content h
    obtain ⟨folder, -, rfl⟩ := Option.map_eq_some_iff.mp h
    simp [Drain.withInbox, Table.lookup_replaceRow, hne]
  have harchive : ∀ {d d' : Drain} {name content}, d.writeArchive id name content = some d' →
      d'.site.surveys.inbox.lookup other = d.site.surveys.inbox.lookup other ∧
        d'.site.surveys.archive.lookup other = d.site.surveys.archive.lookup other := by
    intro d d' name content h
    obtain ⟨folder, -, rfl⟩ := Option.map_eq_some_iff.mp h
    simp [Drain.withArchive, Table.lookup_replaceRow, hne]
  cases h with
  | purgeInbox => simp [Drain.withInbox, Table.lookup_deleteRow, hne]
  | purgeArchive => simp [Drain.withArchive, Table.lookup_deleteRow, hne]
  | makeArchive => simp [Drain.makeArchive, Drain.withArchive, Table.lookup_replaceRow, hne]
  | extract _ hwritten => exact harchive hwritten
  | record _ hwritten => exact harchive hwritten
  | pend _ hwritten => exact hinbox hwritten
  | clean => simp [Drain.withInbox, Table.lookup_deleteRow, hne]
  | move hmoved =>
    simp only [Drain.moveFile] at hmoved
    split at hmoved
    · cases hmoved
    · split at hmoved
      · cases hmoved
      · obtain ⟨d₁, hwritten, rfl⟩ := Option.map_eq_some_iff.mp hmoved
        obtain ⟨hin, harch⟩ := harchive hwritten
        simp only [Drain.withInbox, Table.lookup_replaceRow, hne, if_false]
        exact ⟨hin, harch⟩
  | _ => exact ⟨rfl, rfl⟩

/-- Each file written so far is complete in the inbox, or complete in the archive and given whole to
the parser; the inbox holds none of them otherwise; and of all names only theirs are archived. -/
structure Filed (id : String) (names : List String) (done : List (String × Bytes))
    (offered : List (String × Content)) (d : Drain) : Prop where
  kept : ∀ f ∈ done, d.inboxFile id f.1 = some (.raw f.2) ∨
    d.archiveFile id f.1 = some (.raw f.2) ∧ (f.1, .raw f.2) ∈ offered
  same : ∀ f ∈ done, ∀ content, d.inboxFile id f.1 = some content → content = .raw f.2
  archived : ∀ name ∈ names, ∀ content, d.archiveFile id name = some content →
    ∃ f ∈ done, f.1 = name ∧ content = .raw f.2

namespace Filed

variable {id name : String} {names : List String} {done : List (String × Bytes)}
  {offered offered' : List (String × Content)} {d d' : Drain} {content : Content}

theorem of_files (h : Filed id names done offered d)
    (hinbox : ∀ n, d'.inboxFile id n = d.inboxFile id n)
    (harchive : ∀ n, d'.archiveFile id n = d.archiveFile id n) : Filed id names done offered d' where
  kept f hf := by
    rw [hinbox, harchive]
    exact h.kept f hf
  same f hf content := by
    rw [hinbox]
    exact h.same f hf content
  archived name hname content := by
    rw [harchive]
    exact h.archived name hname content

theorem offer (h : Filed id names done offered d) (hsub : offered ⊆ offered') :
    Filed id names done offered' d where
  kept f hf := (h.kept f hf).imp_right fun h => ⟨h.1, hsub h.2⟩
  same := h.same
  archived := h.archived

/-- A write into the inbox under a name that is not written yet. -/
theorem writeInbox (h : Filed id names done offered d)
    (hwrite : d.writeInbox id name content = some d') (hnew : ∀ f ∈ done, f.1 ≠ name) :
    Filed id names done offered d' := by
  have hinbox : ∀ f ∈ done, d'.inboxFile id f.1 = d.inboxFile id f.1 := fun f hf => by
    rw [Drain.writeInbox_file hwrite, if_neg (hnew f hf)]
  have harchive : ∀ n, d'.archiveFile id n = d.archiveFile id n := fun n => by
    rw [Drain.archiveFile, (Drain.writeInbox_frame hwrite).2.2.2]
    rfl
  refine ⟨fun f hf => ?_, fun f hf content => ?_, fun name hname content => ?_⟩
  · rw [hinbox f hf, harchive]
    exact h.kept f hf
  · rw [hinbox f hf]
    exact h.same f hf content
  · rw [harchive]
    exact h.archived name hname content

/-- A write into the archive under a name that is none of the upload's. -/
theorem writeArchive (h : Filed id names done offered d)
    (hwrite : d.writeArchive id name content = some d') (hplain : name ∉ names)
    (hnames : ∀ f ∈ done, f.1 ∈ names) : Filed id names done offered d' := by
  have hinbox : ∀ n, d'.inboxFile id n = d.inboxFile id n := fun n => by
    rw [Drain.inboxFile, (Drain.writeArchive_frame hwrite).2.2.2]
    rfl
  have harchive : ∀ n ∈ names, d'.archiveFile id n = d.archiveFile id n := fun n hn => by
    rw [Drain.writeArchive_file hwrite, if_neg fun heq : n = name => hplain (heq ▸ hn)]
  refine ⟨fun f hf => ?_, fun f hf content => ?_, fun name hname content => ?_⟩
  · rw [hinbox, harchive f.1 (hnames f hf)]
    exact h.kept f hf
  · rw [hinbox]
    exact h.same f hf content
  · rw [harchive name hname]
    exact h.archived name hname content

/-- A written file that was given whole to the parser may be moved. -/
theorem moveFile (h : Filed id names done offered d) (hmove : d.moveFile id name = some d')
    (hnodup : (done.map (·.1)).Nodup) {f : String × Bytes} (hf : f ∈ done) (hname : f.1 = name)
    (hoffered : (name, .raw f.2) ∈ offered) : Filed id names done offered d' := by
  subst hname
  obtain ⟨content, hcontent, -, hinbox, harchive⟩ := Drain.moveFile_file hmove
  obtain rfl : content = .raw f.2 := h.same f hf content hcontent
  refine ⟨fun g hg => ?_, fun g hg content => ?_, fun name hname content => ?_⟩
  · rw [hinbox, harchive]
    by_cases hgf : g.1 = f.1
    · obtain rfl : g = f := List.inj_on_of_nodup_map hnodup hg hf hgf
      rw [if_pos rfl, if_pos rfl]
      exact Or.inr ⟨rfl, hoffered⟩
    · rw [if_neg hgf, if_neg hgf]
      exact h.kept g hg
  · rw [hinbox]
    split
    · exact nofun
    · exact h.same g hg content
  · rw [harchive]
    split
    · next heq =>
      rintro ⟨⟩
      exact ⟨f, hf, heq.symm, rfl⟩
    · exact h.archived name hname content

/-- The inbox folder may go when none of the files is in it. -/
theorem removeInbox (h : Filed id names done offered d)
    (hnone : ∀ f ∈ done, d.inboxFile id f.1 = none) :
    Filed id names done offered (d.withInbox (d.site.surveys.inbox.deleteRow id)) := by
  have hinbox : ∀ n, (d.withInbox (d.site.surveys.inbox.deleteRow id)).inboxFile id n = none :=
    fun n => by simp [Drain.inboxFile, Drain.withInbox, Table.lookup_deleteRow]
  refine ⟨fun f hf => Or.inr ?_, fun f hf content => ?_, h.archived⟩
  · refine (h.kept f hf).resolve_left fun hin => ?_
    rw [hnone f hf] at hin
    cases hin
  · rw [hinbox]
    exact nofun

/-- A file in the inbox is written to its end. -/
theorem close {written : Bytes} (h : Filed id names done offered d)
    (hfile : d.inboxFile id name = some (.raw written)) :
    Filed id names (done ++ [(name, written)]) offered d where
  kept f hf := by
    rcases List.mem_append.mp hf with hf | hf
    · exact h.kept f hf
    · rw [List.mem_singleton.mp hf]
      exact Or.inl hfile
  same f hf content hcontent := by
    rcases List.mem_append.mp hf with hf | hf
    · exact h.same f hf content hcontent
    · rw [List.mem_singleton.mp hf] at hcontent ⊢
      rw [hfile] at hcontent
      exact (Option.some.inj hcontent).symm
  archived name hname content hcontent := by
    obtain ⟨f, hf, h⟩ := h.archived name hname content hcontent
    exact ⟨f, List.mem_append_left _ hf, h⟩

end Filed

/-- After a step no more files are known to be gone. -/
def Narrows (due : Option (List String)) : Option (List String) → Prop
  | none => True
  | some names' => ∃ names ∈ due, names ⊆ names'

theorem Narrows.refl (due : Option (List String)) : Narrows due due := by
  cases due with
  | none => trivial
  | some names => exact ⟨names, rfl, List.Subset.refl _⟩

theorem Narrows.of_subset {names names' : List String} (h : names ⊆ names') :
    Narrows (some names) (some names') := ⟨names, rfl, h⟩

/-- A file the worker has listed leaves the inbox only when it is written, and is there no longer once
it is not due in the running drain. -/
structure Listed (id : String) (listed : List String) (done : List (String × Bytes)) (d : Drain)
    (due : Option (List String)) : Prop where
  plain : ∀ n ∈ listed, n ≠ "manifest.json"
  seen : ∀ n ∈ listed, (d.inboxFile id n).isSome ∨ n ∈ done.map (·.1)
  due : ∀ names ∈ due, ∀ n ∈ listed, n ∈ names ∨ d.inboxFile id n = none

namespace Listed

variable {id name : String} {listed names : List String} {done : List (String × Bytes)}
  {d d' : Drain} {content : Content} {due due' : Option (List String)}

theorem of_files (h : Listed id listed done d due)
    (hinbox : ∀ n, d'.inboxFile id n = d.inboxFile id n)
    (hdue : Narrows due due') : Listed id listed done d' due' where
  plain := h.plain
  seen n hn := by
    rw [hinbox]
    exact h.seen n hn
  due names' hnames' n hn := by
    subst hnames'
    obtain ⟨names, hnames, hsub⟩ := hdue
    rw [hinbox]
    exact (h.due names hnames n hn).imp_left fun h => hsub h

theorem writeInbox (h : Listed id listed done d due)
    (hwrite : d.writeInbox id name content = some d') (hnew : name ∉ done.map (·.1))
    (hdue : Narrows due due') : Listed id listed done d' due' where
  plain := h.plain
  seen n hn := by
    rw [Drain.writeInbox_file hwrite]
    split
    · exact Or.inl rfl
    · exact h.seen n hn
  due names' hnames' n hn := by
    subst hnames'
    obtain ⟨names, hnames, hsub⟩ := hdue
    refine (h.due names hnames n hn).imp (fun h => hsub h) fun hnone => ?_
    -- what is gone is written, and is not written again
    have hdone : n ∈ done.map (·.1) := (h.seen n hn).resolve_left (by simp [hnone])
    rwa [Drain.writeInbox_file hwrite, if_neg fun heq : n = name => hnew (heq ▸ hdone)]

theorem close (h : Listed id listed done d due) (f : String × Bytes) :
    Listed id listed (done ++ [f]) d due where
  plain := h.plain
  seen n hn := (h.seen n hn).imp_right fun hdone => by
    rw [List.map_append]
    exact List.mem_append_left _ hdone
  due := h.due

theorem moveFile (h : Listed id listed done d (some (name :: names)))
    (hmove : d.moveFile id name = some d') (hdone : name ∈ done.map (·.1)) :
    Listed id listed done d' (some names) := by
  obtain ⟨content, hcontent, -, hinbox, -⟩ := Drain.moveFile_file hmove
  refine ⟨h.plain, fun n hn => ?_, ?_⟩
  · rw [hinbox]
    split
    · next heq => exact Or.inr (heq ▸ hdone)
    · exact h.seen n hn
  · rintro _ ⟨⟩ n hn
    rw [hinbox]
    split
    · exact Or.inr rfl
    · next hne => exact (h.due _ rfl n hn).imp_left fun hin => (List.mem_cons.mp hin).resolve_left hne

theorem none_left (h : Listed id listed done d (some [])) (hall : ∀ f ∈ done, f.1 ∈ listed) :
    ∀ f ∈ done, d.inboxFile id f.1 = none :=
  fun f hf => (h.due [] rfl f.1 (hall f hf)).resolve_left List.not_mem_nil

theorem removeInbox (h : Listed id listed done d (some [])) :
    Listed id listed done (d.withInbox (d.site.surveys.inbox.deleteRow id)) none where
  plain := h.plain
  seen n hn := by
    have hnone := (h.due [] rfl n hn).resolve_left List.not_mem_nil
    exact Or.inr ((h.seen n hn).resolve_left (by simp [hnone]))
  due := nofun

/-- The worker lists the folder. -/
theorem list (h : Listed id listed done d due) {folder : Folder}
    (hfolder : d.site.surveys.inbox.lookup id = some folder) :
    Listed id (dataNames folder ++ listed) done d (some (dataNames folder)) := by
  have hfile : ∀ n, d.inboxFile id n = folder.lookup n := fun n => by
    rw [Drain.inboxFile, hfolder, Option.bind_some]
  have hnames : ∀ n, n ∈ dataNames folder ↔ (folder.lookup n).isSome ∧ n ≠ "manifest.json" := by
    intro n
    simp [dataNames, AList.lookup_isSome, AList.mem_keys]
  refine ⟨fun n hn => ?_, fun n hn => ?_, ?_⟩
  · exact (List.mem_append.mp hn).elim (fun hn => ((hnames n).mp hn).2) (h.plain n)
  · rw [hfile]
    exact (List.mem_append.mp hn).elim (fun hn => Or.inl ((hnames n).mp hn).1)
      (fun hn => hfile n ▸ h.seen n hn)
  · rintro _ ⟨⟩ n hn
    rw [hfile]
    rcases List.mem_append.mp hn with hn | hn
    · exact Or.inl hn
    · cases hlookup : folder.lookup n with
      | none => exact Or.inr rfl
      | some content => exact Or.inl ((hnames n).mpr ⟨by rw [hlookup]; rfl, h.plain n hn⟩)

end Listed

end GridWitness.Survey
