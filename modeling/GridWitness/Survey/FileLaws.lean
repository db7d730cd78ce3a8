import GridWitness.Survey.CrashLaws

namespace GridWitness.Survey

open Library Server

/-- What an effect of a survey does to one file of it. -/
inductive FileChange (id n : String) (d : Drain) (stage : Stage) (d' : Drain) : Prop
  | same (inbox : d'.inboxFile id n = d.inboxFile id n)
      (archive : d'.archiveFile id n = d.archiveFile id n)
  | archived (name : n = "manifest.json" ∨ ∃ now, n = extractedName now)
      (inbox : d'.inboxFile id n = d.inboxFile id n) (archive : (d'.archiveFile id n).isSome)
  | requeued (name : n = "manifest.json") (inbox : (d'.inboxFile id n).isSome)
      (archive : d'.archiveFile id n = d.archiveFile id n)
  | moved (moving : ∃ m w accepted dups remaining,
        stage = .moving m w accepted dups (n :: remaining))
      (inbox : d'.inboxFile id n = none) (archive : (d'.archiveFile id n).isSome)
  | cleaned (cleaning : ∃ accepted files, stage = .cleaning accepted files)
      (inbox : d'.inboxFile id n = none) (archive : d'.archiveFile id n = d.archiveFile id n)
  | purged (purging : stage = .withdrawn ∨ stage = .purging)
      (inbox : d'.inboxFile id n = none ∨ d'.inboxFile id n = d.inboxFile id n)
      (archive : d'.archiveFile id n = none ∨ d'.archiveFile id n = d.archiveFile id n)

section Effects

variable {rt : Runtime} {parseFile : Parser} {id : String} {d d' : Drain} {stage stage' : Stage}

theorem FileChange.of_writeArchive {name : String} {content : Content}
    (hwritten : d.writeArchive id name content = some d')
    (hname : name = "manifest.json" ∨ ∃ now, name = extractedName now) (n : String) :
    FileChange id n d stage d' := by
  have hin : d'.inboxFile id n = d.inboxFile id n := by
    rw [Drain.inboxFile, (Drain.writeArchive_frame hwritten).2.2.2]
    rfl
  have hout := Drain.writeArchive_file hwritten n
  split at hout
  · next heq => exact .archived (heq ▸ hname) hin (by rw [hout, Option.isSome_some])
  · exact .same hin hout

theorem Effect.file (h : Effect rt parseFile id d stage d' stage') (n : String) :
    FileChange id n d stage d' := by
  cases h with
  | purgeInbox =>
    refine .purged (.inl rfl) (.inl ?_) (.inr rfl)
    simp [Drain.inboxFile, Drain.withInbox, Table.lookup_deleteRow]
  | purgeArchive =>
    refine .purged (.inr rfl) (.inr rfl) (.inl ?_)
    simp [Drain.archiveFile, Drain.withArchive, Table.lookup_deleteRow]
  | makeArchive => exact .same rfl (Drain.makeArchive_file n)
  | extract _ hwritten => exact .of_writeArchive hwritten (.inr ⟨_, rfl⟩) n
  | record _ hwritten => exact .of_writeArchive hwritten (.inl rfl) n
  | pend _ hwritten =>
    have hin := Drain.writeInbox_file hwritten n
    have hout : d'.archiveFile id n = d.archiveFile id n := by
      rw [Drain.archiveFile, (Drain.writeInbox_frame hwritten).2.2.2]
      rfl
    split at hin
    · next hname => exact .requeued hname (by rw [hin, Option.isSome_some]) hout
    · exact .same hin hout
  | @move _ _ m w accepted dups name remaining hmoved =>
    obtain ⟨content, -, -, hin, hout⟩ := Drain.moveFile_file hmoved
    by_cases hname : n = name
    · subst hname
      refine .moved ⟨m, w, accepted, dups, remaining, rfl⟩ ?_ ?_
      · rw [hin, if_pos rfl]
      · rw [hout, if_pos rfl, Option.isSome_some]
    · exact .same (by rw [hin, if_neg hname]) (by rw [hout, if_neg hname])
  | clean =>
    refine .cleaned ⟨_, _, rfl⟩ ?_ rfl
    simp [Drain.inboxFile, Drain.withInbox, Table.lookup_deleteRow]
  | _ => exact .same rfl rfl

end Effects

/-- No name but the manifest's is in both folders of a node, and no upload is named like an extract. -/
structure Tidy (d : Drain) : Prop where
  plain : ∀ id n, (d.inboxFile id n).isSome → ∀ now, n ≠ extractedName now
  apart : ∀ id n, n ≠ "manifest.json" → (d.inboxFile id n).isSome → d.archiveFile id n = none

theorem ne_extractedName {n : String} (h : n.toList.take 1 ≠ ['e']) (now : String) :
    n ≠ extractedName now := by
  rintro rfl
  simp [extractedName, String.toList_append] at h

namespace Drains

variable {rt : Runtime} {x : Drains} {e : DrainEvent}

theorem step_db (rt : Runtime) (x : Drains) (e : DrainEvent) :
    (x.step rt e).drain.site.db = x.drain.site.db := by
  cases e with
  | start parseFile =>
    simp only [step]
    split <;> rfl
  | stop => rfl
  | effect tick =>
    simp only [step, effect]
    split
    · rfl
    · rfl
    · rfl
    · rfl
    · exact (step_effect rt x.parseFile _ tick x.drain _).db_eq

/-- An event leaves a file alone, or it is an effect of the survey of its node. -/
theorem step_file (rt : Runtime) (x : Drains) (e : DrainEvent) (id n : String) :
    ((x.step rt e).drain.inboxFile id n = x.drain.inboxFile id n ∧
      (x.step rt e).drain.archiveFile id n = x.drain.archiveFile id n) ∨
    ∃ tick remaining stage, e = .effect tick ∧ x.stage = .survey id remaining stage ∧
      FileChange id n x.drain stage (x.step rt e).drain := by
  cases e with
  | start parseFile =>
    simp only [step]
    split <;> exact .inl ⟨rfl, rfl⟩
  | stop => exact .inl ⟨rfl, rfl⟩
  | effect tick =>
    simp only [step, effect]
    split
    · exact .inl ⟨rfl, rfl⟩
    · exact .inl ⟨rfl, rfl⟩
    · exact .inl ⟨rfl, rfl⟩
    · exact .inl ⟨rfl, rfl⟩
    · next j remaining stage _ hstage =>
      have heffect := step_effect rt x.parseFile j tick x.drain stage
      by_cases hid : id = j
      · subst hid
        exact .inr ⟨tick, remaining, stage, rfl, hstage, heffect.file n⟩
      · obtain ⟨hin, hout⟩ := heffect.other hid
        refine .inl ⟨?_, ?_⟩
        · simp only [Drain.inboxFile, hin]
        · simp only [Drain.archiveFile, hout]

/-- The worker removes what it finds of a node only when the node is gone. -/
def Gone (x : Drains) : Prop :=
  ∀ id remaining stage, x.stage = .survey id remaining stage →
    stage = .withdrawn ∨ stage = .purging → x.drain.site.db.getNode id = none

theorem step_gone (hx : x.Gone) (rt : Runtime) (e : DrainEvent) : (x.step rt e).Gone := by
  cases e with
  | start parseFile =>
    simp only [step]
    split
    · intro id remaining stage hstage
      cases hstage
    · exact hx
  | stop =>
    intro id remaining stage hstage
    cases hstage
  | effect tick =>
    simp only [step, effect]
    split
    · exact hx
    · intro id remaining stage hstage
      cases hstage
    · intro id remaining stage hstage hpurging
      cases hstage
      rcases hpurging with h | h <;> cases h
    · intro id remaining stage hstage
      cases hstage
    · next j remaining stage hopen hstage =>
      have heffect := step_effect rt x.parseFile j tick x.drain stage
      generalize Survey.step rt x.parseFile j tick x.drain stage = next at heffect
      obtain ⟨d', stage'⟩ := next
      intro id remaining' current hcurrent hpurging
      cases hcurrent
      rw [heffect.db_eq]
      cases heffect with
      | withdraw hgone => exact hgone
      | purgeInbox => exact hx _ _ _ hstage (.inl rfl)
      | done => exact hx _ _ _ hstage hpurging
      | write m w fault result _ hnext =>
        subst hnext
        cases result <;> rcases hpurging with h | h <;> cases h
      | _ => rcases hpurging with h | h <;> cases h

theorem step_tidy (hx : Tidy x.drain) (rt : Runtime) (e : DrainEvent) : Tidy (x.step rt e).drain := by
  refine ⟨fun id n hin now => ?_, fun id n hplain hin => ?_⟩
  · rcases step_file rt x e id n with ⟨hsame, -⟩ | ⟨tick, remaining, stage, -, -, hchange⟩
    · exact hx.plain id n (hsame ▸ hin) now
    · cases hchange with
      | same hsame => exact hx.plain id n (hsame ▸ hin) now
      | archived _ hsame => exact hx.plain id n (hsame ▸ hin) now
      | requeued hname => exact hname ▸ ne_extractedName (by decide) now
      | moved _ hnone => rw [hnone] at hin; cases hin
      | cleaned _ hnone => rw [hnone] at hin; cases hin
      | purged _ hinbox =>
        rcases hinbox with hnone | hsame
        · rw [hnone] at hin; cases hin
        · exact hx.plain id n (hsame ▸ hin) now
  · rcases step_file rt x e id n with ⟨hsame, hout⟩ | ⟨tick, remaining, stage, -, -, hchange⟩
    · exact hout.trans (hx.apart id n hplain (hsame ▸ hin))
    · cases hchange with
      | same hsame hout => exact hout.trans (hx.apart id n hplain (hsame ▸ hin))
      | archived hname hsame =>
        rcases hname with hname | ⟨now, hname⟩
        · exact absurd hname hplain
        · exact absurd hname (hx.plain id n (hsame ▸ hin) now)
      | requeued hname => exact absurd hname hplain
      | moved _ hnone => rw [hnone] at hin; cases hin
      | cleaned _ hnone => rw [hnone] at hin; cases hin
      | purged _ hinbox harchive =>
        rcases hinbox with hnone | hsame
        · rw [hnone] at hin; cases hin
        · rcases harchive with hout | hout
          · exact hout
          · exact hout.trans (hx.apart id n hplain (hsame ▸ hin))

/-- What is archived of a live node stays. -/
theorem step_archived (hgone : x.Gone) (rt : Runtime) (e : DrainEvent) {id n : String}
    (hlive : (x.drain.site.db.getNode id).isSome) (h : (x.drain.archiveFile id n).isSome) :
    ((x.step rt e).drain.archiveFile id n).isSome := by
  rcases step_file rt x e id n with ⟨-, hout⟩ | ⟨tick, remaining, stage, -, hstage, hchange⟩
  · exact hout ▸ h
  · cases hchange with
    | same _ hout => exact hout ▸ h
    | archived _ _ hout => exact hout
    | requeued _ _ hout => exact hout ▸ h
    | moved _ _ hout => exact hout
    | cleaned _ _ hout => exact hout ▸ h
    | purged hpurging =>
      rw [hgone id remaining stage hstage hpurging] at hlive
      cases hlive

end Drains

end GridWitness.Survey
