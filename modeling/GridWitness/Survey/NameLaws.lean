import GridWitness.Library.Text
import GridWitness.Survey.Parsers
import GridWitness.Survey.UploadLaws

namespace GridWitness.Survey

open Library Server

/-- Text as Python handles it: `strip` cuts off white space, which `lower` leaves alone. -/
structure PythonText (rt : Runtime) : Prop where
  strip : ∀ s, rt.strip s = String.ofList (Text.strip s.toList)
  lower_empty : rt.lower "" = ""
  lower_space : ∀ cs c, Text.isSpace c → (rt.lower (String.ofList (cs ++ [c]))).toList.getLast? = some c

/-- A runtime for concrete runs that strips white space as Python does. -/
def textRuntime : Runtime := { Runtime.ascii with strip := fun s => String.ofList (Text.strip s.toList) }

theorem textRuntime_text : PythonText textRuntime where
  strip _ := rfl
  lower_empty := by decide
  lower_space cs c h := by
    simp [textRuntime, Runtime.ascii, Text.toLower_space h]

section Path

/-- The components of a POSIX path. -/
def pathParts (raw : String) : List (List Char) :=
  (raw.toList.splitOn '/').filter fun part => part ≠ [] && part ≠ ['.']

theorem pathName_parts (raw : String) : pathName raw = String.ofList ((pathParts raw).getLast?.getD []) :=
  rfl

theorem not_mem_splitOn {cs part : List Char} (h : part ∈ cs.splitOn '/') : '/' ∉ part := by
  induction cs generalizing part with
  | nil =>
    rw [List.splitOn_nil, List.mem_singleton] at h
    simp [h]
  | cons c cs ih =>
    rw [List.splitOn_cons_eq_if_modifyHead] at h
    split at h
    next =>
      rcases List.mem_cons.mp h with rfl | h
      · exact List.not_mem_nil
      · exact ih h
    next hc =>
      have hne : '/' ≠ c := fun heq => hc (beq_iff_eq.mpr heq.symm)
      cases hparts : cs.splitOn '/' with
      | nil => simp [hparts] at h
      | cons first parts =>
        rw [hparts] at ih h
        rcases List.mem_cons.mp h with rfl | h
        · exact List.not_mem_cons_of_ne_of_not_mem hne (ih List.mem_cons_self)
        · exact ih (List.mem_cons_of_mem _ h)

theorem pathName_flat (raw : String) : '/' ∉ (pathName raw).toList := by
  rw [pathName_parts, String.toList_ofList]
  cases hlast : (pathParts raw).getLast? with
  | none => simp
  | some part =>
    exact not_mem_splitOn (List.mem_of_mem_filter (List.mem_of_getLast? hlast))

/-- A name without a separator is one component after those of its directory. -/
theorem pathParts_child (dir : String) {name : String} (hflat : '/' ∉ name.toList) (hempty : name ≠ "")
    (hdot : name ≠ ".") : pathParts (dir ++ "/" ++ name) = pathParts dir ++ [name.toList] := by
  have htext : (dir ++ "/" ++ name).toList = dir.toList ++ '/' :: name.toList := by
    simp [String.toList_append]
  have hsplit : (dir ++ "/" ++ name).toList.splitOn '/' = dir.toList.splitOn '/' ++ [name.toList] := by
    rw [htext, List.splitOn_append_cons_self, List.splitOn_eq_singleton hflat]
  have hnil : name.toList ≠ [] := fun h => hempty (String.toList_inj.mp h)
  have hone : name.toList ≠ ['.'] := fun h => hdot (String.toList_inj.mp h)
  rw [pathParts, hsplit, List.filter_append, ← pathParts]
  simp [hnil, hone]

theorem pathSuffix_none {name : String} (h : '.' ∉ name.toList) : pathSuffix name = "" := by
  have hall : name.toList.reverse.takeWhile (· ≠ '.') = name.toList.reverse := by
    refine List.takeWhile_eq_self_iff.mpr fun c hc => decide_eq_true fun heq => h ?_
    exact heq ▸ List.mem_reverse.mp hc
  rw [pathSuffix, hall]
  simp

/-- A suffix starts at the last dot, with something before and after it. -/
theorem pathSuffix_split {name : String} {front tail : List Char} (hsplit : name.toList = front ++ '.' :: tail)
    (hdot : '.' ∉ tail) :
    pathSuffix name = if tail = [] ∨ front = [] then "" else String.ofList ('.' :: tail) := by
  have hall : ∀ c ∈ tail.reverse, c ≠ '.' := fun c hc heq => hdot (heq ▸ List.mem_reverse.mp hc)
  have hlast : name.toList.reverse.takeWhile (· ≠ '.') = tail.reverse := by
    rw [hsplit, List.reverse_append, List.reverse_cons, List.append_assoc,
      List.takeWhile_append_of_pos (by simpa using hall)]
    simp
  have hshort : name.toList.length ≤ tail.length + 1 ↔ front = [] := by
    rw [hsplit, List.length_append, List.length_cons, ← List.length_eq_zero_iff]
    omega
  rw [pathSuffix, hlast]
  simp [hshort]

theorem exists_of_pathSuffix {name : String} (h : pathSuffix name ≠ "") :
    ∃ front tail, name.toList = front ++ '.' :: tail ∧ front ≠ [] ∧ tail ≠ [] ∧ '.' ∉ tail := by
  by_cases hmem : '.' ∈ name.toList
  · obtain ⟨tail, front, hreverse, hdot⟩ := List.eq_append_cons_of_mem (List.mem_reverse.mpr hmem)
    have hsplit : name.toList = front.reverse ++ '.' :: tail.reverse := by
      rw [← List.reverse_reverse name.toList, hreverse, List.reverse_append, List.reverse_cons,
        List.append_assoc, List.singleton_append]
    have hlast : '.' ∉ tail.reverse := fun hc => hdot (List.mem_reverse.mp hc)
    rw [pathSuffix_split hsplit hlast] at h
    obtain ⟨htail, hfront⟩ := not_or.mp fun hnil => h (if_pos hnil)
    exact ⟨front.reverse, tail.reverse, hsplit, hfront, htail, hlast⟩
  · exact absurd (pathSuffix_none hmem) h

end Path

/-- A name that is one component below any directory, and none that has a meaning of its own there. -/
structure SafeName (name : String) : Prop where
  flat : '/' ∉ name.toList
  notDot : name ≠ "."
  notDots : name ≠ ".."
  notManifest : name ≠ "manifest.json"
  child : ∀ dir, pathParts (dir ++ "/" ++ name) = pathParts dir ++ [name.toList]

section Name

variable {rt : Runtime} (htext : PythonText rt)
include htext

theorem safeName_flat (raw : Option String) {i : Nat} (h : i < maxFiles) :
    '/' ∉ (safeName rt raw i).toList := by
  have hindex : ∀ i < maxFiles, '/' ∉ (zeroPad 3 i).toList ∧ '/' ∉ (toString i).toList := by decide +kernel
  have hbase : '/' ∉ (rt.strip (pathName (raw.getD ""))).toList := by
    rw [htext.strip, String.toList_ofList]
    exact fun hmem => pathName_flat _ (Text.mem_of_mem_strip hmem)
  simp only [safeName, String.toList_append, List.mem_append, not_or]
  refine ⟨⟨(hindex i h).1, by decide⟩, ?_⟩
  split
  · rw [String.toList_append, List.mem_append, not_or]
    exact ⟨by decide, (hindex i h).2⟩
  · exact hbase

theorem safeName_safe (raw : Option String) {i : Nat} (h : i < maxFiles) : SafeName (safeName rt raw i) := by
  have hflat := safeName_flat htext raw h
  have hmark : '_' ∈ (safeName rt raw i).toList := by
    simp [safeName, String.toList_append]
  have hne : ∀ name : String, '_' ∉ name.toList → safeName rt raw i ≠ name := fun name hname heq =>
    hname (heq ▸ hmark)
  exact
    { flat := hflat
      notDot := hne _ (by decide)
      notDots := hne _ (by decide)
      notManifest := hne _ (by decide)
      child := fun dir => pathParts_child dir hflat (hne _ (by decide)) (hne _ (by decide)) }

/-- A suffix the upload accepts, once lowered, ends in no white space. -/
theorem suffix_last {f : UploadFile} (hext : fileExtension rt f ∈ allowedExtensions) {suffix : List Char}
    (hsuffix : pathSuffix (pathName (f.filename.getD "")) = String.ofList suffix) {c : Char}
    (hlast : suffix.getLast? = some c) : ¬ Text.isSpace c := by
  intro hspace
  have hallowed : ∀ ext ∈ allowedExtensions, (ext.toList.getLast?.all fun c => !Text.isSpace c) = true := by
    decide
  obtain ⟨cs, rfl⟩ := List.getLast?_eq_some_iff.mp hlast
  have hlower := hallowed _ hext
  rw [fileExtension, hsuffix, htext.lower_space cs c hspace] at hlower
  simp [hspace] at hlower

/-- The index in front of an accepted name and the white space cut off it leave its suffix alone. -/
theorem safeName_suffix {f : UploadFile} (i : Nat) (hext : fileExtension rt f ∈ allowedExtensions) :
    pathSuffix (safeName rt f.filename i) = pathSuffix (pathName (f.filename.getD "")) := by
  have hnonempty : pathSuffix (pathName (f.filename.getD "")) ≠ "" := by
    intro hempty
    rw [fileExtension, hempty, htext.lower_empty] at hext
    exact absurd hext (by decide)
  obtain ⟨front, tail, hsplit, hfront, htail, hdot⟩ := exists_of_pathSuffix hnonempty
  have hsuffix : pathSuffix (pathName (f.filename.getD "")) = String.ofList ('.' :: tail) := by
    rw [pathSuffix_split hsplit hdot, if_neg (not_or.mpr ⟨htail, hfront⟩)]
  have hlast : ∀ c, ('.' :: tail).getLast? = some c → ¬ Text.isSpace c := fun c =>
    suffix_last htext hext hsuffix
  obtain ⟨kept, hkept⟩ := Text.strip_keeps front (by decide) hlast
  have hstrip : rt.strip (pathName (f.filename.getD "")) = String.ofList (kept ++ '.' :: tail) := by
    rw [htext.strip, hsplit, hkept]
  have hname : (safeName rt f.filename i).toList =
      ((zeroPad 3 i).toList ++ '_' :: kept) ++ '.' :: tail := by
    have hne : String.ofList (kept ++ '.' :: tail) ≠ "" := by
      intro hnil
      simpa using congrArg String.toList hnil
    simp only [safeName, hstrip, if_neg hne, String.toList_append, String.toList_ofList]
    simp
  rw [hsuffix, pathSuffix_split hname hdot, if_neg (by simp [htail])]

end Name

/-- A file the upload kept: all of it, under a name of its own, read as what its extension says. -/
structure KeptFile (rt : Runtime) (folder : Folder) (f : UploadFile) (stored : StoredFile) : Prop where
  safe : SafeName stored.storedName
  original : stored.originalName = f.filename
  content : folder.lookup stored.storedName = some (.raw f.content)
  extension : rt.lower (pathSuffix stored.storedName) = fileExtension rt f
  dispatch : ∀ (host : ParserHost) (converter : Option Converter) (content : Content), host.rt = rt →
    host.parseFile converter stored.storedName content =
      if fileExtension rt f ∈ [".pqd", ".pqdif"] then parsePqdif host converter content
      else parseCsv host content

section Stash

variable (rt : Runtime)

theorem storedFiles_names (i : Nat) (files : List UploadFile) (folder : Folder) :
    (stash rt i files folder).2.map (·.storedName) =
      (storedFiles rt (fun content => [content]) i files).map (·.1) := by
  induction files generalizing i folder with
  | nil => rfl
  | cons f files ih =>
    simp only [stash, storedFiles, List.map_cons]
    rw [ih]

theorem stash_nodup {i : Nat} {files : List UploadFile} (folder : Folder)
    (h : i + files.length ≤ maxFiles) : ((stash rt i files folder).2.map (·.storedName)).Nodup := by
  rw [storedFiles_names]
  exact storedFiles_nodup rt _ i files h

/-- Only the names of the accepted files are written. -/
theorem stash_frame (i : Nat) (files : List UploadFile) (folder : Folder) {name : String}
    (h : name ∉ (stash rt i files folder).2.map (·.storedName)) :
    (stash rt i files folder).1.lookup name = folder.lookup name := by
  induction files generalizing i folder with
  | nil => rfl
  | cons f files ih =>
    simp only [stash, List.map_cons, List.mem_cons, not_or] at h ⊢
    rw [ih (i + 1) _ h.2, Table.lookup_replaceRow, if_neg h.1]

variable {rt} (htext : PythonText rt)
include htext

theorem stash_kept {i : Nat} {files : List UploadFile} (folder : Folder)
    (hext : ∀ f ∈ files, fileExtension rt f ∈ allowedExtensions) (h : i + files.length ≤ maxFiles) :
    List.Forall₂ (KeptFile rt (stash rt i files folder).1) files (stash rt i files folder).2 := by
  induction files generalizing i folder with
  | nil => exact .nil
  | cons f files ih =>
    have hnodup := stash_nodup rt folder h
    simp only [List.length_cons] at h
    simp only [stash, List.map_cons, List.nodup_cons] at hnodup ⊢
    have hsuffix := safeName_suffix htext i (hext f List.mem_cons_self)
    have hextension : rt.lower (pathSuffix (safeName rt f.filename i)) = fileExtension rt f :=
      congrArg rt.lower hsuffix
    refine .cons ?_ (ih _ (fun g hg => hext g (List.mem_cons_of_mem _ hg)) (by omega))
    exact
      { safe := safeName_safe htext f.filename (by omega)
        original := rfl
        content := by
          rw [stash_frame rt (i + 1) files _ hnodup.1, Table.lookup_replaceRow, if_pos rfl]
        extension := hextension
        dispatch := fun host converter content hrt => by
          rw [ParserHost.parseFile, hrt, hextension] }

end Stash

section Upload

variable {rt : Runtime} {s : App} {key : Option String} {form : SurveyForm} {draw : Draw}
  {uploadedUtc : String} {response : SurveyUploadResponse}

/-- The files of a form whose extension the upload accepts. -/
def acceptedFiles (rt : Runtime) (form : SurveyForm) : List UploadFile :=
  form.files.filter fun f => fileExtension rt f ∈ allowedExtensions

/-- An upload that answers has stored its accepted files, and the manifest after them. -/
theorem surveyUpload_inbox (h : (surveyUpload rt s key form draw uploadedUtc).2 = .ok response) :
    (acceptedFiles rt form).length ≤ maxFiles ∧
      ∃ (inbox : Folder) (manifest : Manifest),
        manifest.files = some (.stored (stash rt 0 (acceptedFiles rt form) inbox).2) ∧
          (surveyUpload rt s key form draw uploadedUtc).1.surveys.inbox.lookup draw.nodeId =
            some ((stash rt 0 (acceptedFiles rt form) inbox).1.replaceRow "manifest.json"
              (.manifest manifest)) := by
  simp only [surveyUpload] at h ⊢
  cases hcredential : requireInternal s.internalKey key with
  | error e =>
    rw [hcredential] at h
    cases h
  | ok _ =>
    rw [hcredential] at h
    dsimp only at h ⊢
    split at h
    next => cases h
    next hsome =>
      split at h
      next => cases h
      next hmany =>
        rw [if_neg hsome, if_neg hmany]
        cases htier : surveyTier form.locTier with
        | none =>
          rw [htier] at h
          cases h
        | some tier =>
          rw [htier] at h
          dsimp only at h ⊢
          cases hcheck : checkLocation tier form.region form.postcode with
          | error e =>
            rw [hcheck] at h
            cases h
          | ok _ =>
            rw [hcheck] at h
            dsimp only at h ⊢
            split at h
            next => cases h
            next hnone =>
              split at h
              next => cases h
              next hcreated =>
                rw [if_neg hnone, if_neg hcreated]
                have hfew := (List.length_filter_le (fun f => decide (fileExtension rt f ∈ allowedExtensions))
                  form.files).trans (Nat.le_of_not_lt hmany)
                let loc := resolveLocation rt tier form.postcode form.region none none
                let inbox := (s.surveys.inbox.lookup draw.nodeId).getD ∅
                let stored := (stash rt 0 (acceptedFiles rt form) inbox).2
                let manifest := surveyManifest rt form tier loc.locRef draw.nodeId uploadedUtc stored
                refine ⟨hfew, inbox, manifest, rfl, ?_⟩
                rw [Table.lookup_replaceRow, if_pos rfl]
                rfl

/-- Whatever the uploaded files are called, they are stored under safe names of their own, each with the
extension it was accepted for. -/
theorem stored_names_safe (htext : PythonText rt)
    (h : (surveyUpload rt s key form draw uploadedUtc).2 = .ok response) :
    ∃ (folder : Folder) (manifest : Manifest) (stored : List StoredFile),
      (surveyUpload rt s key form draw uploadedUtc).1.surveys.inbox.lookup draw.nodeId = some folder ∧
        folder.lookup "manifest.json" = some (.manifest manifest) ∧
        manifest.files = some (.stored stored) ∧
        (stored.map (·.storedName)).Nodup ∧
        List.Forall₂ (KeptFile rt folder) (acceptedFiles rt form) stored := by
  obtain ⟨hfew, inbox, manifest, hfiles, hinbox⟩ := surveyUpload_inbox h
  have hlength : 0 + (acceptedFiles rt form).length ≤ maxFiles := by rwa [Nat.zero_add]
  have hext : ∀ f ∈ acceptedFiles rt form, fileExtension rt f ∈ allowedExtensions := fun f hf => by
    simpa using List.of_mem_filter hf
  refine ⟨_, manifest, _, hinbox, ?_, hfiles, stash_nodup rt inbox hlength, ?_⟩
  · rw [Table.lookup_replaceRow, if_pos rfl]
  · refine (stash_kept htext inbox hext hlength).imp fun f stored hkept => { hkept with content := ?_ }
    rw [Table.lookup_replaceRow, if_neg hkept.safe.notManifest]
    exact hkept.content

end Upload

/-- Names made to climb out of the inbox, to meet another file and to be the manifest. -/
def craftedForm : SurveyForm where
  contributorRef := "alice"
  label := "roof"
  region := some "SW"
  files :=
    [⟨some "../../ volts.CSV", [1]⟩,
     ⟨some "/volts.CSV", [2]⟩,
     ⟨some "manifest.json", [3]⟩,
     ⟨some "x/. .pqd", [4]⟩]

def craftedUpload : App × Except Failure SurveyUploadResponse :=
  surveyUpload textRuntime (App.start (some "key") 6000) (some "key") craftedForm
    ⟨"n1", "secret", "2026-07-10T08:00:00Z"⟩ "2026-07-10T08:00:00.000Z"

theorem stored_names_safe_crafted :
    (acceptedFiles textRuntime craftedForm).length = 3 ∧
      ∃ (folder : Folder) (manifest : Manifest) (stored : List StoredFile),
        craftedUpload.1.surveys.inbox.lookup "n1" = some folder ∧
          folder.lookup "manifest.json" = some (.manifest manifest) ∧
          manifest.files = some (.stored stored) ∧
          (stored.map (·.storedName)).Nodup ∧
          List.Forall₂ (KeptFile textRuntime folder) (acceptedFiles textRuntime craftedForm) stored := by
  have hanswered : craftedUpload.2.toOption.isSome = true := by decide +kernel
  obtain ⟨response, hresponse⟩ : ∃ response, craftedUpload.2 = .ok response := by
    cases hanswer : craftedUpload.2 with
    | error e =>
      rw [hanswer] at hanswered
      cases hanswered
    | ok response => exact ⟨response, rfl⟩
  exact ⟨by decide +kernel, stored_names_safe textRuntime_text hresponse⟩

end GridWitness.Survey
